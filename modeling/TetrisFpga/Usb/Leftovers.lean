import TetrisFpga.Machine.History
import TetrisFpga.Machine.TwoRuns
import TetrisFpga.Usb.InTransfer
import TetrisFpga.Usb.Tasks

/-!
# What was in a buffer before

Two runs that start with different contents of one buffer go the same way as long as every byte
that the first one loads from the buffer has been stored in the run.
-/

namespace TetrisFpga.Usb
open Program History

/-- The address of a load. -/
def Event.loadFrom : Event → Option Ptr
  | .load p => some p
  | _ => none

/-- Every byte of `o` that was loaded had been stored before. -/
def Fed (o : Obj) : List Event → Prop :=
  Always fun e log => ∀ p ∈ e.loadFrom, p.obj = o → p ∈ stored log

theorem fed_cons {o : Obj} {e : Event} (he : e.loadFrom = none) {log : List Event} :
    Fed o (e :: log) ↔ Fed o log :=
  ⟨fun h => h.2, fun h => ⟨fun p hp => (by rw [he] at hp; cases hp), h⟩⟩

theorem mem_stored_cons {p : Ptr} {log : List Event} (h : p ∈ stored log) (e : Event) :
    p ∈ stored (e :: log) := by
  unfold stored at h ⊢
  cases he : e.storeTo with
  | none => rwa [List.filterMap_cons_none he]
  | some q =>
    rw [List.filterMap_cons_some he]
    exact List.mem_cons_of_mem _ h

section TwoRuns

variable {χ : Type} {o : Obj}

/-- The worlds differ at most in those bytes of `o` that have not been stored. -/
def Agree (o : Obj) (w w' : World χ) : Prop :=
  ∃ m, w' = { w with mem := m } ∧
    ∀ p : Ptr, p.obj ≠ o ∨ p ∈ stored w.log → m p.obj p.off = w.mem p.obj p.off

/-- Only bytes of `o` that were stored have been loaded. -/
structure FedRun (o : Obj) (w : World χ) : Prop where
  fed : Fed o w.log

/-- Two runs that may start with different contents of `o`. -/
abbrev Unspoiled (o : Obj) {α : Type} (x : Prog χ α) : Prop :=
  TwoRuns (Agree o) (FedRun o) x

/-- A program that looks at the memory no more than it changes it. -/
theorem unspoiled_still {α : Type} {x : Prog χ α}
    (hx : ∀ w : World χ, ∃ a chip host pio, ∀ m, x { w with mem := m } =
      .ok a { chip := chip, host := host, mem := m, pio := pio, log := w.log }) :
    Unspoiled o x := by
  refine .of_ok (fun w hG => ?_) fun w w' hw _ => ?_
  · obtain ⟨a, chip, host, pio, hrun⟩ := hx w
    rw [show x w = _ from hrun w.mem] at hG
    exact ⟨hG.fed⟩
  · obtain ⟨m, rfl, hm⟩ := hw
    obtain ⟨a, chip, host, pio, hrun⟩ := hx w
    exact ⟨a, _, _, hrun w.mem, hrun m, m, rfl, hm⟩

/-- The same with an event that is neither a load nor a store. -/
theorem unspoiled_event {α : Type} {x : Prog χ α}
    (hx : ∀ w : World χ, ∃ a chip host e, e.storeTo = none ∧ ∀ m, x { w with mem := m } =
      .ok a { chip := chip, host := host, mem := m, pio := w.pio, log := e :: w.log }) :
    Unspoiled o x := by
  refine .of_ok (fun w hG => ?_) fun w w' hw _ => ?_
  · obtain ⟨a, chip, host, e, -, hrun⟩ := hx w
    rw [show x w = _ from hrun w.mem] at hG
    exact ⟨hG.fed.2⟩
  · obtain ⟨m, rfl, hm⟩ := hw
    obtain ⟨a, chip, host, e, he, hrun⟩ := hx w
    refine ⟨a, _, _, hrun w.mem, hrun m, m, rfl, fun p hp => hm p (hp.imp_right fun h => ?_)⟩
    have hsame : stored (e :: w.log) = stored w.log := List.filterMap_cons_none he
    exact hsame ▸ h

/-- A byte that is loaded has been stored. -/
theorem unspoiled_load (p : Ptr) : Unspoiled o (load p : Prog χ BYTE) := by
  refine .of_ok (fun w hG => ⟨hG.fed.2⟩) fun w w' hw hG => ?_
  obtain ⟨m, rfl, hm⟩ := hw
  have hp : p.obj ≠ o ∨ p ∈ stored w.log := by
    by_cases h : p.obj = o
    · exact .inr (hG.fed.1 p rfl h)
    · exact .inl h
  refine ⟨w.mem p.obj p.off, _, _, rfl, ?_, m, rfl, hm⟩
  rw [← hm p hp]
  rfl

theorem unspoiled_store (p : Ptr) (val : BYTE) : Unspoiled o (store p val : Prog χ Unit) := by
  refine .of_ok (fun w hG => ⟨hG.fed.2⟩) fun w w' hw _ => ?_
  obtain ⟨m, rfl, hm⟩ := hw
  refine ⟨(), _, _, rfl, rfl, _, rfl, fun q hq => ?_⟩
  show (if q.obj = p.obj ∧ q.off = p.off then val else m q.obj q.off) =
    if q.obj = p.obj ∧ q.off = p.off then val else w.mem q.obj q.off
  split
  · rfl
  · next hne =>
    refine hm q (hq.imp_right fun h => ?_)
    obtain rfl | h := List.mem_cons.mp h
    · exact absurd ⟨rfl, rfl⟩ hne
    · exact h

theorem unspoiled_assign (f : Host → Host) : Unspoiled o (setHost f : Prog χ Unit) :=
  unspoiled_event fun w => ⟨(), w.chip, f w.host, .host (f w.host), rfl, fun _ => rfl⟩

theorem triple_fed {α : Type} {x : Prog χ α}
    (hx : ∀ w, ∃ a w', x w = .ok a w' ∧
      (w'.log = w.log ∨ ∃ e, e.loadFrom = none ∧ w'.log = e :: w.log)) :
    Keeps (FedRun o) (FedRun o) x where
  ok w a w' hw hr := by
    obtain ⟨b, w₁, hr', hlog⟩ := hx w
    cases hr'.symm.trans hr
    obtain hlog | ⟨e, he, hlog⟩ := hlog
    · exact ⟨hlog ▸ hw.fed⟩
    · refine ⟨?_⟩
      rw [hlog, fed_cons he]
      exact hw.fed
  error w e w' _ hr := by
    obtain ⟨b, w₁, hr', -⟩ := hx w
    cases hr'.symm.trans hr

variable [Platform χ]

theorem unspoiled_rd (reg : BYTE) : Unspoiled o (maxRegRd reg : Prog χ BYTE) :=
  unspoiled_event fun w => ⟨(Platform.rd w.chip reg).1, (Platform.rd w.chip reg).2, w.host,
    .rd reg (Platform.rd w.chip reg).1, rfl, fun _ => rfl⟩

theorem unspoiled_declare (o' : Obj) : Unspoiled o (declare o' : Prog χ Unit) := by
  refine .of_ok (fun w hG => ⟨hG.fed⟩) fun w w' hw _ => ?_
  obtain ⟨m, rfl, hm⟩ := hw
  refine ⟨(), _, _, rfl, rfl, _, rfl, fun q hq => ?_⟩
  show (if q.obj = o' then (Platform.stack w.chip).1 else m q.obj) q.off =
    (if q.obj = o' then (Platform.stack w.chip).1 else w.mem q.obj) q.off
  split
  · rfl
  · exact hm q hq

/-- The transfers, the probes and the polls. -/
theorem tasks_unspoiled (o : Obj) : Tasks fun α (x : Prog χ α) => Unspoiled o x where
  toClosed := closed_twoRuns _ _
  hirq := unspoiled_rd _
  hrsl := unspoiled_rd _
  wr reg val := unspoiled_event fun w =>
    ⟨(), Platform.wr w.chip reg val, w.host, .wr reg val, rfl, fun _ => rfl⟩
  nticks := unspoiled_event fun w => ⟨(Platform.nticks w.chip).1, (Platform.nticks w.chip).2,
    w.host, .nticks (Platform.nticks w.chip).1, rfl, fun _ => rfl⟩
  wait := twoRuns_throw _
  dispatch := twoRuns_throw _
  rd := unspoiled_rd
  load := unspoiled_load
  store := unspoiled_store
  getHost := unspoiled_still fun w => ⟨w.host, w.chip, w.host, w.pio, fun _ => rfl⟩
  setEp _ _ _ := unspoiled_assign _
  transfer := twoRuns_throw _
  deref := twoRuns_throw _
  access addr ep :=
    unspoiled_event fun w => ⟨(), w.chip, w.host, .access addr ep, rfl, fun _ => rfl⟩
  assign f _ := unspoiled_assign f
  setState _ _ := unspoiled_assign _
  declare := unspoiled_declare
  getPio := unspoiled_still fun w => ⟨w.pio, w.chip, w.host, w.pio, fun _ => rfl⟩
  setPio f := unspoiled_still fun w => ⟨(), w.chip, w.host, f w.pio, fun _ => rfl⟩
  walk := twoRuns_throw _

/-- A request stores what it receives and loads nothing. -/
theorem requests_fed (o : Obj) (addr ep : BYTE) :
    RequestsAt (χ := χ) (fun _ => Keeps (FedRun o) (FedRun o))
      addr ep where
  toClosed := closed_keeps _ _
  hirq := triple_fed fun _ => ⟨_, _, rfl, .inr ⟨_, rfl, rfl⟩⟩
  hrsl := triple_fed fun _ => ⟨_, _, rfl, .inr ⟨_, rfl, rfl⟩⟩
  wr _ _ := triple_fed fun _ => ⟨_, _, rfl, .inr ⟨_, rfl, rfl⟩⟩
  nticks := triple_fed fun _ => ⟨_, _, rfl, .inr ⟨_, rfl, rfl⟩⟩
  wait := triple_throw fun _ hw => hw
  dispatch := triple_throw fun _ hw => hw
  rd _ := triple_fed fun _ => ⟨_, _, rfl, .inr ⟨_, rfl, rfl⟩⟩
  store _ _ := triple_fed fun _ => ⟨_, _, rfl, .inr ⟨_, rfl, rfl⟩⟩
  getHost := triple_fed fun _ => ⟨_, _, rfl, .inl rfl⟩
  setEp _ _ _ := triple_fed fun _ => ⟨_, _, rfl, .inr ⟨_, rfl, rfl⟩⟩
  transfer := triple_throw fun _ hw => hw
  epinfo := epinfo_mem (closed_keeps (FedRun o) (FedRun o))
    (triple_fed fun _ => ⟨_, _, rfl, .inr ⟨_, rfl, rfl⟩⟩)
    (triple_fed fun _ => ⟨_, _, rfl, .inl rfl⟩) (triple_throw fun _ hw => hw)

end TwoRuns

end TetrisFpga.Usb
