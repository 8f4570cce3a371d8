import TetrisFpga.Usb.Transfer

/-!
# Properties of every moment

`Holds S p` says that `p` is true of the variables now and that `S` was true of them after
every assignment so far. The transfers assign to endpoint records only.
-/

namespace TetrisFpga.Usb
open Program

/-- The variables after an assignment. -/
def Event.snapshot : Event → Option Host
  | .host h => some h
  | _ => none

/-- The variables after each assignment, the newest first. -/
def snapshots (log : List Event) : List Host := log.filterMap Event.snapshot

section Holds

variable {χ : Type} {S p q : Host → Prop}

/-- `S` was true of the variables after every assignment. -/
def Seen (S : Host → Prop) (w : World χ) : Prop := ∀ h ∈ snapshots w.log, S h

def Holds (S p : Host → Prop) (w : World χ) : Prop := p w.host ∧ Seen S w

theorem Holds.mono {w : World χ} (h : Holds S p w) (hpq : ∀ h, p h → q h) : Holds S q w :=
  ⟨hpq w.host h.1, h.2⟩

/-- A property of the variables that were read. -/
theorem Holds.at_read {w : World χ} {h : Host} {F : Prop} (hw : Holds S (fun h' => h' = h ∧ F) w)
    (hp : p h) : Holds S p w :=
  hw.mono fun _ hh => hh.1.symm ▸ hp

/-- A program that assigns to no variable. -/
theorem triple_quiet {α : Type} {x : Prog χ α}
    (hx : ∀ w, ∃ a w', x w = .ok a w' ∧ w'.host = w.host ∧ snapshots w'.log = snapshots w.log) :
    Keeps (Holds S p) (Seen S) x where
  ok w a w' hw hr := by
    obtain ⟨b, w₁, hr', hhost, hlog⟩ := hx w
    cases hr'.symm.trans hr
    rw [Holds, Seen, hhost, hlog]
    exact hw
  error w e w' _ hr := by
    obtain ⟨b, w₁, hr', -⟩ := hx w
    cases hr'.symm.trans hr

theorem triple_setHost {f : Host → Host} (hf : ∀ h, p h → q (f h)) (hS : ∀ h, q h → S h) :
    Triple (Holds S p) (setHost f : Prog χ Unit) (fun _ => Holds S q) (Seen S) where
  ok w a w' hw hr := by
    cases hr
    refine ⟨hf w.host hw.1, fun h hmem => ?_⟩
    rcases List.mem_cons.mp hmem with rfl | hmem
    · exact hS _ (hf w.host hw.1)
    · exact hw.2 h hmem
  error w e w' _ hr := by cases hr

/-- The variables that are read are those of which `p` is true. -/
theorem triple_getHost :
    Triple (Holds S p) (getHost : Prog χ Host) (fun h => Holds S fun h' => h' = h ∧ p h)
      (Seen S) where
  ok w a w' hw hr := by
    cases hr
    exact ⟨⟨rfl, hw.1⟩, hw.2⟩
  error w e w' _ hr := by cases hr

variable [Platform χ]

/-- The dispatches keep `p`. -/
theorem dispatches_hold : Dispatches (χ := χ) fun _ => Keeps (Holds S p) (Seen S) where
  toClosed := closed_keeps _ _
  hirq := triple_quiet fun _ => ⟨_, _, rfl, rfl, rfl⟩
  hrsl := triple_quiet fun _ => ⟨_, _, rfl, rfl, rfl⟩
  wr _ _ := triple_quiet fun _ => ⟨_, _, rfl, rfl, rfl⟩
  nticks := triple_quiet fun _ => ⟨_, _, rfl, rfl, rfl⟩
  wait := triple_throw fun _ h => h.2
  dispatch := triple_throw fun _ h => h.2

omit [Platform χ] in
theorem hold_getHost :
    Keeps (Holds S p) (Seen S) (getHost : Prog χ Host) :=
  triple_getHost.conseq (fun _ h => h) fun _ _ h => h.mono fun _ hh => hh.1 ▸ hh.2

omit [Platform χ] in
theorem hold_epinfo (addr ep : BYTE) :
    Keeps (Holds S p) (Seen S) (epinfo addr ep : Prog χ EpTable) :=
  epinfo_mem (closed_keeps (Holds S p) (Seen S)) (triple_quiet fun _ => ⟨_, _, rfl, rfl, rfl⟩)
    hold_getHost (triple_throw fun _ h => h.2)

/-- The IN transfers keep `p`, if it does not speak of the toggles they save. -/
theorem receives_hold (hp : ∀ h t ep toggle, p h →
      p (h.setEp t ep fun r => { r with rcvToggle := toggle })) (hS : ∀ h, p h → S h)
    (addr ep : BYTE) :
    Receives (χ := χ) (fun _ => Keeps (Holds S p) (Seen S))
      addr ep where
  toLaunches := dispatches_hold.launches tokIN ep
  rd _ := triple_quiet fun _ => ⟨_, _, rfl, rfl, rfl⟩
  store _ _ := triple_quiet fun _ => ⟨_, _, rfl, rfl, rfl⟩
  wrHctl _ := triple_quiet fun _ => ⟨_, _, rfl, rfl, rfl⟩
  epRecord := triple_bind (hold_epinfo addr ep) fun _ => triple_bind hold_getHost fun _ =>
    triple_pure fun _ h => h
  saveToggle toggle := triple_bind (hold_epinfo addr ep) fun t =>
    triple_setHost (fun h => hp h t ep toggle) hS
  transfer := triple_throw fun _ h => h.2

/-- The programs that keep `p` have the transfers, if `p` does not speak of endpoint
records. -/
theorem transfers_hold (hp : ∀ h t ep f, p h → p (h.setEp t ep f)) (hS : ∀ h, p h → S h) :
    Transfers (χ := χ) fun _ => Keeps (Holds S p) (Seen S) where
  toDispatches := dispatches_hold
  rd _ := triple_quiet fun _ => ⟨_, _, rfl, rfl, rfl⟩
  load _ := triple_quiet fun _ => ⟨_, _, rfl, rfl, rfl⟩
  store _ _ := triple_quiet fun _ => ⟨_, _, rfl, rfl, rfl⟩
  getHost := hold_getHost
  setEp t ep f := triple_setHost (fun h => hp h t ep f) hS
  transfer := triple_throw fun _ h => h.2
  deref := triple_throw fun _ h => h.2
  access _ _ := triple_quiet fun _ => ⟨_, _, rfl, rfl, rfl⟩

end Holds

end TetrisFpga.Usb
