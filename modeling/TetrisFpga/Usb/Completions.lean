import Mathlib.Logic.Function.Iterate
import TetrisFpga.Usb.Detection

/-!
# Transfers and their results

A model of the transfers of the MAX3421E: a write to `HXFR` launches one, the chip works on it for
some time, and then sets `HXFRDNIRQ` and puts the result into `HRSL`. `XferDispatchPkt` clears the
bit where it sees it and not before it launches a packet, so a transfer that is finished after a
timeout is taken for the next one.
-/

namespace TetrisFpga.Usb
open Program

/-! ## The chip -/

/-- How long each transfer takes and what comes of it, in the order in which they are launched; and
for each access the time before it, the reading of the clock, and the other bits of a register. -/
structure Course where
  delay : ℕ → ℕ
  result : ℕ → BYTE
  pause : ℕ → ℕ
  clock : ℕ → DWORD
  shown : ℕ → BYTE

/-- A transfer under way and the time that is left for it. -/
structure Launched where
  number : ℕ
  left : ℕ
  deriving DecidableEq

/-- The chip: the transfers that were launched, `HXFRDNIRQ` and the result in `HRSL`. -/
structure Engine (c : Course) where
  launched : ℕ := 0
  underWay : List Launched := []
  hxfrdn : Bool := false
  hrsl : BYTE := 0
  accesses : ℕ := 0

namespace Engine

variable {c : Course}

/-- A transfer is finished. -/
def finish (e : Engine c) (t : Launched) : Engine c :=
  { e with hxfrdn := true, hrsl := c.result t.number }

/-- Time goes on: the transfers without time left are finished in the order of their launch. -/
def tick (e : Engine c) : Engine c :=
  (e.underWay.filter (·.left = 0)).foldl finish
    { e with underWay := (e.underWay.filter (·.left ≠ 0)).map fun t => ⟨t.number, t.left - 1⟩ }

/-- The time before the next access has passed. -/
def access (e : Engine c) : Engine c :=
  { tick^[c.pause e.accesses] e with accesses := e.accesses + 1 }

def launch (e : Engine c) : Engine c :=
  { e with
    launched := e.launched + 1
    underWay := e.underWay ++ [⟨e.launched, c.delay e.launched⟩] }

/-- The value of a register, of which the transfers show some bits. -/
def value (e : Engine c) (reg shown : BYTE) : BYTE :=
  if reg = rHIRQ then shown &&& ~~~bmHXFRDNIRQ ||| if e.hxfrdn then bmHXFRDNIRQ else 0
  else if reg = rHRSL then shown &&& ~~~0x0f ||| e.hrsl &&& 0x0f
  else shown

/-- `HXFR` launches a transfer, and `HXFRDNIRQ` is cleared where 1 is written to it. -/
def write (e : Engine c) (reg val : BYTE) : Engine c :=
  if reg = rHXFR then e.launch
  else if reg = rHIRQ ∧ val &&& bmHXFRDNIRQ ≠ 0 then { e with hxfrdn := false }
  else e

instance : Platform (Engine c) where
  rd e reg := (e.access.value reg (c.shown e.accesses), e.access)
  wr e reg val := e.access.write reg val
  irq e := (c.shown e.accesses, e.access)
  gpx e := (c.shown e.accesses, e.access)
  nticks e := (c.clock e.accesses, e.access)
  stack e := (fun _ => c.shown e.accesses, e.access)

/-! ## What is under way -/

/-- Nothing is under way and no result waits to be seen. -/
structure Idle (e : Engine c) : Prop where
  underWay : e.underWay = []
  hxfrdn : e.hxfrdn = false

instance : DecidablePred (Idle (c := c)) := fun e =>
  decidable_of_iff (e.underWay = [] ∧ e.hxfrdn = false) ⟨fun h => ⟨h.1, h.2⟩, fun h => ⟨h.1, h.2⟩⟩

/-- The last transfer is the only one under way. -/
structure Works (e : Engine c) (i : ℕ) : Prop where
  launched : e.launched = i + 1
  underWay : ∃ left, e.underWay = [⟨i, left⟩]
  hxfrdn : e.hxfrdn = false

/-- The last transfer is finished, and no other is under way. -/
structure Finished (e : Engine c) (i : ℕ) : Prop where
  launched : e.launched = i + 1
  underWay : e.underWay = []
  hrsl : e.hrsl = c.result i

/-- The last transfer is the only one that is under way or that waits to be seen. -/
def Answers (i : ℕ) (e : Engine c) : Prop := e.Works i ∨ e.Finished i ∧ e.hxfrdn = true

/-- The last transfer is finished and was seen. -/
def Seen (i : ℕ) (e : Engine c) : Prop := e.Finished i ∧ e.hxfrdn = false

theorem tick_eq_self {e : Engine c} (h : e.underWay = []) : e.tick = e := by
  unfold tick
  rw [h]
  cases e
  cases h
  rfl

/-- Time does not change a chip with nothing under way. -/
theorem access_eq {e : Engine c} (h : e.underWay = []) :
    e.access = { e with accesses := e.accesses + 1 } := by
  rw [access, Function.iterate_fixed (tick_eq_self h)]

theorem Idle.access {e : Engine c} (h : e.Idle) : e.access.Idle := by
  rw [access_eq h.underWay]
  exact ⟨h.underWay, h.hxfrdn⟩

theorem Seen.access {e : Engine c} {i : ℕ} (h : e.Seen i) : e.access.Seen i := by
  rw [Seen, access_eq h.1.underWay]
  exact ⟨⟨h.1.launched, h.1.underWay, h.1.hrsl⟩, h.2⟩

theorem Answers.tick {e : Engine c} {i : ℕ} (h : e.Answers i) : e.tick.Answers i := by
  obtain hw | hf := h
  · obtain ⟨left, hleft⟩ := hw.underWay
    cases left with
    | zero =>
      have htick : e.tick = { e with underWay := [], hxfrdn := true, hrsl := c.result i } := by
        rw [Engine.tick, hleft]
        rfl
      rw [htick]
      exact .inr ⟨⟨hw.launched, rfl, rfl⟩, rfl⟩
    | succ left =>
      have htick : e.tick = { e with underWay := [⟨i, left⟩] } := by
        rw [Engine.tick, hleft]
        rfl
      rw [htick]
      exact .inl ⟨hw.launched, ⟨left, rfl⟩, hw.hxfrdn⟩
  · rw [tick_eq_self hf.1.underWay]
    exact .inr hf

theorem Answers.access {e : Engine c} {i : ℕ} (h : e.Answers i) : e.access.Answers i := by
  have hticks : ∀ n, (Engine.tick^[n] e).Answers i := by
    intro n
    induction n with
    | zero => exact h
    | succ n ih =>
      rw [Function.iterate_succ_apply']
      exact ih.tick
  exact (hticks (c.pause e.accesses)).imp (fun hw => ⟨hw.1, hw.2, hw.3⟩)
    fun hf => ⟨⟨hf.1.1, hf.1.2, hf.1.3⟩, hf.2⟩

/-- A transfer is launched while nothing is under way. -/
theorem Idle.launch {e : Engine c} (h : e.Idle) : e.launch.Answers e.launched := by
  refine .inl ⟨rfl, ⟨c.delay e.launched, ?_⟩, h.hxfrdn⟩
  rw [Engine.launch, h.underWay]
  rfl

theorem value_hirq (e : Engine c) (shown : BYTE) :
    e.value rHIRQ shown &&& bmHXFRDNIRQ ≠ 0 ↔ e.hxfrdn = true := by
  have hbits : (if e.hxfrdn then bmHXFRDNIRQ else 0) &&& bmHXFRDNIRQ =
      if e.hxfrdn then bmHXFRDNIRQ else 0 := by
    cases e.hxfrdn <;> decide
  rw [value, if_pos rfl, shown_bits shown hbits]
  cases e.hxfrdn <;> decide

theorem value_hrsl (e : Engine c) (shown : BYTE) :
    e.value rHRSL shown &&& 0x0f = e.hrsl &&& 0x0f := by
  rw [value, if_neg (by decide), if_pos rfl]
  exact shown_bits shown (by rw [BitVec.and_assoc, BitVec.and_self])

end Engine

/-! ## One call -/

section Call

variable {c : Course} {p q : Engine c → Prop} {i n : ℕ}

/-- `p` holds of the chip. -/
def AtChip (p : Engine c → Prop) (w : World (Engine c)) : Prop := p w.chip

/-- A chip that keeps `p` between two accesses keeps it at one that changes nothing. -/
theorem keeps_altMs (hp : ∀ e, p e → p e.access) :
    Keeps (AtChip p) (fun _ => True) (altMs : Prog (Engine c) DWORD) := by
  refine triple_bind (Q := fun _ => AtChip p) ⟨fun w _ w' hw hr => ?_, fun _ _ _ _ _ => trivial⟩
    fun _ => triple_pure fun _ h => h
  cases hr
  exact hp w.chip hw

theorem triple_rd {reg : BYTE} {Q : BYTE → Engine c → Prop}
    (hp : ∀ e shown, p e → Q (e.access.value reg shown) e.access) :
    Triple (AtChip p) (maxRegRd reg : Prog (Engine c) BYTE) (fun v => AtChip (Q v))
      fun _ => True := by
  refine ⟨fun w _ w' hw hr => ?_, fun _ _ _ _ _ => trivial⟩
  cases hr
  exact hp w.chip _ hw

theorem triple_wr {reg val : BYTE} (hp : ∀ e, p e → q (e.access.write reg val)) :
    Triple (AtChip p) (maxRegWr reg val : Prog (Engine c) Unit) (fun _ => AtChip q)
      fun _ => True := by
  refine ⟨fun w _ w' hw hr => ?_, fun _ _ _ _ _ => trivial⟩
  cases hr
  exact hp w.chip hw

/-- What a wait for the transfer `i` ends with. -/
def AfterWait (i : ℕ) (rcode : BYTE) (e : Engine c) : Prop :=
  rcode = 0x00 ∧ e.Seen i ∨ rcode = 0xff ∧ e.launched = i + 1

theorem Engine.Answers.launched {e : Engine c} (h : e.Answers i) : e.launched = i + 1 :=
  h.elim (·.launched) (·.1.launched)

/-- `HXFRDNIRQ` says that the transfer is finished. -/
theorem Engine.Answers.finished {e : Engine c} (h : e.Answers i) (hdone : e.hxfrdn = true) :
    e.Finished i := by
  obtain hw | hf := h
  · exact absurd (hw.hxfrdn.symm.trans hdone) (by decide)
  · exact hf.1

/-- A wait with one transfer under way sees that one or none. -/
theorem triple_waitDone (m : ℕ) (timeout : DWORD) :
    Triple (AtChip (Engine.Answers i)) (waitDone m timeout : Prog (Engine c) BYTE)
      (fun rcode => AtChip (AfterWait i rcode)) fun _ => True := by
  refine triple_whileLoop (I := fun _ => AtChip (Engine.Answers i)) (fun _ => ?_) (fun _ => ?_)
    (fun _ => triple_pure fun w hw => .inr ⟨rfl, hw.launched⟩) (fun _ _ _ => trivial) m ()
  · exact triple_bind (keeps_altMs fun _ h => h.access) fun _ => triple_pure fun _ h => h
  · refine triple_bind (triple_rd (Q := fun v e =>
      e.Answers i ∧ (v &&& bmHXFRDNIRQ ≠ 0 ↔ e.hxfrdn = true)) fun e shown he =>
        ⟨he.access, e.access.value_hirq shown⟩) fun tmpdata => ?_
    refine triple_ite (fun hdone => ?_) fun _ => triple_pure fun w hw => hw.1
    refine triple_bind (triple_wr (q := Engine.Seen i) fun e he => ?_) fun _ =>
      triple_pure fun w hw => .inl ⟨rfl, hw⟩
    have hf : e.Finished i := he.1.finished (he.2.mp hdone)
    have heq : e.access.write rHIRQ bmHXFRDNIRQ =
        { e with hxfrdn := false, accesses := e.accesses + 1 } := by
      rw [Engine.access_eq hf.underWay]
      rfl
    rw [heq]
    exact ⟨⟨hf.launched, hf.underWay, hf.hrsl⟩, rfl⟩

/-- The call has launched a transfer, and what it returns is a timeout or the result of the last
transfer that it launched. -/
def Own (n : ℕ) (rcode : BYTE) (e : Engine c) : Prop :=
  n < e.launched ∧ (rcode ≠ 0xff → rcode = c.result (e.launched - 1) &&& 0x0f)

/-- After a result nothing is left behind. -/
def LeavesIdle (n : ℕ) (rcode : BYTE) (e : Engine c) : Prop :=
  Own n rcode e ∧ (rcode ≠ 0xff → e.Idle)

theorem Engine.Seen.leavesIdle {e : Engine c} {rcode : BYTE} (h : e.Seen i) (hn : n ≤ i)
    (hrcode : rcode = c.result i &&& 0x0f) : LeavesIdle n rcode e := by
  have hlaunched : e.launched - 1 = i := by
    rw [h.1.launched]
    rfl
  refine ⟨⟨?_, fun _ => ?_⟩, fun _ => ⟨h.1.underWay, h.2⟩⟩
  · rw [h.1.launched]
    exact Nat.lt_succ_of_le hn
  · rwa [hlaunched]

/-- A round from an idle chip launches one transfer and sees that one or none. -/
theorem triple_dispatchRound (fuel : Fuel) (timeout : DWORD) (token ep : BYTE)
    (counts : BYTE × BYTE) :
    Triple (AtChip fun e : Engine c => e.Idle ∧ n ≤ e.launched)
      (dispatchRound fuel timeout token ep counts)
      (Sum.rec (fun _ => AtChip fun e => e.Idle ∧ n ≤ e.launched) fun rcode =>
        AtChip (LeavesIdle n rcode)) fun _ => True := by
  refine triple_of_forall fun w₀ hw₀ => ?_
  have hn : n ≤ w₀.chip.launched := hw₀.2
  refine triple_bind (Q := fun _ => AtChip (Engine.Answers w₀.chip.launched))
    ⟨fun w _ w' hw hr => ?_, fun _ _ _ _ _ => trivial⟩ fun _ => ?_
  · cases hr
    cases hw
    have hlaunch : w₀.chip.access.launched = w₀.chip.launched := by
      rw [Engine.access_eq hw₀.1.underWay]
    exact hlaunch ▸ hw₀.1.access.launch
  -- the wait sees this completion, or the deadline passes and the chip is left busy
  refine triple_bind (triple_waitDone fuel.wait timeout) fun rcode => triple_ite (fun hne => ?_)
    fun heq => ?_
  · refine triple_pure fun w hw => ?_
    obtain ⟨rfl, -⟩ | ⟨rfl, hlaunched⟩ := hw
    · exact absurd rfl hne
    · refine ⟨⟨?_, fun h => absurd rfl h⟩, fun h => absurd rfl h⟩
      rw [hlaunched]
      exact Nat.lt_succ_of_le hn
  · obtain rfl : rcode = 0x00 := Decidable.not_not.mp heq
    refine triple_bind (triple_rd (p := AfterWait w₀.chip.launched 0x00) (Q := fun v e =>
      e.Seen w₀.chip.launched ∧ v &&& 0x0f = c.result w₀.chip.launched &&& 0x0f)
      fun e shown he => ?_) fun hrsl => ?_
    · obtain ⟨-, hseen⟩ | ⟨hfalse, -⟩ := he
      · exact ⟨hseen.access, by rw [Engine.value_hrsl, hseen.access.1.hrsl]⟩
      · exact absurd hfalse (by decide)
    -- the loop ends with the result, or it goes on from an idle chip
    have hended : Triple (AtChip fun e => e.Seen w₀.chip.launched ∧
        hrsl &&& 0x0f = c.result w₀.chip.launched &&& 0x0f)
        (pure (.inr (hrsl &&& 0x0f)) : Prog (Engine c) ((BYTE × BYTE) ⊕ BYTE))
        (Sum.rec (fun _ => AtChip fun e => e.Idle ∧ n ≤ e.launched) fun rcode =>
          AtChip (LeavesIdle n rcode)) fun _ => True :=
      triple_pure fun w hw => hw.1.leavesIdle hn hw.2
    have hagain (counts' : BYTE × BYTE) : Triple (AtChip fun e => e.Seen w₀.chip.launched ∧
        hrsl &&& 0x0f = c.result w₀.chip.launched &&& 0x0f)
        (pure (.inl counts') : Prog (Engine c) ((BYTE × BYTE) ⊕ BYTE))
        (Sum.rec (fun _ => AtChip fun e => e.Idle ∧ n ≤ e.launched) fun rcode =>
          AtChip (LeavesIdle n rcode)) fun _ => True :=
      triple_pure fun w hw => ⟨⟨hw.1.1.underWay, hw.1.2⟩, hw.1.1.launched ▸ Nat.le_succ_of_le hn⟩
    refine triple_ite (fun _ => triple_ite (fun _ => hended) fun _ => hagain _) fun _ => ?_
    exact triple_ite (fun _ => triple_ite (fun _ => hended) fun _ => hagain _) fun _ => hended

/-- A call that finds the chip idle returns its own result. -/
theorem triple_xferDispatchPkt (fuel : Fuel) (token ep : BYTE) :
    Triple (AtChip fun e : Engine c => e.Idle ∧ n ≤ e.launched) (xferDispatchPkt fuel token ep)
      (fun rcode => AtChip (LeavesIdle n rcode)) fun _ => True := by
  refine triple_bind (keeps_altMs fun e he => ⟨he.1.access, ?_⟩) fun now =>
    triple_forever (fun counts => triple_dispatchRound fuel _ token ep counts)
      (fun _ _ _ => trivial) fuel.dispatch (0, 0)
  rw [Engine.access_eq he.1.underWay]
  exact he.2

/-! ## Runs of calls -/

/-- What the calls return, with the number of transfers launched before each and the chip after. -/
def outcomes (fuel : Fuel) : List (BYTE × BYTE) → World (Engine c) → List (ℕ × BYTE × Engine c)
  | [], _ => []
  | (token, ep) :: calls, w =>
    match xferDispatchPkt fuel token ep w with
    | .ok rcode w' => (w.chip.launched, rcode, w'.chip) :: outcomes fuel calls w'
    | .error _ _ => []

/-- Every call finds the chip idle. -/
def IdleRun (fuel : Fuel) : List (BYTE × BYTE) → World (Engine c) → Prop
  | [], _ => True
  | (token, ep) :: calls, w => w.chip.Idle ∧
    match xferDispatchPkt fuel token ep w with
    | .ok _ w' => IdleRun fuel calls w'
    | .error _ _ => True

instance (n : ℕ) (rcode : BYTE) (e : Engine c) : Decidable (Own n rcode e) :=
  inferInstanceAs (Decidable (_ ∧ _))

instance IdleRun.decidable (fuel : Fuel) :
    ∀ (calls : List (BYTE × BYTE)) (w : World (Engine c)), Decidable (IdleRun fuel calls w)
  | [], _ => .isTrue trivial
  | (token, ep) :: calls, w =>
    match h : xferDispatchPkt fuel token ep w with
    | .ok _ w' =>
      haveI := IdleRun.decidable fuel calls w'
      decidable_of_iff (w.chip.Idle ∧ IdleRun fuel calls w') (by simp only [IdleRun, h])
    | .error _ _ => decidable_of_iff w.chip.Idle (by simp only [IdleRun, h, and_true])

/-- In a run of calls that all find the chip idle, each returns a timeout or its own result. -/
theorem own_of_idleRun (fuel : Fuel) (calls : List (BYTE × BYTE)) {w : World (Engine c)}
    (hidle : IdleRun fuel calls w) :
    ∀ o ∈ outcomes fuel calls w, Own o.1 o.2.1 o.2.2 := by
  induction calls generalizing w with
  | nil => nofun
  | cons call rest ih =>
    obtain ⟨token, ep⟩ := call
    rw [IdleRun] at hidle
    rw [outcomes]
    cases hr : xferDispatchPkt fuel token ep w with
    | ok rcode w' =>
      rw [hr] at hidle
      have hcall := (triple_xferDispatchPkt (n := w.chip.launched) fuel token ep).ok w rcode w'
        ⟨hidle.1, Nat.le_refl _⟩ hr
      exact List.forall_mem_cons.mpr ⟨hcall.1, ih hidle.2⟩
    | error e w' => nofun

/-- Only a timeout leaves a transfer behind: as long as there is none, every call finds the chip
idle. -/
theorem idleRun_of_answered {fuel : Fuel} {calls : List (BYTE × BYTE)} {w : World (Engine c)}
    (hw : w.chip.Idle) (hanswered : ∀ o ∈ outcomes fuel calls w, o.2.1 ≠ 0xff) :
    IdleRun fuel calls w := by
  induction calls generalizing w with
  | nil => trivial
  | cons call calls ih =>
    obtain ⟨token, ep⟩ := call
    rw [outcomes] at hanswered
    rw [IdleRun]
    refine ⟨hw, ?_⟩
    cases hr : xferDispatchPkt fuel token ep w with
    | ok rcode w' =>
      rw [hr] at hanswered
      have hrest := List.forall_mem_cons.mp hanswered
      have hcall := (triple_xferDispatchPkt (n := w.chip.launched) fuel token ep).ok w rcode w'
        ⟨hw, Nat.le_refl _⟩ hr
      exact ih (hcall.2 hrest.1) hrest.2
    | error e w' => trivial

end Call

/-! ## A late result -/

/-- The chip as it is after a reset. -/
def freshChip (c : Course) : World (Engine c) where
  chip := {}
  mem := fun _ _ => 0

/-- Two transfers that are finished at once: a packet, and then a stall. -/
def promptCourse : Course where
  delay _ := 0
  result i := if i = 0 then 0x00 else 0x05
  pause _ := 1
  clock _ := 0
  shown _ := 0

theorem own_of_idleRun_prompt :
    (outcomes ⟨9, 9, 9, 9, 9⟩ [(tokIN, 1), (tokIN, 1)] (freshChip promptCourse)).all
      (fun o => Own o.1 o.2.1 o.2.2) = true :=
  List.all_eq_true.mpr fun o ho => decide_eq_true
    (own_of_idleRun ⟨9, 9, 9, 9, 9⟩ [(tokIN, 1), (tokIN, 1)] (by decide +kernel) o ho)

/-- The first transfer takes more than the 5 seconds of the first call and is finished while the
second call waits for a transfer that stalls. -/
def lateCourse : Course where
  delay i := if i = 0 then 7 else 100
  result i := if i = 0 then 0x00 else 0x05
  pause k := if k = 2 then 6 else if k = 6 then 2 else 0
  clock k := if k < 2 then 0 else 6000
  shown _ := 0

theorem late_not_own :
    ¬∀ o ∈ outcomes ⟨9, 9, 9, 9, 9⟩ [(tokIN, 1), (tokIN, 1)] (freshChip lateCourse),
      Own o.1 o.2.1 o.2.2 := by
  decide +kernel

/-- The second call reports success. -/
example : (outcomes ⟨9, 9, 9, 9, 9⟩ [(tokIN, 1), (tokIN, 1)] (freshChip lateCourse)).map
    (·.2.1) = [0xff, 0x00] := by
  decide +kernel

end TetrisFpga.Usb
