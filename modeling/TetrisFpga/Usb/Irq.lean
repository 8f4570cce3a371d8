import Mathlib.Tactic.SplitIfs
import TetrisFpga.Usb.Invariant
import TetrisFpga.Usb.Max3421e

/-!
# What an interrupt does to the task state

`MAX_busprobe` and `MaxIntHandler` change one variable, the task state, and the values of
`HIRQ` and `HRSL` say how. `probedState` and `handledState` are these functions.
-/

namespace TetrisFpga.Usb
open Program

/-- The task state after `MAX_busprobe` has sampled the bus. -/
def probedState (sample s : BYTE) : BYTE :=
  if sample = bmJSTATUS ∨ sample = bmKSTATUS then
    if s ≠ usbAttachedSubstateWaitResetComplete then usbStateAttached else s
  else if sample = bmSE1 then usbDetachedSubstateIllegal
  else if s &&& usbStateMask ≠ usbStateDetached then usbDetachedSubstateInitialize
  else usbDetachedSubstateWaitForDevice

/-- The task state after the connection interrupt of `MaxIntHandler`. -/
def condetState (hirq sample s : BYTE) : BYTE :=
  if hirq &&& bmCONDETIRQ ≠ 0 then probedState sample s else s

/-- The task state after `MaxIntHandler`. -/
def handledState (hirq sample s : BYTE) : BYTE :=
  if hirq &&& bmBUSEVENTIRQ ≠ 0 then condetState hirq sample s + 1 else condetState hirq sample s

/-- The states `MAX_busprobe` assigns. -/
def probeStates : List BYTE :=
  [usbStateAttached, usbDetachedSubstateIllegal, usbDetachedSubstateInitialize,
    usbDetachedSubstateWaitForDevice]

theorem condetState_cases (hirq sample s : BYTE) :
    condetState hirq sample s = s ∨ condetState hirq sample s ∈ probeStates := by
  unfold condetState probedState
  split_ifs <;> simp [probeStates]

theorem handledState_cases (hirq sample s : BYTE) :
    handledState hirq sample s = condetState hirq sample s ∨
      handledState hirq sample s = condetState hirq sample s + 1 := by
  unfold handledState
  split_ifs <;> simp

/-- The variables with another task state. -/
def Host.setState (h : Host) (s : BYTE) : Host := { h with usbTaskState := s }

@[simp] theorem Host.setState_usbTaskState (h : Host) (s : BYTE) :
    (h.setState s).usbTaskState = s := rfl

@[simp] theorem Host.setState_self (h : Host) : h.setState h.usbTaskState = h := rfl

section Irq

variable {χ : Type} [Platform χ] {S p q : Host → Prop}

/-- The sample `MAX_busprobe` takes. -/
def sampleOf (c : χ) : BYTE := busSample (Platform.rd c rHRSL).1

/-- What `MaxIntHandler` reads: `HIRQ`, and the bus behind it. -/
def handlerReads (c : χ) : BYTE × BYTE :=
  let r := Platform.rd c rHIRQ
  (r.1, sampleOf r.2)

/-- What the interrupt handler reads in a call of `MAX3421E_Task`, if the pin calls it. -/
def irqReads (c : χ) : Option (BYTE × BYTE) :=
  let r := Platform.irq c
  if r.1 = 0 then some (handlerReads r.2) else none

/-- The device is attached, unless the task waits for its own bus reset. -/
theorem triple_startHost (mode lowSpeedMode : BYTE)
    (hq : ∀ h, p h → q (h.setState (if h.usbTaskState ≠ usbAttachedSubstateWaitResetComplete then
      usbStateAttached else h.usbTaskState))) (hS : ∀ h, q h → S h) :
    Triple (Holds S p) (startHost mode lowSpeedMode : Prog χ Unit) (fun _ => Holds S q)
      (Seen S) := by
  refine triple_bind triple_getHost fun h => triple_ite (fun hs => ?_) fun hs =>
    triple_pure fun w hw => ?_
  · refine triple_bind (triple_quiet fun _ => ⟨_, _, rfl, rfl, rfl⟩) fun _ => ?_
    refine triple_bind (triple_quiet fun _ => ⟨_, _, rfl, rfl, rfl⟩) fun _ => ?_
    refine triple_setHost (fun h' hh => ?_) hS
    have := hq h hh.2
    rw [if_pos hs] at this
    exact hh.1 ▸ this
  · have hnew := hq h hw.1.2
    rw [if_neg hs] at hnew
    exact ⟨hw.1.1.symm ▸ hnew, hw.2⟩

/-- `MAX_busprobe` with a sample of which `ok` is known. -/
theorem triple_maxBusprobe (ok : BYTE → Prop)
    (hq : ∀ h sample, p h → ok sample → q (h.setState (probedState sample h.usbTaskState)))
    (hS : ∀ h, q h → S h) :
    Triple (fun w => Holds S p w ∧ ok (sampleOf w.chip)) (maxBusprobe : Prog χ Unit)
      (fun _ => Holds S q) (Seen S) := by
  refine triple_bind (Q := fun hrsl w => Holds S p w ∧ ok (busSample hrsl)) ⟨?_, ?_⟩ fun hrsl => ?_
  · intro w hrsl w' hw hr
    cases hr
    exact ⟨hw.1, hw.2⟩
  · intro w e w' _ hr
    cases hr
  refine triple_of_fact fun hok => triple_ite (fun hJ => ?_) fun hJ =>
    triple_ite (fun hK => ?_) fun hK => triple_ite (fun h1 => ?_) fun h1 => ?_
  · refine triple_startHost _ _ (fun h hp => ?_) hS
    simpa [probedState, hJ] using hq h _ hp hok
  · refine triple_startHost _ _ (fun h hp => ?_) hS
    simpa [probedState, hK] using hq h _ hp hok
  · refine triple_setHost (fun h hp => ?_) hS
    have hnew := hq h _ hp hok
    rwa [probedState, if_neg (not_or.mpr ⟨hJ, hK⟩), if_pos h1] at hnew
  · refine triple_bind triple_getHost fun h => triple_ite (fun hs => ?_) fun hs => ?_
    · refine triple_setHost (fun h' hh => ?_) hS
      have hnew := hq h _ hh.2 hok
      rw [probedState, if_neg (not_or.mpr ⟨hJ, hK⟩), if_neg h1, if_pos hs] at hnew
      exact hh.1 ▸ hnew
    · refine triple_bind (triple_quiet fun _ => ⟨_, _, rfl, rfl, rfl⟩) fun _ => ?_
      refine triple_setHost (fun h' hh => ?_) hS
      have hnew := hq h _ hh.2 hok
      rw [probedState, if_neg (not_or.mpr ⟨hJ, hK⟩), if_neg h1, if_neg hs] at hnew
      exact hh.1 ▸ hnew

/-- `MAX3421E_init`, which assigns to a variable in its bus probe only. -/
theorem triple_max3421eInit
    (hq : ∀ h sample, p h → q (h.setState (probedState sample h.usbTaskState)))
    (hS : ∀ h, q h → S h) (fuel : Fuel) :
    Triple (Holds S p) (max3421eInit fuel : Prog χ Unit) (fun _ => Holds S q) (Seen S) := by
  have hC : Dispatches (χ := χ) fun _ => Keeps (Holds S p) (Seen S) := dispatches_hold
  have hrst (v : BYTE) : Keeps (Holds S p) (Seen S) (usbRst v : Prog χ Unit) :=
    triple_quiet fun _ => ⟨_, _, rfl, rfl, rfl⟩
  have hreset : Keeps (Holds S p) (Seen S) (max3421eReset fuel : Prog χ Unit) := by
    refine hC.bind (hrst 0) fun _ => hC.bind (hrst 1) fun _ => hC.bind (hC.wr _ _) fun _ =>
      hC.bind (hC.wr _ _) fun _ => hC.whileLoop (triple_throw fun _ hw => hw.2) (fun _ => ?_)
        (fun _ => hC.pure _) (fun _ => hC.pure _) _ _
    exact hC.bind (triple_quiet fun _ => ⟨_, _, rfl, rfl, rfl⟩) fun _ => hC.pure _
  have hprobe : Triple (Holds S p) (maxBusprobe : Prog χ Unit) (fun _ => Holds S q) (Seen S) :=
    (triple_maxBusprobe (fun _ => True) (fun h sample hp _ => hq h sample hp) hS).conseq
      (fun _ hw => ⟨hw, trivial⟩) fun _ _ hw => hw
  refine triple_bind (hC.wr _ _) fun _ => triple_bind hreset fun _ =>
    triple_bind (hC.wr _ _) fun _ => triple_bind (hC.wr _ _) fun _ =>
    triple_bind (hC.wr _ _) fun _ => triple_bind (hC.wr _ _) fun _ =>
    triple_bind hprobe fun _ => ?_
  exact triple_bind (triple_quiet fun _ => ⟨_, _, rfl, rfl, rfl⟩) fun _ =>
    triple_quiet fun _ => ⟨_, _, rfl, rfl, rfl⟩

/-- `MaxIntHandler` with readings of which `ok` is known: `S` must also hold between its two
assignments. -/
theorem triple_maxIntHandler {ok : BYTE → BYTE → Prop}
    (hmid : ∀ h hirq sample, p h → ok hirq sample →
      S (h.setState (condetState hirq sample h.usbTaskState)))
    (hq : ∀ h hirq sample, p h → ok hirq sample →
      q (h.setState (handledState hirq sample h.usbTaskState))) (hS : ∀ h, q h → S h) :
    Triple (fun w => Holds S p w ∧ ok (handlerReads w.chip).1 (handlerReads w.chip).2)
      (maxIntHandler : Prog χ Unit) (fun _ => Holds S q) (Seen S) := by
  refine triple_bind (Q := fun hirq w => Holds S p w ∧ ok hirq (sampleOf w.chip)) ⟨?_, ?_⟩
    fun hirq => ?_
  · intro w hirq w' hw hr
    cases hr
    exact ⟨hw.1, hw.2⟩
  · intro w e w' _ hr
    cases hr
  -- what holds between the two: the bus has been probed, and the increment is still to come
  let mid : Host → Prop := fun h' => ∃ h sample, p h ∧ ok hirq sample ∧
    h' = h.setState (condetState hirq sample h.usbTaskState)
  have hmidS (h' : Host) (h : mid h') : S h' := by
    obtain ⟨h, sample, hp, hok, rfl⟩ := h
    exact hmid h hirq sample hp hok
  refine triple_bind (Q := fun _ => Holds S mid) (triple_when (fun hc => ?_) fun hc w hw => ?_)
    fun _ => ?_
  · refine triple_maxBusprobe _ (fun h sample hp hok => ⟨h, sample, hp, hok, ?_⟩) hmidS
    rw [condetState, if_pos hc]
  · refine ⟨⟨w.host, _, hw.1.1, hw.2, ?_⟩, hw.1.2⟩
    rw [condetState, if_neg hc, Host.setState_self]
  refine triple_bind (triple_when (Q := fun _ => Holds S mid)
    (fun _ => triple_quiet fun _ => ⟨_, _, rfl, rfl, rfl⟩) fun _ _ hw => hw) fun _ => ?_
  refine triple_bind (triple_when (Q := fun _ => Holds S q)
    (fun hb => triple_setHost (fun h' hh => ?_) hS) fun hb w hw => ⟨?_, hw.2⟩)
    fun _ => triple_quiet fun _ => ⟨_, _, rfl, rfl, rfl⟩
  · obtain ⟨h, sample, hp, hok, rfl⟩ := hh
    have hnew := hq h hirq sample hp hok
    rw [handledState, if_pos hb] at hnew
    exact hnew
  · obtain ⟨h, sample, hp, hok, hh⟩ := hw.1
    have hnew := hq h hirq sample hp hok
    rw [handledState, if_neg hb] at hnew
    exact hh ▸ hnew

/-- `MAX3421E_Task` with readings of which `ok` is known, if there is an interrupt. -/
theorem triple_max3421eTask (ok : BYTE → BYTE → Prop)
    (hmid : ∀ h hirq sample, p h → ok hirq sample →
      S (h.setState (condetState hirq sample h.usbTaskState)))
    (hq : ∀ h hirq sample, p h → ok hirq sample →
      q (h.setState (handledState hirq sample h.usbTaskState)))
    (hidle : ∀ h, p h → q h) (hS : ∀ h, q h → S h) :
    Triple (fun w => Holds S p w ∧ ∀ r ∈ irqReads w.chip, ok r.1 r.2)
      (max3421eTask : Prog χ Unit) (fun _ => Holds S q) (Seen S) := by
  refine triple_bind (Q := fun irq w => Holds S p w ∧
    (irq = 0 → ok (handlerReads w.chip).1 (handlerReads w.chip).2)) ⟨?_, ?_⟩ fun irq => ?_
  · intro w irq w' hw hr
    cases hr
    refine ⟨hw.1, fun h0 => hw.2 _ ?_⟩
    rw [irqReads, if_pos h0]
    rfl
  · intro w e w' _ hr
    cases hr
  refine triple_bind (Q := fun _ => Holds S q) (triple_when (fun h0 => ?_)
    fun h0 w hw => hw.1.mono hidle) fun _ => ?_
  · exact (triple_maxIntHandler hmid hq hS).conseq (fun w hw => ⟨hw.1, hw.2 h0⟩)
      fun _ _ hw => hw
  · refine triple_bind (triple_quiet fun _ => ⟨_, _, rfl, rfl, rfl⟩) fun gpx => ?_
    exact triple_when (fun _ => triple_bind (triple_quiet fun _ => ⟨_, _, rfl, rfl, rfl⟩)
      fun _ => triple_pure fun _ hw => hw) fun _ _ hw => hw

end Irq

end TetrisFpga.Usb
