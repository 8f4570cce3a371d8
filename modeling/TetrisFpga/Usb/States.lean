import TetrisFpga.Usb.RunningAddress
import TetrisFpga.Usb.Tasks

/-!
# The states of the USB task

Everywhere but in one place the task state is assigned a state that has a case. The bus event
of an interrupt steps it to the next number, and that is a state with a case after a few states
only.
-/

namespace TetrisFpga.Usb
open Program

/-- The states that `USB_Task` has a case for. -/
def definedStates : List BYTE :=
  [usbDetachedSubstateInitialize, usbDetachedSubstateWaitForDevice, usbDetachedSubstateIllegal,
    usbStateAttached, usbAttachedSubstateSettle, usbAttachedSubstateResetDevice,
    usbAttachedSubstateWaitResetComplete, usbAttachedSubstateWaitSof,
    usbAttachedSubstateGetDeviceDescriptorSize, usbStateAddressing, usbStateConfiguring,
    usbStateRunning, usbStateError]

def Defined (h : Host) : Prop := h.usbTaskState ∈ definedStates

instance : DecidablePred Defined := fun h =>
  inferInstanceAs (Decidable (h.usbTaskState ∈ definedStates))

/-- The states whose next number is a state with a case. -/
def steppedStates : List BYTE :=
  [usbDetachedSubstateWaitForDevice, usbStateAttached, usbAttachedSubstateSettle,
    usbAttachedSubstateResetDevice, usbAttachedSubstateWaitResetComplete,
    usbAttachedSubstateWaitSof]

/-! ## Interrupts -/

/-- A bus event comes in a state that it may step: if the connection has changed as well, then
the bus is pulled, or it is free and the task is in a detached state. -/
def InSequence (h : Host) (hirq sample : BYTE) : Prop :=
  hirq &&& bmBUSEVENTIRQ ≠ 0 →
    if hirq &&& bmCONDETIRQ ≠ 0 then
      sample = bmJSTATUS ∨ sample = bmKSTATUS ∨
        sample = bmSE0 ∧ h.usbTaskState &&& usbStateMask = usbStateDetached
    else h.usbTaskState ∈ steppedStates

instance (h : Host) (hirq sample : BYTE) : Decidable (InSequence h hirq sample) :=
  inferInstanceAs (Decidable (_ → ite ..))

/-- The interrupt of the coming round, if there is one, steps the task in sequence. -/
def SequentialIrq {χ : Type} [Platform χ] (w : World χ) : Prop :=
  ∀ r ∈ irqReads w.chip, InSequence w.host r.1 r.2

instance {χ : Type} [Platform χ] (w : World χ) : Decidable (SequentialIrq w) :=
  Option.decidableForallMem (irqReads w.chip)

theorem busSample_cases (hrsl : BYTE) :
    busSample hrsl ∈ [bmSE0, bmKSTATUS, bmJSTATUS, bmSE1] :=
  (by decide : ∀ hrsl : BYTE, busSample hrsl ∈ [bmSE0, bmKSTATUS, bmJSTATUS, bmSE1]) hrsl

theorem probedState_defined : ∀ s ∈ definedStates,
    ∀ sample ∈ [bmSE0, bmKSTATUS, bmJSTATUS, bmSE1], probedState sample s ∈ definedStates ∧
      (probedState sample s + 1 ∈ definedStates ↔ sample = bmJSTATUS ∨ sample = bmKSTATUS ∨
        sample = bmSE0 ∧ s &&& usbStateMask = usbStateDetached) := by
  decide

theorem stepped_iff : ∀ s ∈ definedStates, s + 1 ∈ definedStates ↔ s ∈ steppedStates := by
  decide

theorem Defined.condet {h : Host} (hd : Defined h) (hirq : BYTE) {sample : BYTE}
    (hsample : sample ∈ [bmSE0, bmKSTATUS, bmJSTATUS, bmSE1]) :
    Defined (h.setState (condetState hirq sample h.usbTaskState)) := by
  show condetState hirq sample h.usbTaskState ∈ definedStates
  unfold condetState
  split_ifs
  · exact (probedState_defined _ hd sample hsample).1
  · exact hd

/-- After an interrupt the task is in a state with a case if and only if it was stepped in
sequence. -/
theorem Defined.handled_iff {h : Host} (hd : Defined h) {hirq sample : BYTE}
    (hsample : sample ∈ [bmSE0, bmKSTATUS, bmJSTATUS, bmSE1]) :
    Defined (h.setState (handledState hirq sample h.usbTaskState)) ↔ InSequence h hirq sample := by
  show handledState hirq sample h.usbTaskState ∈ definedStates ↔ _
  by_cases hbus : hirq &&& bmBUSEVENTIRQ ≠ 0
  · rw [handledState, if_pos hbus, InSequence, forall_prop_of_true hbus, condetState]
    split_ifs
    · exact (probedState_defined _ hd sample hsample).2
    · exact stepped_iff _ hd
  · rw [handledState, if_neg hbus]
    exact ⟨fun _ hne => absurd hne hbus, fun _ => hd.condet hirq hsample⟩

/-! ## The rest of the loop -/

section Run

variable {χ : Type} [Platform χ]

omit [Platform χ] in
theorem triple_setDefined {s : BYTE} (hs : s ∈ definedStates) :
    Keeps (Holds Defined Defined) (Seen Defined) (setUsbTaskState s : Prog χ Unit) :=
  triple_setHost (fun _ _ => hs) fun _ hd => hd

/-- What talks to the device keeps to the states with a case. -/
theorem tasks_defined : Tasks (χ := χ) fun _ => Keeps (Holds Defined Defined) (Seen Defined) where
  toTransfers := transfers_hold (fun _ _ _ _ hd => hd) fun _ hd => hd
  assign f hf := triple_setHost (fun h hd => by
    show (f h).usbTaskState ∈ definedStates
    rw [(hf h).1]
    exact hd) fun _ hd => hd
  setState s hs := triple_setDefined
    ((by decide : ∀ s ∈ workStates, s ∈ definedStates) s hs)
  declare _ := triple_quiet fun _ => ⟨_, _, rfl, rfl, rfl⟩
  getPio := triple_quiet fun _ => ⟨_, _, rfl, rfl, rfl⟩
  setPio _ := triple_quiet fun _ => ⟨_, _, rfl, rfl, rfl⟩
  walk := triple_throw fun _ hw => hw.2

theorem triple_probe_defined :
    Keeps (Holds Defined Defined) (Seen Defined) (maxBusprobe : Prog χ Unit) := by
  refine (triple_maxBusprobe (· ∈ [bmSE0, bmKSTATUS, bmJSTATUS, bmSE1])
    (fun h sample hd hsample => ?_) fun _ hd => hd).conseq (fun w hw => ⟨hw, ?_⟩) fun _ _ hw => hw
  · exact (probedState_defined _ hd sample hsample).1
  · exact busSample_cases _

theorem triple_irq_defined :
    Triple (fun w => Holds Defined Defined w ∧ SequentialIrq w) (max3421eTask : Prog χ Unit)
      (fun _ => Holds Defined Defined) (Seen Defined) := by
  refine triple_of_forall fun w₀ hw₀ => ?_
  have hsamples : ∀ r ∈ irqReads w₀.chip, r.2 ∈ [bmSE0, bmKSTATUS, bmJSTATUS, bmSE1] := by
    intro r hr
    simp only [irqReads] at hr
    split_ifs at hr
    · cases hr
      exact busSample_cases _
    · cases hr
  refine (triple_max3421eTask (p := fun h => h = w₀.host)
    (fun hirq sample => sample ∈ [bmSE0, bmKSTATUS, bmJSTATUS, bmSE1] ∧
      InSequence w₀.host hirq sample) ?_ ?_ ?_ fun _ hd => hd).conseq ?_ fun _ _ hw => hw
  · rintro h hirq sample rfl ⟨hsample, -⟩
    exact hw₀.1.1.condet hirq hsample
  · rintro h hirq sample rfl ⟨hsample, hseq⟩
    exact (hw₀.1.1.handled_iff hsample).mpr hseq
  · rintro h rfl
    exact hw₀.1.1
  · rintro w rfl
    exact ⟨⟨rfl, hw₀.1.2⟩, fun r hr => ⟨hsamples r hr, hw₀.2 r hr⟩⟩

theorem triple_init_defined (fuel : Fuel) :
    Keeps (Holds Defined Defined) (Seen Defined) (do
        max3421eInit fuel
        usbInit : Prog χ Unit) := by
  have hC : Tasks (χ := χ) fun _ => Keeps (Holds Defined Defined) (Seen Defined) :=
    tasks_defined
  have hrst (v : BYTE) : Keeps (Holds Defined Defined) (Seen Defined)
      (usbRst v : Prog χ Unit) := triple_quiet fun _ => ⟨_, _, rfl, rfl, rfl⟩
  have hinit := max3421eInit_mem hC.toClosed (fun reg val _ _ => hC.wr reg val) hC.rd hrst
    (triple_throw fun _ hw => hw.2) triple_probe_defined fuel
  have husb := usbInit_mem hC.toClosed hC.assign
  exact hC.bind hinit fun _ => husb

theorem triple_detachedTask_defined (s : BYTE) :
    Keeps (Holds Defined Defined) (Seen Defined) (detachedTask s : Prog χ Unit) := by
  have hC : Tasks (χ := χ) fun _ => Keeps (Holds Defined Defined) (Seen Defined) :=
    tasks_defined
  have husb := usbInit_mem hC.toClosed hC.assign
  refine hC.ite (hC.bind husb fun _ => ?_) ?_
  · exact triple_setDefined (by decide)
  · exact hC.ite (hC.wr _ _) (hC.pure ())

theorem triple_attachedTask_defined (fuel : Fuel) (s : BYTE) :
    Keeps (Holds Defined Defined) (Seen Defined) (attachedTask fuel s : Prog χ Unit) := by
  have hC : Tasks (χ := χ) fun _ => Keeps (Holds Defined Defined) (Seen Defined) :=
    tasks_defined
  refine hC.ite ?_ (hC.ite ?_ (hC.ite ?_ (hC.ite ?_ (hC.ite ?_ (hC.ite ?_ (hC.pure ()))))))
  · refine hC.bind hC.altMs fun now => hC.bind ?_ fun _ => triple_setDefined (by decide)
    exact triple_setHost (fun _ hd => hd) fun _ hd => hd
  · refine hC.bind hC.altMs fun now => hC.bind hC.getHost fun _ => hC.ite ?_ (hC.pure ())
    exact triple_setDefined (by decide)
  · refine hC.bind (hC.wr _ _) fun _ => hC.bind (hC.wr _ _) fun _ => ?_
    exact triple_setDefined (by decide)
  · refine hC.bind (hC.rd _) fun _ => hC.ite (hC.bind (hC.rd _) fun _ => ?_) (hC.pure ())
    exact hC.bind (hC.wr _ _) fun _ => triple_setDefined (by decide)
  · refine hC.bind (hC.rd _) fun _ => hC.ite ?_ (hC.pure ())
    exact triple_setDefined (by decide)
  · exact hC.getDeviceDescriptor fuel

theorem triple_usbTask_defined (fuel : Fuel) :
    Keeps (Holds Defined Defined) (Seen Defined) (usbTask fuel : Prog χ Unit) := by
  have hC : Tasks (χ := χ) fun _ => Keeps (Holds Defined Defined) (Seen Defined) :=
    tasks_defined
  refine hC.bind (hC.declare _) fun _ => hC.bind hC.getHost fun h => ?_
  refine hC.ite (triple_detachedTask_defined _) (hC.ite (triple_attachedTask_defined fuel _) ?_)
  exact hC.ite (hC.addressingTask fuel) (hC.ite (hC.configuringTask fuel) (hC.pure ()))

/-- A round keeps to the states with a case, if its interrupt steps the task in sequence. -/
theorem triple_mainRound_defined (fuel : Fuel) :
    Triple (fun w => Holds Defined Defined w ∧ SequentialIrq w) (mainRound fuel : Prog χ Unit)
      (fun _ => Holds Defined Defined) (Seen Defined) := by
  have hC : Tasks (χ := χ) fun _ => Keeps (Holds Defined Defined) (Seen Defined) :=
    tasks_defined
  have hassign {f : Host → Host} (hf : LeavesTask f) := hC.assign f hf
  refine triple_bind triple_irq_defined fun _ => hC.bind (triple_usbTask_defined fuel) fun _ => ?_
  refine hC.bind hC.getHost fun h => hC.ite (hC.whileRunning fuel) (hC.ite ?_ ?_)
  · exact hC.ite (hC.bind (hassign fun _ => ⟨rfl, rfl⟩) fun _ => hC.setPio _) (hC.pure ())
  · refine hC.bind hC.getHost fun h => hC.bind (hC.when ?_) fun _ =>
      hC.bind (hassign fun _ => ⟨rfl, rfl⟩) fun _ => hC.setPio _
    exact hC.bind (hassign fun _ => ⟨rfl, rfl⟩) fun _ => triple_init_defined fuel

end Run

/-! ## A device that stalls -/

/-- A device that stalls the first request and is then unplugged, with the bus event of its
reset still pending. -/
def stalled : World Script :=
  powerUp { answers := initReads ++ [0x00, 0x00, 0x40, 0x80, 0x05, 0x21, 0x00]
            irqs := [1, 1, 1, 1, 1, 1, 0]
            tick := 250 } 0 (fun _ _ => 0) {}

/-- The task stays in the state 2, for which there is no case. -/
example : (final (main ⟨9, 9, 9, 9, 9⟩ 12 stalled)).host.usbTaskState = 0x02 := by
  decide +kernel

end TetrisFpga.Usb
