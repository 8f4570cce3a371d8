import TetrisFpga.Usb.Irq
import TetrisFpga.Usb.Main
import TetrisFpga.Usb.Table

/-!
# The address of a running device

In which states the loop of `main` can be when a round begins, after the interrupts and
after the USB task, and what the table holds in each of them. The table is not cleared on
every way back to ATTACHED: `SafeReads` says which interrupts keep to the ways that do.
-/

namespace TetrisFpga.Usb
open Program

/-! ## Interrupts -/

/-- The task waits in CONFIGURING for a probe to accept the device. -/
def Configuring (h : Host) : Prop :=
  usbStateConfiguring ≤ h.usbTaskState ∧ h.usbTaskState ≤ 0x3f ∧ h.tmpAddr = 1

/-- The beginning of a round. -/
inductive Ready (h : Host) : Prop
  | running (hflag : h.runningdebugflag ≠ 0) (hs : h.usbTaskState = usbStateRunning)
      (ht : AtAddressOne h)
  | unassigned (hflag : h.runningdebugflag = 0) (hclear : Clear h) (hroot : Rooted h)
      (hs : h.usbTaskState ≤ usbStateAddressing ∨ h.usbTaskState = usbStateError)
  | assigned (hflag : h.runningdebugflag = 0) (honly : OnlyFirst h)
      (hs : Configuring h ∨ h.usbTaskState = usbStateError ∨ h.usbTaskState = usbStateDetached)

/-- The states into which an interrupt takes a running device. -/
def leftStates : List BYTE := [0x41, 0x10, 0x11, 0x04, 0x05, 0x01, 0x02, 0x03]

/-- After the interrupts of a round. -/
inductive Interrupted (h : Host) : Prop
  | running (hs : h.usbTaskState = usbStateRunning) (ht : AtAddressOne h)
  | left (hflag : h.runningdebugflag ≠ 0) (hs : h.usbTaskState ∈ leftStates)
  | unassigned (hflag : h.runningdebugflag = 0) (hclear : Clear h) (hroot : Rooted h)
      (hs : h.usbTaskState ≤ usbStateAddressing + 1 ∨ h.usbTaskState = usbStateError)
  | assigned (hflag : h.runningdebugflag = 0) (honly : OnlyFirst h)
      (hs : Configuring h ∨ h.usbTaskState = usbStateError ∨ h.usbTaskState = usbStateDetached ∨
        h.usbTaskState = usbDetachedSubstateInitialize)

/-- An interrupt taken while an address is assigned and the device does not run: if it
reports a change of the connection, then the bus is disconnected, the task is in no detached
state and there is no bus event besides; and a bus event does not step the task from 3f to
RUNNING, unless the table is as it must be there. -/
def SafeReads (h : Host) (hirq sample : BYTE) : Prop :=
  h.usbTaskState ≠ usbStateRunning → ¬Clear h →
    (hirq &&& bmCONDETIRQ ≠ 0 → sample = bmSE0 ∧
      h.usbTaskState &&& usbStateMask ≠ usbStateDetached ∧ hirq &&& bmBUSEVENTIRQ = 0) ∧
    (hirq &&& bmBUSEVENTIRQ ≠ 0 → h.usbTaskState = 0x3f → AtAddressOne h)

instance (h : Host) (hirq sample : BYTE) : Decidable (SafeReads h hirq sample) :=
  inferInstanceAs (Decidable (_ → _ → _))

/-- The interrupt of the coming round, if there is one, is safe. -/
def SafeIrq {χ : Type} [Platform χ] (w : World χ) : Prop :=
  ∀ r ∈ irqReads w.chip, SafeReads w.host r.1 r.2

instance {χ : Type} [Platform χ] (w : World χ) : Decidable (SafeIrq w) :=
  Option.decidableForallMem (irqReads w.chip)

theorem Configuring.ne_running {h : Host} (hc : Configuring h) :
    h.usbTaskState ≠ usbStateRunning := by
  intro hrun
  have := hc.2.1
  rw [hrun] at this
  exact absurd this (by decide)

theorem Ready.settled {h : Host} (hr : Ready h) : Settled h := by
  intro hrun
  cases hr with
  | running _ _ ht => exact ht
  | unassigned _ _ _ hs =>
    rw [hrun] at hs
    exact absurd hs (by decide)
  | assigned _ _ hs =>
    obtain hc | hs | hs := hs
    · exact absurd hrun hc.ne_running
    · exact absurd (hrun.symm.trans hs) (by decide)
    · exact absurd (hrun.symm.trans hs) (by decide)

theorem Interrupted.settled {h : Host} (hi : Interrupted h) : Settled h := by
  intro hrun
  cases hi with
  | running _ ht => exact ht
  | left _ hs =>
    rw [hrun] at hs
    exact absurd hs (by decide)
  | unassigned _ _ _ hs =>
    rw [hrun] at hs
    exact absurd hs (by decide)
  | assigned _ _ hs =>
    obtain hc | hs | hs | hs := hs
    · exact absurd hrun hc.ne_running
    · exact absurd (hrun.symm.trans hs) (by decide)
    · exact absurd (hrun.symm.trans hs) (by decide)
    · exact absurd (hrun.symm.trans hs) (by decide)

theorem AtAddressOne.setState {h : Host} (ht : AtAddressOne h) (s : BYTE) :
    AtAddressOne (h.setState s) := ⟨ht.only, ht.epinfo, ht.devclass, ht.addr⟩

/-- With an address assigned, an interrupt that is safe leaves the task state alone or takes
it to where the table will be cleared. -/
theorem SafeReads.condetState {h : Host} {hirq sample : BYTE} (hsafe : SafeReads h hirq sample)
    (hrun : h.usbTaskState ≠ usbStateRunning) (hclear : ¬Clear h) :
    condetState hirq sample h.usbTaskState = h.usbTaskState ∨
      (hirq &&& bmBUSEVENTIRQ = 0 ∧
        condetState hirq sample h.usbTaskState = usbDetachedSubstateInitialize) := by
  obtain ⟨hcondet, -⟩ := hsafe hrun hclear
  by_cases hc : hirq &&& bmCONDETIRQ ≠ 0
  · obtain ⟨rfl, hgroup, hbus⟩ := hcondet hc
    refine .inr ⟨hbus, ?_⟩
    rw [Usb.condetState, if_pos hc, probedState, if_neg (by decide), if_neg (by decide),
      if_pos hgroup]
  · rw [Usb.condetState, if_neg hc]
    exact .inl rfl

/-- Between the two assignments of the interrupt handler. -/
theorem Ready.condet {h : Host} (hr : Ready h) (hirq sample : BYTE) :
    Settled (h.setState (condetState hirq sample h.usbTaskState)) := by
  obtain hsame | hmem := condetState_cases hirq sample h.usbTaskState
  · rw [hsame, Host.setState_self]
    exact hr.settled
  · intro hrun
    rw [Host.setState_usbTaskState] at hrun
    rw [hrun] at hmem
    exact absurd hmem (by decide)

/-- The states a running device can be in after an interrupt. -/
theorem running_handled : ∀ c : BYTE, (c = usbStateRunning ∨ c ∈ probeStates) →
    (c = usbStateRunning ∨ c ∈ leftStates) ∧ c + 1 ∈ leftStates := by
  decide

theorem unassigned_handled {s c : BYTE} (hs : s ≤ usbStateAddressing ∨ s = usbStateError)
    (hc : c = s ∨ c ∈ probeStates) :
    (c ≤ usbStateAddressing + 1 ∨ c = usbStateError) ∧
      (c + 1 ≤ usbStateAddressing + 1 ∨ c + 1 = usbStateError) := by
  have hc' : c ≤ usbStateAddressing ∨ c = usbStateError := by
    obtain rfl | hmem := hc
    · exact hs
    · exact (by decide : ∀ c ∈ probeStates, c ≤ usbStateAddressing ∨ c = usbStateError) c hmem
  exact (by decide : ∀ c : BYTE, (c ≤ usbStateAddressing ∨ c = usbStateError) →
    (c ≤ usbStateAddressing + 1 ∨ c = usbStateError) ∧
      (c + 1 ≤ usbStateAddressing + 1 ∨ c + 1 = usbStateError)) c hc'

/-- A bus event while the probes are tried, or afterwards. -/
theorem assigned_handled : ∀ s : BYTE,
    (usbStateConfiguring ≤ s ∧ s ≤ 0x3f → s ≠ 0x3f →
      usbStateConfiguring ≤ s + 1 ∧ s + 1 ≤ 0x3f) ∧
    (s = usbStateError → s + 1 = usbStateDetached) ∧
    (s = usbStateDetached → s + 1 = usbDetachedSubstateInitialize) := by
  decide

theorem Ready.handled {h : Host} (hr : Ready h) {hirq sample : BYTE}
    (hsafe : SafeReads h hirq sample) :
    Interrupted (h.setState (handledState hirq sample h.usbTaskState)) := by
  cases hr with
  | running hflag hs ht =>
    have hc := running_handled (condetState hirq sample h.usbTaskState)
      (by rw [← hs]; exact condetState_cases hirq sample h.usbTaskState)
    obtain he | he := handledState_cases hirq sample h.usbTaskState
    · obtain hrun | hleft := hc.1
      · exact .running (he.trans hrun) (ht.setState _)
      · exact .left hflag (he ▸ hleft)
    · exact .left hflag (he ▸ hc.2)
  | unassigned hflag hclear hroot hs =>
    have hc := unassigned_handled hs (condetState_cases hirq sample h.usbTaskState)
    obtain he | he := handledState_cases hirq sample h.usbTaskState
    · exact .unassigned hflag hclear hroot (he ▸ hc.1)
    · exact .unassigned hflag hclear hroot (he ▸ hc.2)
  | assigned hflag honly hs =>
    have hrun : h.usbTaskState ≠ usbStateRunning := by
      obtain hc | hs | hs := hs
      · exact hc.ne_running
      · rw [hs]
        decide
      · rw [hs]
        decide
    -- an address is taken: the reads are safe, so the table is kept or cleared as a whole
    obtain hsame | ⟨hbus, hinit⟩ := hsafe.condetState hrun honly.not_clear
    · by_cases hbus : hirq &&& bmBUSEVENTIRQ ≠ 0
      · have he : handledState hirq sample h.usbTaskState = h.usbTaskState + 1 := by
          rw [handledState, if_pos hbus, hsame]
        obtain ⟨hstep, herror, hdetached⟩ := assigned_handled h.usbTaskState
        obtain hc | hs | hs := hs
        · by_cases h3f : h.usbTaskState = 0x3f
          -- a bus event in the last configuring state steps the task to RUNNING
          · refine .running (he.trans ?_) (((hsafe hrun honly.not_clear).2 hbus h3f).setState _)
            rw [h3f]
            decide
          · have hnext := hstep ⟨hc.1, hc.2.1⟩ h3f
            exact .assigned hflag honly (.inl ⟨he ▸ hnext.1, he ▸ hnext.2, hc.2.2⟩)
        · exact .assigned hflag honly (.inr (.inr (.inl (he.trans (herror hs)))))
        · exact .assigned hflag honly (.inr (.inr (.inr (he.trans (hdetached hs)))))
      · have he : handledState hirq sample h.usbTaskState = h.usbTaskState := by
          rw [handledState, if_neg hbus, hsame]
        rw [he, Host.setState_self]
        exact .assigned hflag honly (hs.imp_right (Or.imp_right .inl))
    · have he : handledState hirq sample h.usbTaskState = usbDetachedSubstateInitialize := by
        rw [handledState, if_neg (fun hne => hne hbus), hinit]
      exact .assigned hflag honly (.inr (.inr (.inr he)))

/-- Without an interrupt nothing has changed. -/
theorem Ready.idle {h : Host} (hr : Ready h) : Interrupted h := by
  cases hr with
  | running _ hs ht => exact .running hs ht
  | unassigned hflag hclear hroot hs =>
    exact .unassigned hflag hclear hroot (hs.imp_left fun hle =>
      (by decide : ∀ s : BYTE, s ≤ usbStateAddressing → s ≤ usbStateAddressing + 1) _ hle)
  | assigned hflag honly hs => exact .assigned hflag honly (hs.imp_right (Or.imp_right .inl))

section Run

variable {χ : Type} [Platform χ]

theorem triple_interrupts :
    Triple (fun w => Holds Settled Ready w ∧ SafeIrq w) (max3421eTask : Prog χ Unit)
      (fun _ => Holds Settled Interrupted) (Seen Settled) := by
  refine triple_of_forall fun w₀ hw₀ => ?_
  refine (triple_max3421eTask (p := fun h => h = w₀.host) (SafeReads w₀.host) ?_ ?_ ?_
    fun _ hi => hi.settled).conseq ?_ fun _ _ hw => hw
  · rintro h hirq sample rfl _
    exact hw₀.1.1.condet hirq sample
  · rintro h hirq sample rfl hsafe
    exact hw₀.1.1.handled hsafe
  · rintro h rfl
    exact hw₀.1.1.idle
  · rintro w rfl
    exact ⟨⟨rfl, hw₀.1.2⟩, hw₀.2⟩

end Run

/-! ## The USB task -/

/-- After the USB task of a round. -/
inductive Worked (h : Host) : Prop
  | running (hs : h.usbTaskState = usbStateRunning) (ht : AtAddressOne h)
  | left (hflag : h.runningdebugflag ≠ 0) (hrun : h.usbTaskState ≠ usbStateRunning)
      (herror : h.usbTaskState ≠ usbStateError)
  | unassigned (hflag : h.runningdebugflag = 0) (hclear : Clear h) (hroot : Rooted h)
      (hs : h.usbTaskState ≤ usbStateAddressing ∨ h.usbTaskState = usbStateError)
  | assigned (hflag : h.runningdebugflag = 0) (honly : OnlyFirst h)
      (hs : Configuring h ∨ h.usbTaskState = usbStateError ∨ h.usbTaskState = usbStateDetached)

theorem Worked.settled {h : Host} (hw : Worked h) : Settled h := by
  cases hw with
  | running hs ht => exact fun _ => ht
  | left _ hrun _ => exact fun h => absurd h hrun
  | unassigned hflag hclear hroot hs => exact (Ready.unassigned hflag hclear hroot hs).settled
  | assigned hflag honly hs => exact (Ready.assigned hflag honly hs).settled

/-- `F` speaks of the table and of `runningdebugflag` only. -/
def TableFact (F : Host → Prop) : Prop :=
  ∀ h h', h'.devtable = h.devtable → h'.runningdebugflag = h.runningdebugflag → F h → F h'

theorem tableFact_left : TableFact fun h => h.runningdebugflag ≠ 0 :=
  fun _ _ _ hflag hne hzero => hne (hflag.symm.trans hzero)

theorem tableFact_clear : TableFact fun h => h.runningdebugflag = 0 ∧ Clear h ∧ Rooted h := by
  intro h h' hdev hflag hh
  refine ⟨hflag.trans hh.1, ?_⟩
  unfold Clear Rooted
  rw [hdev]
  exact hh.2

theorem tableFact_onlyFirst : TableFact fun h => h.runningdebugflag = 0 ∧ OnlyFirst h := by
  intro h h' hdev hflag hh
  refine ⟨hflag.trans hh.1, ?_⟩
  unfold OnlyFirst
  rw [hdev]
  exact hh.2

section Task

variable {χ : Type} {F p q : Host → Prop} {s : BYTE}

theorem triple_setUsbTaskState {s' : BYTE} (hF : TableFact F) (hs' : s' ≠ usbStateRunning) :
    Triple (Holds Settled fun h => F h ∧ h.usbTaskState = s) (setUsbTaskState s' : Prog χ Unit)
      (fun _ => Holds Settled fun h => F h ∧ h.usbTaskState = s') (Seen Settled) :=
  triple_setHost (fun h hh => ⟨hF h _ rfl rfl hh.1, rfl⟩)
    fun _ hh hrun => absurd (hh.2.symm.trans hrun) hs'

theorem triple_setUsbError {rcode : BYTE} (hF : TableFact F) (hs : s ≠ usbStateRunning) :
    Triple (Holds Settled fun h => F h ∧ h.usbTaskState = s) (setUsbError rcode : Prog χ Unit)
      (fun _ => Holds Settled fun h => F h ∧ h.usbTaskState = usbStateError) (Seen Settled) := by
  have hsettled (h : Host) (hh : F h ∧ h.usbTaskState = s) : Settled h :=
    fun hrun => absurd (hh.2.symm.trans hrun) hs
  refine triple_bind (triple_setHost (q := fun h => F h ∧ h.usbTaskState = s)
    (fun h hh => ⟨hF h _ rfl rfl hh.1, hh.2⟩) hsettled) fun _ => ?_
  refine triple_bind (triple_setHost (q := fun h => F h ∧ h.usbTaskState = s)
    (fun h hh => ⟨hF h _ rfl rfl hh.1, hh.2⟩) hsettled) fun _ => ?_
  exact triple_setUsbTaskState hF (by decide)

variable [Platform χ]

/-- The task is in the state `s`, which is not RUNNING: the transfers change neither that nor
the table. -/
theorem transfers_inState (hF : TableFact F) (hs : s ≠ usbStateRunning) :
    Transfers (χ := χ) fun _ =>
        Keeps (Holds Settled fun h => F h ∧ h.usbTaskState = s) (Seen Settled) :=
  transfers_hold (fun h _ _ _ hh => ⟨hF h _ rfl rfl hh.1, hh.2⟩)
    fun _ hh hrun => absurd (hh.2.symm.trans hrun) hs

theorem triple_getStrDescr (hF : TableFact F) (hs : s ≠ usbStateRunning) (fuel : Fuel)
    (index : BYTE) :
    Keeps (Holds Settled fun h => F h ∧ h.usbTaskState = s) (Seen Settled)
        (getStrDescr fuel index : Prog χ Unit) := by
  have hC : Transfers (χ := χ) fun _ =>
      Keeps (Holds Settled fun h => F h ∧ h.usbTaskState = s) (Seen Settled) :=
    transfers_inState hF hs
  refine hC.bind (triple_quiet fun _ => ⟨_, _, rfl, rfl, rfl⟩) fun _ => ?_
  refine hC.bind (hC.xferCtrlReq _ _ _ _ _ _ _ _ _ _) fun _ => hC.bind (hC.load _) fun _ => ?_
  refine hC.bind (hC.xferCtrlReq _ _ _ _ _ _ _ _ _ _) fun _ => hC.bind (hC.load _) fun _ => ?_
  exact hC.convUTF8ToStr _ _

theorem triple_getDeviceDescriptor (hF : TableFact F) (hs : s ≠ usbStateRunning) (fuel : Fuel) :
    Triple (Holds Settled fun h => F h ∧ h.usbTaskState = s)
      (getDeviceDescriptor fuel : Prog χ Unit)
      (fun _ => Holds Settled fun h => F h ∧
        (h.usbTaskState = usbStateAddressing ∨ h.usbTaskState = usbStateError))
      (Seen Settled) := by
  have hC : Transfers (χ := χ) fun _ =>
      Keeps (Holds Settled fun h => F h ∧ h.usbTaskState = s) (Seen Settled) :=
    transfers_inState hF hs
  refine triple_bind (hC.setEpRecord _ _ _) fun _ => ?_
  refine triple_bind (hC.xferCtrlReq _ _ _ _ _ _ _ _ _ _) fun rcode => triple_ite (fun _ => ?_)
    fun _ => (triple_setUsbError hF hs).conseq (fun _ hw => hw)
      fun _ _ hw => hw.mono fun h hh => ⟨hh.1, .inr hh.2⟩
  refine triple_bind (hC.load _) fun _ => triple_bind (hC.setEpRecord _ _ _) fun _ => ?_
  refine triple_bind (hC.load _) fun _ =>
    triple_bind (hC.xferCtrlReq _ _ _ _ _ _ _ _ _ _) fun _ => ?_
  refine triple_bind (hC.load _) fun _ =>
    triple_bind (hC.when (triple_getStrDescr hF hs fuel _)) fun _ => ?_
  refine triple_bind (hC.load _) fun _ =>
    triple_bind (hC.when (triple_getStrDescr hF hs fuel _)) fun _ => ?_
  exact (triple_setUsbTaskState hF (by decide)).conseq (fun _ hw => hw)
    fun _ _ hw => hw.mono fun h hh => ⟨hh.1, .inl hh.2⟩

/-- The steps of the ATTACHED group. -/
def AttachedNext (s s' : BYTE) : Prop :=
  s' = s ∨ s' = usbAttachedSubstateSettle ∨ s' = usbAttachedSubstateResetDevice ∨
    (usbAttachedSubstateResetDevice ≤ s ∧ (s' ≤ usbStateAddressing ∨ s' = usbStateError))

theorem triple_attachedTask (hF : TableFact F) (hs : s &&& usbStateMask = usbStateAttached)
    (fuel : Fuel) :
    Triple (Holds Settled fun h => F h ∧ h.usbTaskState = s)
      (attachedTask fuel s : Prog χ Unit)
      (fun _ => Holds Settled fun h => F h ∧ AttachedNext s h.usbTaskState) (Seen Settled) := by
  have hrun : s ≠ usbStateRunning := by
    rintro rfl
    exact absurd hs (by decide)
  have hC : Transfers (χ := χ) fun _ =>
      Keeps (Holds Settled fun h => F h ∧ h.usbTaskState = s) (Seen Settled) :=
    transfers_inState hF hrun
  have hstay : Triple (Holds Settled fun h => F h ∧ h.usbTaskState = s) (pure () : Prog χ Unit)
      (fun _ => Holds Settled fun h => F h ∧ AttachedNext s h.usbTaskState) (Seen Settled) :=
    triple_pure fun _ hw => hw.mono fun h hh => ⟨hh.1, .inl hh.2⟩
  have hset {s' : BYTE} (hs' : s' ≠ usbStateRunning) (hnext : AttachedNext s s') :
      Triple (Holds Settled fun h => F h ∧ h.usbTaskState = s)
        (setUsbTaskState s' : Prog χ Unit)
        (fun _ => Holds Settled fun h => F h ∧ AttachedNext s h.usbTaskState) (Seen Settled) :=
    (triple_setUsbTaskState hF hs').conseq (fun _ hw => hw)
      fun _ _ hw => hw.mono fun h hh => ⟨hh.1, hh.2 ▸ hnext⟩
  -- one case for each of the states 0x10 to 0x15
  refine triple_ite (fun h10 => ?_) fun h10 => triple_ite (fun h11 => ?_) fun h11 =>
    triple_ite (fun h12 => ?_) fun h12 => triple_ite (fun h13 => ?_) fun h13 =>
    triple_ite (fun h14 => ?_) fun h14 => triple_ite (fun h15 => ?_) fun h15 => hstay
  · refine triple_bind hC.altMs fun now => triple_bind (triple_setHost
      (q := fun h => F h ∧ h.usbTaskState = s) (fun h hh => ⟨hF h _ rfl rfl hh.1, hh.2⟩)
      fun _ hh hr => absurd (hh.2.symm.trans hr) hrun) fun _ => ?_
    exact hset (by decide) (.inr (.inl rfl))
  · refine triple_bind hC.altMs fun now => triple_bind hC.getHost fun h => ?_
    exact triple_ite (fun _ => hset (by decide) (.inr (.inr (.inl rfl)))) fun _ => hstay
  · refine triple_bind (hC.wr _ _) fun _ => triple_bind (hC.wr _ _) fun _ => ?_
    exact hset (by decide) (.inr (.inr (.inr ⟨by rw [h12]; decide, .inl (by decide)⟩)))
  · refine triple_bind (hC.rd _) fun _ => triple_ite (fun _ => ?_) fun _ => hstay
    refine triple_bind (hC.rd _) fun _ => triple_bind (hC.wr _ _) fun _ => ?_
    exact hset (by decide) (.inr (.inr (.inr ⟨by rw [h13]; decide, .inl (by decide)⟩)))
  · refine triple_bind (hC.rd _) fun _ => triple_ite (fun _ => ?_) fun _ => hstay
    exact hset (by decide) (.inr (.inr (.inr ⟨by rw [h14]; decide, .inl (by decide)⟩)))
  · refine (triple_getDeviceDescriptor hF hrun fuel).conseq (fun _ hw => hw) fun _ _ hw =>
      hw.mono fun h hh => ⟨hh.1, .inr (.inr (.inr ⟨by rw [h15]; decide, ?_⟩))⟩
    exact hh.2.imp_left fun he => by rw [he]; decide

/-- INITIALIZE clears the table, the other detached states do nothing. -/
theorem triple_detachedTask (h₀ : Host) :
    Triple (Holds Settled fun h => h = h₀) (detachedTask h₀.usbTaskState : Prog χ Unit)
      (fun _ => Holds Settled fun h =>
        (h₀.usbTaskState ≠ usbDetachedSubstateInitialize ∧ h = h₀) ∨
        (h₀.usbTaskState = usbDetachedSubstateInitialize ∧ Clear h ∧ Rooted h ∧
          h.runningdebugflag = h₀.runningdebugflag ∧
          h.usbTaskState = usbDetachedSubstateWaitForDevice)) (Seen Settled) := by
  refine triple_ite (fun hinit => ?_) fun hinit => triple_ite (fun _ => ?_) fun _ => ?_
  · have hne : h₀.usbTaskState ≠ usbStateRunning := by
      rw [hinit]
      decide
    refine triple_bind ((triple_usbInit (p := fun h => h.usbTaskState = h₀.usbTaskState ∧
        h.runningdebugflag = h₀.runningdebugflag) (fun _ _ _ hh => hh) (fun _ _ _ _ hh => hh)
        fun h hh hrun => absurd (hh.1.symm.trans hrun) hne).conseq
      (fun w hw => hw.mono fun h hh => hh ▸ ⟨rfl, rfl⟩) fun _ _ hw => hw) fun _ => ?_
    refine triple_setHost (fun h hh => .inr ⟨hinit, hh.2.clear, hh.2.root, hh.1.2, rfl⟩) ?_
    rintro h (⟨hne', -⟩ | ⟨-, -, -, -, hs'⟩) hrun
    · exact absurd hinit hne'
    · exact absurd (hs'.symm.trans hrun) (by decide)
  · have hwr : Keeps (Holds Settled fun h => h = h₀) (Seen Settled)
      (maxRegWr rHCTL bmSAMPLEBUS : Prog χ Unit) := triple_quiet fun _ => ⟨_, _, rfl, rfl, rfl⟩
    exact hwr.conseq (fun _ hw => hw) fun _ _ hw => hw.mono fun _ hh => .inl ⟨hinit, hh⟩
  · exact triple_pure fun _ hw => hw.mono fun _ hh => .inl ⟨hinit, hh⟩

/-- With a clear table the device gets entry 1. -/
theorem triple_assignAddress (hs : s ≠ usbStateRunning) (fuel : Fuel) :
    Triple (Holds Settled fun h =>
        (h.runningdebugflag = 0 ∧ Clear h ∧ Rooted h) ∧ h.usbTaskState = s)
      (assignAddress fuel 1 : Prog χ Unit)
      (fun _ => Holds Settled fun h => (h.runningdebugflag = 0 ∧ OnlyFirst h) ∧
        (h.usbTaskState = usbStateConfiguring ∧ h.tmpAddr = 1 ∨ h.usbTaskState = usbStateError))
      (Seen Settled) := by
  let F : Host → Prop := fun h => h.runningdebugflag = 0 ∧ OnlyFirst h
  have hF : TableFact F := tableFact_onlyFirst
  have hC : Transfers (χ := χ) fun _ =>
      Keeps (Holds Settled fun h => F h ∧ h.usbTaskState = s) (Seen Settled) :=
    transfers_inState hF hs
  refine triple_bind triple_getHost fun h => triple_bind (triple_setHost
    (q := fun h => F h ∧ h.usbTaskState = s) ?_
    fun _ hh hr => absurd (hh.2.symm.trans hr) hs) fun _ => ?_
  -- entry 1 gets the table of address 0 before the device is asked
  · rintro h' ⟨rfl, ⟨hflag, hclear, hroot⟩, hstate⟩
    refine ⟨⟨hflag, fun i hi => ?_⟩, hstate⟩
    by_cases h1 : i = 1
    · subst h1
      rw [Host.setDev_self, hroot]
      exact ⟨fun _ => rfl, fun _ => nofun⟩
    · rw [Host.setDev_of_ne _ h1, hclear i hi]
      exact ⟨fun hne => absurd rfl hne, fun h => absurd h h1⟩
  refine triple_bind (hC.xferCtrlReq _ _ _ _ _ _ _ _ _ _) fun rcode =>
    triple_ite (fun _ => ?_) fun _ => (triple_setUsbError hF hs).conseq (fun _ hw => hw)
      fun _ _ hw => hw.mono fun _ hh => ⟨hh.1, .inr hh.2⟩
  refine triple_bind (triple_setHost (q := fun h => (F h ∧ h.tmpAddr = 1) ∧ h.usbTaskState = s)
    (fun h hh => ⟨⟨hF h _ rfl rfl hh.1, rfl⟩, hh.2⟩)
    fun _ hh hr => absurd (hh.2.symm.trans hr) hs) fun _ => ?_
  refine triple_setHost (fun h hh => ⟨hF h _ rfl rfl hh.1.1, .inl ⟨rfl, hh.1.2⟩⟩) ?_
  rintro h ⟨-, ⟨hs', -⟩ | hs'⟩ hr
  · exact absurd (hs'.symm.trans hr) (by decide)
  · exact absurd (hs'.symm.trans hr) (by decide)

/-- With a clear table the device gets address 1. -/
theorem triple_addressingTask (hs : s ≠ usbStateRunning) (fuel : Fuel) :
    Triple (Holds Settled fun h =>
        (h.runningdebugflag = 0 ∧ Clear h ∧ Rooted h) ∧ h.usbTaskState = s)
      (addressingTask fuel : Prog χ Unit) (fun _ => Holds Settled Worked) (Seen Settled) := by
  refine triple_bind triple_getHost fun h => triple_of_imp
    (c := Clear h) (fun w hw => hw.1.2.1.2.1) fun hclear => ?_
  -- the table is clear, so the search stops at its first entry
  have hfree : freeEntry h = some 1 := by
    rw [freeEntry, addresses, List.find?_cons, hclear 1 (by decide)]
    rfl
  rw [hfree]
  refine triple_bind ((triple_assignAddress hs fuel).conseq
    (fun w hw => hw.mono fun h' hh => hh.1 ▸ hh.2) fun _ _ hw => hw)
      fun _ => triple_bind triple_getHost fun h => ?_
  refine triple_when (fun hstate => triple_of_imp (c := False) ?_ False.elim) fun _ w hw =>
    hw.mono fun h' hh => ?_
  · rintro w ⟨⟨-, -, ⟨hs', -⟩ | hs'⟩, -⟩
    · exact absurd (hs'.symm.trans hstate) (by decide)
    · exact absurd (hs'.symm.trans hstate) (by decide)
  · obtain ⟨rfl, hfacts, ⟨hs', htmp⟩ | hs'⟩ := hh
    · refine .assigned hfacts.1 hfacts.2 (.inl ⟨?_, ?_, htmp⟩)
      · rw [hs']
        decide
      · rw [hs']
        decide
    · exact .assigned hfacts.1 hfacts.2 (.inr (.inl hs'))

omit [Platform χ] in
/-- The probes that are tried keep the device at address 1. -/
theorem triple_runProbes {probes : List (BYTE → Prog χ Bool)}
    (hprobes : ∀ probe ∈ probes, Triple (Holds Settled Probing) (probe 1)
      (fun b => Holds Settled (Probed b)) (Seen Settled)) :
    Triple (Holds Settled Probing) (runProbes probes)
      (fun _ => Holds Settled fun h =>
        Probing h ∨ h.usbTaskState = usbStateRunning ∧ AtAddressOne h) (Seen Settled) := by
  induction probes with
  | nil => exact triple_pure fun _ hw => hw.mono fun _ hh => .inl hh
  | cons probe rest ih =>
    refine triple_bind triple_getHost fun h => triple_of_imp (c := h.tmpAddr = 1)
      (fun w hw => hw.1.2.tmpAddr) fun htmp => ?_
    rw [htmp]
    refine triple_bind ((hprobes probe List.mem_cons_self).conseq
      (fun w hw => hw.mono fun h' hh => hh.1 ▸ hh.2) fun _ _ hw => hw) fun b => ?_
    refine triple_ite (fun hb => triple_setHost (fun h hh => .inr ⟨rfl, ?_⟩) ?_) fun hb => ?_
    · exact (hh.2 hb).setState _
    · rintro h (hh | hh) hr
      · exact hh.settled hr
      · exact hh.2
    · exact (ih fun probe hmem => hprobes probe (List.mem_cons_of_mem _ hmem)).conseq
        (fun w hw => hw.mono fun h hh => hh.1) fun _ _ hw => hw

theorem triple_configuringTask (fuel : Fuel) :
    Triple (Holds Settled Probing) (configuringTask fuel : Prog χ Unit)
      (fun _ => Holds Settled Worked) (Seen Settled) := by
  have hfalse : Triple (Holds Settled Probing) (pure false : Prog χ Bool)
      (fun b => Holds Settled (Probed b)) (Seen Settled) :=
    triple_pure fun w hw => hw.mono fun h hh => ⟨hh, nofun⟩
  refine triple_bind (triple_runProbes fun probe hmem => ?_) fun _ =>
    triple_bind triple_getHost fun h => triple_when (fun hstate => ?_) fun hstate w hw => ?_
  · simp only [clientDriverTable, List.mem_cons, List.not_mem_nil, or_false] at hmem
    obtain rfl | rfl | rfl | rfl := hmem
    · exact hfalse
    · exact triple_hidProbe (.inr rfl) fuel hidProtocolMouse
    · exact triple_hidProbe (.inl rfl) fuel hidProtocolKeyboard
    · exact hfalse
  · have herror : Triple (Holds Settled fun h =>
        (h.runningdebugflag = 0 ∧ OnlyFirst h) ∧ h.usbTaskState = usbStateConfiguring)
        (setUsbError 0xfd : Prog χ Unit) _ (Seen Settled) :=
      triple_setUsbError tableFact_onlyFirst (by decide)
    refine herror.conseq (fun w hw => hw.mono ?_) fun _ w hw =>
      hw.mono fun h hh => .assigned hh.1.1 hh.1.2 (.inr (.inl hh.2))
    rintro h' ⟨rfl, hprobing | hrunning⟩
    · exact ⟨⟨hprobing.flag, hprobing.only⟩, hstate⟩
    · exact absurd (hstate.symm.trans hrunning.1) (by decide)
  · refine hw.mono ?_
    rintro h' ⟨rfl, hprobing | hrunning⟩
    · exact .assigned hprobing.flag hprobing.only
        (.inl ⟨hprobing.state.1, hprobing.state.2, hprobing.tmpAddr⟩)
    · exact .running hrunning.1 hrunning.2

/-! ### The groups of states -/

theorem leftStates_group : ∀ s ∈ leftStates,
    s &&& usbStateMask ≠ usbStateAddressing ∧ s &&& usbStateMask ≠ usbStateConfiguring ∧
      s ≠ usbStateRunning ∧ s ≠ usbStateError := by
  decide

theorem leftStates_attached : ∀ s ∈ leftStates,
    s &&& usbStateMask = usbStateAttached → ¬usbAttachedSubstateResetDevice ≤ s := by
  decide

theorem unassigned_group : ∀ s : BYTE,
    (s ≤ usbStateAddressing + 1 ∨ s = usbStateError) →
      s &&& usbStateMask ≠ usbStateConfiguring ∧
      (s &&& usbStateMask ≠ usbStateAddressing → s ≤ usbStateAddressing ∨ s = usbStateError) := by
  decide

theorem configuring_group : ∀ s : BYTE, usbStateConfiguring ≤ s ∧ s ≤ 0x3f →
    s &&& usbStateMask = usbStateConfiguring := by
  decide

/-- Where the table may have an entry, the task is in no state in which it attaches a device
or gives it an address. -/
theorem Interrupted.unassigned_of_group {h : Host} (hi : Interrupted h)
    (hgroup : h.usbTaskState &&& usbStateMask = usbStateAttached ∨
      h.usbTaskState &&& usbStateMask = usbStateAddressing) :
    (h.runningdebugflag ≠ 0 ∧ h.usbTaskState ∈ leftStates) ∨
      (h.runningdebugflag = 0 ∧ Clear h ∧ Rooted h) := by
  cases hi with
  | running hs _ =>
    rw [hs] at hgroup
    exact absurd hgroup (by decide)
  | left hflag hs => exact .inl ⟨hflag, hs⟩
  | unassigned hflag hclear hroot _ => exact .inr ⟨hflag, hclear, hroot⟩
  | assigned _ _ hs =>
    obtain hc | hs | hs | hs := hs
    · rw [configuring_group _ ⟨hc.1, hc.2.1⟩] at hgroup
      exact absurd hgroup (by decide)
    · rw [hs] at hgroup
      exact absurd hgroup (by decide)
    · rw [hs] at hgroup
      exact absurd hgroup (by decide)
    · rw [hs] at hgroup
      exact absurd hgroup (by decide)

theorem Interrupted.probing {h : Host} (hi : Interrupted h)
    (hgroup : h.usbTaskState &&& usbStateMask = usbStateConfiguring) : Probing h := by
  cases hi with
  | running hs _ =>
    rw [hs] at hgroup
    exact absurd hgroup (by decide)
  | left _ hs => exact absurd hgroup (leftStates_group _ hs).2.1
  | unassigned _ _ _ hs => exact absurd hgroup (unassigned_group _ hs).1
  | assigned hflag honly hs =>
    obtain hc | hs | hs | hs := hs
    · exact ⟨hflag, ⟨hc.1, hc.2.1⟩, hc.2.2, honly⟩
    · rw [hs] at hgroup
      exact absurd hgroup (by decide)
    · rw [hs] at hgroup
      exact absurd hgroup (by decide)
    · rw [hs] at hgroup
      exact absurd hgroup (by decide)

/-- The task has done nothing. -/
theorem Interrupted.unchanged {h : Host} (hi : Interrupted h)
    (haddressing : h.usbTaskState &&& usbStateMask ≠ usbStateAddressing)
    (hinit : h.usbTaskState ≠ usbDetachedSubstateInitialize) : Worked h := by
  cases hi with
  | running hs ht => exact .running hs ht
  | left hflag hs =>
    exact .left hflag (leftStates_group _ hs).2.2.1 (leftStates_group _ hs).2.2.2
  | unassigned hflag hclear hroot hs =>
    exact .unassigned hflag hclear hroot ((unassigned_group _ hs).2 haddressing)
  | assigned hflag honly hs =>
    obtain hc | hs | hs | hs := hs
    · exact .assigned hflag honly (.inl hc)
    · exact .assigned hflag honly (.inr (.inl hs))
    · exact .assigned hflag honly (.inr (.inr hs))
    · exact absurd hs hinit

/-- The table has been cleared. -/
theorem worked_of_clear {h : Host} (hclear : Clear h) (hroot : Rooted h)
    (hs : h.usbTaskState = usbDetachedSubstateWaitForDevice) : Worked h := by
  by_cases hflag : h.runningdebugflag = 0
  · exact .unassigned hflag hclear hroot (.inl (by rw [hs]; decide))
  · exact .left hflag (by rw [hs]; decide) (by rw [hs]; decide)

/-- The device has just been running, or it is attached to a clear table. -/
theorem triple_attachedGroup {h : Host} (hi : Interrupted h)
    (ha : h.usbTaskState &&& usbStateMask = usbStateAttached) (fuel : Fuel) :
    Triple (Holds Settled fun h' => h' = h ∧ Interrupted h)
      (attachedTask fuel h.usbTaskState : Prog χ Unit) (fun _ => Holds Settled Worked)
      (Seen Settled) := by
  obtain ⟨hflag, hs⟩ | hfacts := hi.unassigned_of_group (.inl ha)
  · refine (triple_attachedTask tableFact_left ha fuel).conseq
      (fun w hw => hw.at_read ⟨hflag, rfl⟩) fun _ w hw => hw.mono ?_
    rintro h' ⟨hflag', hnext⟩
    obtain hsame | hsettle | hreset | ⟨hge, -⟩ := hnext
    · rw [← hsame] at hs
      exact .left hflag' (leftStates_group _ hs).2.2.1 (leftStates_group _ hs).2.2.2
    · exact .left hflag' (by rw [hsettle]; decide) (by rw [hsettle]; decide)
    · exact .left hflag' (by rw [hreset]; decide) (by rw [hreset]; decide)
    · exact absurd hge (leftStates_attached _ hs ha)
  · refine (triple_attachedTask tableFact_clear ha fuel).conseq
      (fun w hw => hw.at_read ⟨hfacts, rfl⟩) fun _ w hw => hw.mono ?_
    rintro h' ⟨⟨hflag', hclear, hroot⟩, hnext⟩
    refine .unassigned hflag' hclear hroot ?_
    obtain hsame | hsettle | hreset | ⟨-, hlow⟩ := hnext
    · have hle : ∀ s : BYTE, s &&& usbStateMask = usbStateAttached →
          s ≤ usbStateAddressing := by
        decide
      exact .inl (hsame ▸ hle _ ha)
    · exact .inl (by rw [hsettle]; decide)
    · exact .inl (by rw [hreset]; decide)
    · exact hlow

theorem triple_usbTask (fuel : Fuel) :
    Triple (Holds Settled Interrupted) (usbTask fuel : Prog χ Unit)
      (fun _ => Holds Settled Worked) (Seen Settled) := by
  refine triple_bind (triple_quiet fun _ => ⟨_, _, rfl, rfl, rfl⟩) fun _ =>
    triple_bind triple_getHost fun h => triple_of_imp (c := Interrupted h)
      (fun w hw => hw.1.2) fun hi => ?_
  refine triple_ite (fun hd => ?_) fun hd => triple_ite (fun ha => ?_) fun ha =>
    triple_ite (fun hg => ?_) fun hg => triple_ite (fun hc => ?_) fun hc => ?_
  · refine (triple_detachedTask h).conseq (fun w hw => hw.mono fun _ hh => hh.1)
      fun _ w hw => hw.mono ?_
    rintro h' (⟨hinit, rfl⟩ | ⟨-, hclear, hroot, -, hs⟩)
    · refine hi.unchanged ?_ hinit
      rw [hd]
      decide
    · exact worked_of_clear hclear hroot hs
  · exact triple_attachedGroup hi ha fuel
  · have hfacts : h.runningdebugflag = 0 ∧ Clear h ∧ Rooted h := by
      obtain ⟨-, hs⟩ | hfacts := hi.unassigned_of_group (.inr hg)
      · exact absurd hg (leftStates_group _ hs).1
      · exact hfacts
    have hrun : h.usbTaskState ≠ usbStateRunning := by
      intro hrun
      rw [hrun] at hg
      exact absurd hg (by decide)
    exact (triple_addressingTask hrun fuel).conseq
      (fun w hw => hw.at_read ⟨hfacts, rfl⟩) fun _ _ hw => hw
  · exact (triple_configuringTask fuel).conseq
      (fun w hw => hw.at_read (hi.probing hc)) fun _ _ hw => hw
  · refine triple_pure fun w hw => hw.at_read (hi.unchanged hg ?_)
    intro hinit
    rw [hinit] at hd
    exact absurd hd (by decide)

end Task

end TetrisFpga.Usb
