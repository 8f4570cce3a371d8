import TetrisFpga.Usb.Enumeration

/-!
# The enumeration in the main loop

A round keeps the log in order unless a bus event steps the task past one of its waits, or the
task takes any value of `HIRQ` for a start of frame: the test in WAIT_SOF is always true.
-/

namespace TetrisFpga.Usb
open Program History

/-- The states in which the task has not yet seen a start of frame. -/
def waitStates : List BYTE :=
  [usbStateAttached, usbAttachedSubstateSettle, usbAttachedSubstateResetDevice,
    usbAttachedSubstateWaitResetComplete, usbAttachedSubstateWaitSof]

/-- A bus event does not step the task past a wait: if the connection has changed as well, the
bus is not pulled, and else the task does not wait. -/
def NotPastWait (h : Host) (hirq sample : BYTE) : Prop :=
  hirq &&& bmBUSEVENTIRQ ≠ 0 →
    if hirq &&& bmCONDETIRQ ≠ 0 then sample ≠ bmJSTATUS ∧ sample ≠ bmKSTATUS
    else h.usbTaskState ∉ waitStates

instance (h : Host) (hirq sample : BYTE) : Decidable (NotPastWait h hirq sample) :=
  inferInstanceAs (Decidable (_ → ite ..))

section Run

variable {χ : Type} [Platform χ] {p : Host → Prop} {F : List Event → Prop}

/-- The value of `HIRQ` that `USB_Task` reads in WAIT_SOF has the bit of a start of frame. -/
def FrameStarted (w : World χ) : Prop :=
  w.host.usbTaskState = usbAttachedSubstateWaitSof →
    (Platform.rd (Platform.stack w.chip).2 rHIRQ).1 &&& bmFRAMEIRQ ≠ 0

instance (w : World χ) : Decidable (FrameStarted w) := inferInstanceAs (Decidable (_ → _))

/-- The coming round goes past no wait: its interrupt does not, and behind it a start of frame
is there when the task looks for one. -/
def Timely (w : World χ) : Prop :=
  (∀ r ∈ irqReads w.chip, NotPastWait w.host r.1 r.2) ∧
    match max3421eTask w with
    | .ok _ w' => FrameStarted w'
    | .error _ _ => True

instance (w : World χ) : Decidable (Timely w) := by
  have : Decidable (∀ r ∈ irqReads w.chip, NotPastWait w.host r.1 r.2) :=
    Option.decidableForallMem (irqReads w.chip)
  unfold Timely
  split <;> infer_instance

/-! ## The states in which everything is known -/

/-- The log is in order, in any state. -/
abbrev Plain : World χ → Prop := Stage (fun _ => True) fun _ => True

/-- The log is in order and the device may be addressed. -/
abbrev Working : World χ → Prop :=
  Stage (fun h => usbAttachedSubstateGetDeviceDescriptorSize ≤ h.usbTaskState) fun _ => True

omit [Platform χ] in
theorem Stage.plain {w : World χ} (hw : Stage p F w) : Plain w :=
  hw.mono (fun _ _ => trivial) fun _ _ => trivial

omit [Platform χ] in
/-- Everything is known, so a SETUP token may be sent. -/
theorem triple_event {α : Type} {x : Prog χ α}
    (hx : ∀ w, ∃ a w' e, x w = .ok a w' ∧ w'.host = w.host ∧ w'.log = e :: w.log ∧
      e.snapshot = none) : Keeps Working Kept x where
  ok w a w' hw hr := by
    obtain ⟨b, w₁, e, hr', hhost, hlog, he⟩ := hx w
    cases hr'.symm.trans hr
    exact hw.event hhost hlog he (fun _ => hw.2.1) fun _ h => h
  error w e w' _ hr := by
    obtain ⟨b, w₁, e, hr', -⟩ := hx w
    cases hr'.symm.trans hr

/-- The requests, the probes and the polls are in order there. -/
theorem tasks_working : Tasks (χ := χ) fun _ => Keeps Working Kept := by
  have hthrow {α : Type} (e : Fault) :
      Keeps Working Kept (throw e : Prog χ α) :=
    triple_throw fun _ hw => hw.1.inOrder
  have hassign (f : Host → Host) (hf : LeavesTask f) :
      Keeps Working Kept (setHost f : Prog χ Unit) := by
    refine triple_assign (fun h hp => ?_) (fun h since _ _ hn => ?_) (fun _ _ h => h)
      fun h _ henters => .inr fun _ => trivial
    · rw [(hf h).1]
      exact hp
    · rw [(hf h).1, (hf h).2]
      exact hn
  exact {
    toClosed := closed_keeps _ _
    hirq := triple_event fun _ => ⟨_, _, _, rfl, rfl, rfl, rfl⟩
    hrsl := triple_event fun _ => ⟨_, _, _, rfl, rfl, rfl, rfl⟩
    wr := fun _ _ => triple_event fun _ => ⟨_, _, _, rfl, rfl, rfl, rfl⟩
    nticks := triple_event fun _ => ⟨_, _, _, rfl, rfl, rfl, rfl⟩
    wait := hthrow _
    dispatch := hthrow _
    rd := fun _ => triple_event fun _ => ⟨_, _, _, rfl, rfl, rfl, rfl⟩
    load := fun _ => triple_event fun _ => ⟨_, _, _, rfl, rfl, rfl, rfl⟩
    store := fun _ _ => triple_event fun _ => ⟨_, _, _, rfl, rfl, rfl, rfl⟩
    getHost := triple_still fun _ => ⟨_, _, rfl, rfl, rfl⟩
    setEp := fun _ _ _ => hassign _ fun _ => ⟨rfl, rfl⟩
    transfer := hthrow _
    deref := hthrow _
    access := fun _ _ => triple_event fun _ => ⟨_, _, _, rfl, rfl, rfl, rfl⟩
    assign := hassign
    -- the states that are set here lie behind the three waits
    setState := fun s hs => by
      have hwork := (by decide : ∀ s ∈ workStates,
        usbAttachedSubstateGetDeviceDescriptorSize ≤ s) s hs
      exact triple_assign (fun _ _ => hwork) (fun _ _ hp _ hn => hn.work hp hwork)
        (fun _ _ h => h) fun _ _ _ => .inr fun _ => trivial
    declare := fun _ => triple_still fun _ => ⟨_, _, rfl, rfl, rfl⟩
    getPio := triple_still fun _ => ⟨_, _, rfl, rfl, rfl⟩
    setPio := fun _ => triple_still fun _ => ⟨_, _, rfl, rfl, rfl⟩
    walk := hthrow _ }

/-! ## The driver of the chip -/

omit [Platform χ] in
/-- A state is entered, and what it needs is known. -/
theorem triple_setState {s : BYTE}
    (hneed : ∀ h since, p h → F since → Need s h.usbDelay since) :
    Triple (Stage p F) (setUsbTaskState s : Prog χ Unit) (fun _ => Plain) Kept :=
  triple_assign (fun _ _ => trivial) (fun h since hp hF _ => hneed h since hp hF)
    (fun _ _ _ => trivial) fun _ _ _ => .inr fun _ => trivial

omit [Platform χ] in
theorem triple_assignPlain {f : Host → Host} (hf : LeavesTask f) :
    Keeps Plain Kept (setHost f : Prog χ Unit) := by
  refine triple_assign (fun _ _ => trivial) (fun h since _ _ hn => ?_) (fun _ _ h => h)
    fun _ _ _ => .inr fun _ => trivial
  rw [(hf h).1, (hf h).2]
  exact hn

theorem triple_rdPlain (reg : BYTE) :
    Keeps Plain Kept (maxRegRd reg : Prog χ BYTE) :=
  triple_rdReg fun _ _ h => h

theorem triple_wrPlain {reg : BYTE} (hreg : reg ≠ rHXFR) (val : BYTE) :
    Keeps Plain Kept (maxRegWr reg val : Prog χ Unit) :=
  triple_wrReg hreg fun _ h => h

omit [Platform χ] in
theorem triple_getPlain : Keeps Plain Kept (getHost : Prog χ Host) :=
  triple_still fun _ => ⟨_, _, rfl, rfl, rfl⟩

theorem triple_probe_inOrder :
    Keeps Plain Kept (maxBusprobe : Prog χ Unit) :=
  maxBusprobe_mem (closed_keeps Plain Kept) (fun reg _ => triple_rdPlain reg)
    (triple_wrPlain (by decide)) triple_getPlain fun _ hs =>
      triple_setState fun _ since _ _ => need_low hs _ since

/-- The states a probe of a bus that is not pulled leads to. -/
theorem probedState_notWait {sample s : BYTE} (hJ : sample ≠ bmJSTATUS) (hK : sample ≠ bmKSTATUS) :
    probedState sample s ∉ waitStates := by
  rw [probedState, if_neg (not_or.mpr ⟨hJ, hK⟩)]
  split_ifs <;> decide

theorem notWait_succ : ∀ s : BYTE, s ∉ waitStates →
    s + 1 ≤ usbStateAttached ∨
      (usbAttachedSubstateGetDeviceDescriptorSize ≤ s ∧
        usbAttachedSubstateGetDeviceDescriptorSize ≤ s + 1) := by
  decide

theorem triple_handler_inOrder :
    Triple (fun w => Plain w ∧ NotPastWait w.host (handlerReads w.chip).1 (handlerReads w.chip).2)
      (maxIntHandler : Prog χ Unit) (fun _ => Plain) Kept := by
  refine triple_bind (Q := fun hirq w => Plain w ∧ NotPastWait w.host hirq (sampleOf w.chip))
    ⟨?_, ?_⟩ fun hirq => ?_
  · intro w hirq w' hw hr
    cases hr
    exact ⟨hw.1.event rfl rfl rfl False.elim fun _ h => h, hw.2⟩
  · intro w e w' _ hr
    cases hr
  -- the bus event finds the state that the probe leaves
  let q : Host → Prop := fun h => hirq &&& bmBUSEVENTIRQ ≠ 0 → h.usbTaskState ∉ waitStates
  have hkeep : Keeps (Stage q fun _ => True) Kept (when (hirq &&& bmSNDBAVIRQ ≠ 0)
      (maxRegWr rSNDBC 0x00) : Prog χ Unit) :=
    triple_when (fun _ => triple_wrReg (by decide) fun _ h => h) fun _ _ hw => hw
  refine triple_bind (Q := fun _ => Stage q fun _ => True) (triple_when (fun hc => ?_)
    fun hc w hw => ?_) fun _ => triple_bind hkeep fun _ => ?_
  · have hprobe := (triple_probe_inOrder (χ := χ)).and (triple_maxBusprobe (S := fun _ => True)
      (p := fun _ => True) (q := q) (fun sample => hirq &&& bmBUSEVENTIRQ ≠ 0 →
        sample ≠ bmJSTATUS ∧ sample ≠ bmKSTATUS)
      (fun h sample _ hok hbus => probedState_notWait (hok hbus).1 (hok hbus).2)
      fun _ _ => trivial)
    refine ⟨fun w a w' hw hr => ?_, fun w e w' hw hr => ?_⟩
    · have hok : hirq &&& bmBUSEVENTIRQ ≠ 0 →
          sampleOf w.chip ≠ bmJSTATUS ∧ sampleOf w.chip ≠ bmKSTATUS := by
        intro hbus
        have hnot := hw.2 hbus
        rwa [if_pos hc] at hnot
      have hpost := hprobe.ok w a w' ⟨hw.1, ⟨trivial, fun _ _ => trivial⟩, hok⟩ hr
      exact ⟨hpost.1.1, hpost.2.1, fun _ _ => trivial⟩
    · exact triple_probe_inOrder.error w e w' hw.1 hr
  · refine ⟨hw.1.1, fun hbus => ?_, fun _ _ => trivial⟩
    have hnot := hw.2 hbus
    rwa [if_neg hc] at hnot
  -- a step out of a state that is no wait leads to ATTACHED at most, or stays behind the waits
  · refine triple_bind (Q := fun _ => Plain) (triple_when (fun hbus => ?_)
      fun _ _ hw => hw.plain) fun _ => triple_wrPlain (by decide) _
    refine triple_assign (fun _ _ => trivial) (fun h since hp _ hn => ?_) (fun _ _ h => h)
      fun _ _ _ => .inr fun _ => trivial
    obtain hlow | ⟨hwork, hwork'⟩ := notWait_succ _ (hp hbus)
    · exact need_low hlow _ since
    · exact hn.work hwork hwork'

theorem triple_irq_inOrder :
    Triple (fun w => Plain w ∧ ∀ r ∈ irqReads w.chip, NotPastWait w.host r.1 r.2)
      (max3421eTask : Prog χ Unit) (fun _ => Plain) Kept := by
  refine triple_bind (Q := fun irq w => Plain w ∧
    (irq = 0 → NotPastWait w.host (handlerReads w.chip).1 (handlerReads w.chip).2)) ⟨?_, ?_⟩
    fun irq => ?_
  · intro w irq w' hw hr
    cases hr
    refine ⟨hw.1.event rfl rfl rfl False.elim fun _ h => h, fun h0 => hw.2 _ ?_⟩
    rw [irqReads, if_pos h0]
    rfl
  · intro w e w' _ hr
    cases hr
  refine triple_bind (Q := fun _ => Plain) (triple_when (fun h0 => ?_) fun _ _ hw => hw.1)
    fun _ => ?_
  · exact triple_handler_inOrder.conseq (fun w hw => ⟨hw.1, hw.2 h0⟩) fun _ _ hw => hw
  · have hgpx : Keeps Plain Kept (usbGpx : Prog χ BYTE) := by
      refine ⟨fun w gpx w' hw hr => ?_, fun w e w' _ hr => ?_⟩
      · cases hr
        exact hw.event rfl rfl rfl False.elim fun _ h => h
      · cases hr
    refine triple_bind hgpx fun gpx => triple_when (fun _ => ?_) fun _ _ hw => hw
    exact triple_bind (triple_rdPlain _) fun _ => triple_pure fun _ hw => hw

omit [Platform χ] in
theorem closed_plain : Closed fun α (x : Prog χ α) => Keeps Plain Kept x :=
  closed_keeps _ _

theorem triple_max3421eInit_inOrder (fuel : Fuel) :
    Keeps Plain Kept (max3421eInit fuel : Prog χ Unit) := by
  have hrst (v : BYTE) : Keeps Plain Kept (usbRst v : Prog χ Unit) := by
    refine ⟨fun w _ w' hw hr => ?_, fun w e w' _ hr => ?_⟩
    · cases hr
      exact hw.event rfl rfl rfl False.elim fun _ h => h
    · cases hr
  have hinit := max3421eInit_mem closed_plain (fun _ val hreg _ => triple_wrPlain hreg val)
    triple_rdPlain hrst (triple_throw fun _ hw => hw.1.inOrder) triple_probe_inOrder fuel
  exact hinit

omit [Platform χ] in
theorem triple_usbInit_inOrder : Keeps Plain Kept (usbInit : Prog χ Unit) := by
  have husb := usbInit_mem (closed_plain (χ := χ)) fun _ hf => triple_assignPlain hf
  exact husb

/-! ## The states of the enumeration -/

/-- The variables are `h₀`, and the task knows what its state says. -/
abbrev Known (h₀ : Host) : World χ → Prop :=
  Stage (fun h => h = h₀) (Need h₀.usbTaskState h₀.usbDelay)

omit [Platform χ] in
theorem Stage.known {w : World χ} (hw : Stage p F w) : Known w.host w :=
  ⟨hw.1, rfl, hw.1.need⟩

theorem triple_attached_inOrder {h₀ : Host} (hs : h₀.usbTaskState = usbStateAttached) :
    Triple (Known h₀) (do
        let now ← altMs
        setHost fun h => { h with usbDelay := now + 200 }
        setUsbTaskState usbAttachedSubstateSettle : Prog χ Unit) (fun _ => Plain) Kept := by
  refine triple_bind (triple_clock (G := fun now since => ∃ a ∈ clocks since, now = ms a)
    fun t since _ => ⟨t, List.mem_cons_self, rfl⟩) fun now => ?_
  refine triple_bind (Q := fun _ => Stage (fun h => h.usbDelay = now + 200)
    fun since => ∃ a ∈ clocks since, now = ms a) ?_ fun _ => triple_setState ?_
  · refine triple_assign (fun _ _ => rfl) (fun h since hp _ _ => ?_) (fun h since hF => ?_)
      fun h hp _ => .inl (hp ▸ hs)
    · exact need_low (by rw [hp, hs]; decide) _ since
    · obtain ⟨a, ha, hnow⟩ := hF
      exact ⟨a, clocks_cons ha _, hnow⟩
  · rintro h since hdelay ⟨a, ha, rfl⟩
    exact {
      settle := fun _ => ⟨a, ha, hdelay ▸ ms_add_toNat a (by decide)⟩
      waited := fun h => absurd h (by decide)
      issued := fun h => absurd h (by decide)
      seen := fun h => absurd h (by decide)
      sof := fun h => absurd h (by decide) }

theorem triple_settle_inOrder {h₀ : Host} (hs : h₀.usbTaskState = usbAttachedSubstateSettle) :
    Triple (Known h₀) (do
        let now ← altMs
        if now > (← getHost).usbDelay then
          setUsbTaskState usbAttachedSubstateResetDevice : Prog χ Unit) (fun _ => Plain) Kept := by
  refine triple_bind (triple_clock (G := fun now since => h₀.usbDelay < now → Waited since) ?_)
    fun now => triple_bind triple_readHost fun h => triple_ite (fun hlate => ?_)
      fun _ => triple_pure fun _ hw => hw.plain
  · intro t since hneed hlate
    obtain ⟨a, ha, hdelay⟩ := hneed.settle hs
    have hlt : h₀.usbDelay.toNat < (ms t).toNat := hlate
    exact .inl ⟨t, rfl, a, ha, by omega⟩
  · refine triple_setState fun h' since hp hF => ?_
    exact {
      settle := fun h => absurd h (by decide)
      waited := fun _ => hF (hp.2 ▸ hlate)
      issued := fun h => absurd h (by decide)
      seen := fun h => absurd h (by decide)
      sof := fun h => absurd h (by decide) }

theorem triple_resetDevice_inOrder {h₀ : Host}
    (hs : h₀.usbTaskState = usbAttachedSubstateResetDevice) :
    Triple (Known h₀) (do
        maxRegWr rHIRQ bmBUSEVENTIRQ
        maxRegWr rHCTL bmBUSRST
        setUsbTaskState usbAttachedSubstateWaitResetComplete : Prog χ Unit) (fun _ => Plain)
      Kept := by
  refine triple_bind (triple_wrReg (by decide) (G := Waited) fun since hneed => ?_) fun _ => ?_
  · exact .inr (hneed.waited (by rw [hs]; decide))
  refine triple_bind (triple_wrReg (by decide) (G := fun since => Waited since ∧
    ResetIssued since) fun since hwaited => ?_) fun _ => triple_setState fun h since _ hF => ?_
  · exact ⟨.inr hwaited, .inl ⟨rfl, by decide⟩⟩
  · exact {
      settle := fun h => absurd h (by decide)
      waited := fun _ => hF.1
      issued := fun _ => hF.2
      seen := fun h => absurd h (by decide)
      sof := fun h => absurd h (by decide) }

theorem triple_resetComplete_inOrder {h₀ : Host}
    (hs : h₀.usbTaskState = usbAttachedSubstateWaitResetComplete) :
    Triple (Known h₀) (do
        if (← maxRegRd rHCTL) &&& bmBUSRST = 0 then
          let tmpdata := (← maxRegRd rMODE) ||| bmSOFKAENAB
          maxRegWr rMODE tmpdata
          setUsbTaskState usbAttachedSubstateWaitSof : Prog χ Unit) (fun _ => Plain) Kept := by
  let Done : List Event → Prop := fun since => Waited since ∧ ResetIssued since ∧ ResetSeen since
  have hcons {since : List Event} (hd : Done since) (e : Event) : Done (e :: since) :=
    ⟨.inr hd.1, .inr hd.2.1, .inr hd.2.2⟩
  refine triple_bind (triple_rdReg (G := fun val since => val &&& bmBUSRST = 0 → Done since) ?_)
    fun val => triple_ite (fun hclear => ?_) fun _ => triple_pure fun _ hw => hw.plain
  · intro val since hneed hclear
    have hissued := hneed.issued (by rw [hs]; decide)
    exact ⟨.inr (hneed.waited (by rw [hs]; decide)), .inr hissued, .inl ⟨⟨rfl, hclear⟩, hissued⟩⟩
  refine triple_bind (triple_rdReg (G := fun _ => Done) ?_) fun _ => ?_
  · exact fun _ since hdone => hcons (hdone hclear) _
  refine triple_bind (triple_wrReg (by decide) (G := Done) fun since hdone => hcons hdone _)
    fun _ => triple_setState fun h since _ hdone => ?_
  exact {
    settle := fun h => absurd h (by decide)
    waited := fun _ => hdone.1
    issued := fun _ => hdone.2.1
    seen := fun _ => hdone.2.2
    sof := fun h => absurd h (by decide) }

/-- The test itself is always true: that a frame has started is a fact about the value. -/
theorem triple_sof_inOrder {h₀ : Host} (hs : h₀.usbTaskState = usbAttachedSubstateWaitSof) :
    Triple (fun w => Known h₀ w ∧ (Platform.rd w.chip rHIRQ).1 &&& bmFRAMEIRQ ≠ 0) (do
        if (← maxRegRd rHIRQ) ||| bmFRAMEIRQ ≠ 0 then
          setUsbTaskState usbAttachedSubstateGetDeviceDescriptorSize : Prog χ Unit)
      (fun _ => Plain) Kept := by
  let Done : List Event → Prop := fun since =>
    Waited since ∧ ResetIssued since ∧ ResetSeen since ∧ SofSeen since
  refine triple_bind (Q := fun _ => Stage (fun h => h = h₀) Done) ⟨?_, ?_⟩ fun val =>
    triple_ite (fun _ => ?_) fun _ => triple_pure fun _ hw => hw.plain
  · intro w val w' hw hr
    cases hr
    refine hw.1.event rfl rfl rfl False.elim fun since hneed => ?_
    have hseen := hneed.seen (by rw [hs]; decide)
    exact ⟨.inr (hneed.waited (by rw [hs]; decide)), .inr (hneed.issued (by rw [hs]; decide)),
      .inr hseen, .inl ⟨⟨rfl, hw.2⟩, hseen⟩⟩
  · intro w e w' _ hr
    cases hr
  · refine triple_setState fun h since _ hdone => ?_
    exact {
      settle := fun h => absurd h (by decide)
      waited := fun _ => hdone.1
      issued := fun _ => hdone.2.1
      seen := fun _ => hdone.2.2.1
      sof := fun _ => hdone.2.2.2 }

theorem triple_attachedTask_inOrder (fuel : Fuel) (h₀ : Host) :
    Triple (fun w => Known h₀ w ∧ (h₀.usbTaskState = usbAttachedSubstateWaitSof →
        (Platform.rd w.chip rHIRQ).1 &&& bmFRAMEIRQ ≠ 0))
      (attachedTask fuel h₀.usbTaskState : Prog χ Unit) (fun _ => Plain) Kept := by
  refine triple_ite (fun hs => ?_) fun _ => triple_ite (fun hs => ?_) fun _ =>
    triple_ite (fun hs => ?_) fun _ => triple_ite (fun hs => ?_) fun _ =>
    triple_ite (fun hs => ?_) fun _ => triple_ite (fun hs => ?_) fun _ =>
      triple_pure fun _ hw => hw.1.plain
  · exact (triple_attached_inOrder hs).conseq (fun _ hw => hw.1) fun _ _ hw => hw
  · exact (triple_settle_inOrder hs).conseq (fun _ hw => hw.1) fun _ _ hw => hw
  · exact (triple_resetDevice_inOrder hs).conseq (fun _ hw => hw.1) fun _ _ hw => hw
  · exact (triple_resetComplete_inOrder hs).conseq (fun _ hw => hw.1) fun _ _ hw => hw
  · exact (triple_sof_inOrder hs).conseq (fun _ hw => ⟨hw.1, hw.2 hs⟩) fun _ _ hw => hw
  · refine (tasks_working.getDeviceDescriptor fuel).conseq (fun w hw => ?_)
      fun _ _ hw => hw.plain
    exact hw.1.mono (fun h hh => by rw [hh, hs]; decide) fun _ _ => trivial

theorem triple_usbTask_inOrder (fuel : Fuel) :
    Triple (fun w => Plain w ∧ FrameStarted w) (usbTask fuel : Prog χ Unit) (fun _ => Plain)
      Kept := by
  refine triple_bind (Q := fun _ w => Plain w ∧
    (w.host.usbTaskState = usbAttachedSubstateWaitSof →
      (Platform.rd w.chip rHIRQ).1 &&& bmFRAMEIRQ ≠ 0)) ⟨?_, ?_⟩ fun _ => ?_
  · intro w _ w' hw hr
    cases hr
    exact hw
  · intro w e w' _ hr
    cases hr
  refine triple_bind (Q := fun h w => Known h w ∧ (h.usbTaskState = usbAttachedSubstateWaitSof →
    (Platform.rd w.chip rHIRQ).1 &&& bmFRAMEIRQ ≠ 0)) ⟨?_, ?_⟩ fun h₀ => ?_
  · intro w h w' hw hr
    cases hr
    exact ⟨hw.1.known, hw.2⟩
  · intro w e w' _ hr
    cases hr
  -- the states with requests come behind every wait
  have hwork : ∀ s : BYTE, s &&& usbStateMask = usbStateAddressing ∨
      s &&& usbStateMask = usbStateConfiguring →
      usbAttachedSubstateGetDeviceDescriptorSize ≤ s := by
    decide
  refine triple_ite (fun _ => ?_) fun _ => triple_ite (fun _ => triple_attachedTask_inOrder fuel h₀)
    fun _ => triple_ite (fun hs => ?_) fun _ => triple_ite (fun hs => ?_) fun _ =>
      triple_pure fun _ hw => hw.1.plain
  · refine triple_ite (fun _ => ?_) fun _ => triple_ite (fun _ => ?_) fun _ =>
      triple_pure fun _ hw => hw.1.plain
    · refine triple_bind (triple_usbInit_inOrder.conseq (fun _ hw => hw.1.plain) fun _ _ hw => hw)
        fun _ => triple_setState fun _ since _ _ => need_low (by decide) _ since
    · exact (triple_wrPlain (by decide) _).conseq (fun _ hw => hw.1.plain) fun _ _ hw => hw
  · refine (tasks_working.addressingTask fuel).conseq (fun w hw => ?_) fun _ _ hw => hw.plain
    exact hw.1.mono (fun h hh => hh ▸ hwork _ (.inl hs)) fun _ _ => trivial
  · refine (tasks_working.configuringTask fuel).conseq (fun w hw => ?_) fun _ _ hw => hw.plain
    exact hw.1.mono (fun h hh => hh ▸ hwork _ (.inr hs)) fun _ _ => trivial

/-! ## The loop -/

/-- A round that goes past no wait keeps the log in order. -/
theorem triple_mainRound_inOrder (fuel : Fuel) :
    Triple (fun w => Plain w ∧ Timely w) (mainRound fuel : Prog χ Unit) (fun _ => Plain) Kept := by
  have hflag (v : BYTE) : Keeps Plain Kept (setErrorflag v : Prog χ Unit) :=
    triple_assignPlain fun _ => ⟨rfl, rfl⟩
  have hclear : Keeps Plain Kept (clearLED 9 : Prog χ Unit) :=
    triple_still fun _ => ⟨_, _, rfl, rfl, rfl⟩
  refine triple_bind (Q := fun _ w => Plain w ∧ FrameStarted w) ⟨?_, ?_⟩ fun _ =>
    triple_bind (triple_usbTask_inOrder fuel) fun _ => triple_bind triple_readHost fun h => ?_
  · intro w _ w' hw hr
    have hframe := hw.2.2
    rw [hr] at hframe
    exact ⟨triple_irq_inOrder.ok w _ w' ⟨hw.1, hw.2.1⟩ hr, hframe⟩
  · intro w e w' hw hr
    exact triple_irq_inOrder.error w e w' ⟨hw.1, hw.2.1⟩ hr
  refine triple_ite (fun hs => ?_) fun _ => triple_ite (fun _ => ?_) fun _ => ?_
  · refine (tasks_working.whileRunning fuel).conseq (fun w hw => ?_) fun _ _ hw => hw.plain
    exact hw.mono (fun h' hh => by rw [hh.1, hs]; decide) fun _ h => h
  · refine triple_ite (fun _ => ?_) fun _ => triple_pure fun _ hw => hw.plain
    refine triple_bind ((hflag 1).conseq (fun _ hw => hw.plain) fun _ _ hw => hw) fun _ => hclear
  · refine triple_bind (triple_getPlain.conseq (fun _ hw => hw.plain) fun _ _ hw => hw) fun h => ?_
    refine triple_bind (triple_when (fun _ => ?_) fun _ _ hw => hw) fun _ =>
      triple_bind (hflag 0) fun _ => hclear
    refine triple_bind (triple_assignPlain fun _ => ⟨rfl, rfl⟩) fun _ => ?_
    exact triple_bind (triple_max3421eInit_inOrder fuel) fun _ => triple_usbInit_inOrder

end Run

/-! ## A start of frame that never came -/

end TetrisFpga.Usb
