import TetrisFpga.Usb.Requests

/-!
# Classes of programs with the USB task

What the parts of the loop are made of that talk to the device: the transfers, assignments to
the global variables, and the states the task takes with a device. A class of programs that has
these has the requests, the probes and the polls.
-/

namespace TetrisFpga.Usb
open Program

section Classes

variable {χ : Type} {C : ∀ α : Type, Prog χ α → Prop}

variable [Platform χ]

/-- `C` has what the requests, the probes and the polls are made of. -/
structure Tasks (C : ∀ α : Type, Prog χ α → Prop) : Prop extends Transfers C where
  assign : ∀ f, LeavesTask f → C Unit (setHost f)
  setState : ∀ s ∈ workStates, C Unit (setUsbTaskState s)
  declare : ∀ o, C Unit (declare o)
  getPio : C Pio getPio
  setPio : ∀ f, C Unit (setPio f)
  walk : ∀ {α : Type}, C α (throw .walk)

namespace Tasks

theorem fitting (hC : Tasks C) : Fitting C where
  toClosed := hC.toClosed
  getHost := hC.getHost
  assign := hC.assign
  setState := hC.setState
  declare := hC.declare
  load := hC.load
  store p val _ := hC.store p val
  getPio := hC.getPio
  setPio := hC.setPio
  nticks := hC.nticks
  rd := hC.rd
  wr reg val _ := hC.wr reg val
  epinfo addr ep := (hC.transfersAt addr ep).epinfo
  fault
    | .wait, _, _ => hC.wait
    | .dispatch, _, _ => hC.dispatch
    | .transfer, _, _ => hC.transfer
    | .walk, _, _ => hC.walk
    | .deref, _, h => absurd rfl h
    | .reset, h, _ => absurd rfl h
  inTransfer _ _ _ _ _ := hC.xferInTransfer _ _ _ _ _ _
  request _ _ _ _ _ := hC.xferCtrlReq _ _ _ _ _ _ _ _ _ _

theorem fillDevice (hC : Tasks C) (driver addr : BYTE) (pos : ℕ) :
    C Unit (fillDevice driver addr pos) :=
  hC.fitting.fillDevice driver addr pos

theorem endpointLoop (hC : Tasks C) (fuel : Fuel) (addr confvalue : BYTE) (totalLength : WORD)
    (n pos : ℕ) : C (ℕ ⊕ Bool) (endpointLoop fuel addr confvalue totalLength n pos) :=
  hC.fitting.endpointLoop fuel addr confvalue totalLength n pos

theorem parseInterface (hC : Tasks C) (fuel : Fuel) (driver protocol addr confvalue : BYTE)
    (totalLength : WORD) (pos : ℕ) :
    C (ℕ ⊕ Bool) (parseInterface fuel driver protocol addr confvalue totalLength pos) :=
  hC.fitting.parseInterface fuel driver protocol addr confvalue totalLength pos

theorem hidProbe (hC : Tasks C) (driver protocol : BYTE) (fuel : Fuel) (addr : BYTE) :
    C Bool (hidProbe driver protocol fuel addr) :=
  hC.fitting.hidProbe driver protocol fuel addr

theorem setUsbError (hC : Tasks C) (rcode : BYTE) : C Unit (setUsbError rcode) :=
  hC.fitting.setUsbError rcode

theorem getStrDescr (hC : Tasks C) (fuel : Fuel) (index : BYTE) :
    C Unit (getStrDescr fuel index) :=
  hC.fitting.getStrDescr fuel index

theorem getDeviceDescriptor (hC : Tasks C) (fuel : Fuel) : C Unit (getDeviceDescriptor fuel) :=
  hC.fitting.getDeviceDescriptor fun _ => hC.xferCtrlReq _ _ _ _ _ _ _ _ _ _

theorem assignAddress (hC : Tasks C) (fuel : Fuel) (i : BYTE) :
    C Unit (assignAddress fuel i) :=
  hC.fitting.assignAddress fuel i

theorem addressingTask (hC : Tasks C) (fuel : Fuel) : C Unit (addressingTask fuel) :=
  hC.fitting.addressingTask fuel

theorem configuringTask (hC : Tasks C) (fuel : Fuel) : C Unit (configuringTask fuel) :=
  hC.fitting.configuringTask fuel

theorem whileRunning (hC : Tasks C) (fuel : Fuel) : C Unit (whileRunning fuel) :=
  hC.fitting.whileRunning fuel

end Tasks

/-! ## The initialisation -/

/-- The probe of the bus reads `HRSL` and `MODE`, writes `MODE` and sets a state without a
device. -/
theorem maxBusprobe_mem (hC : Closed C) (hrd : ∀ reg, reg ≠ rUSBIRQ → C BYTE (maxRegRd reg))
    (hwr : ∀ val, C Unit (maxRegWr rMODE val)) (hget : C Host getHost)
    (hset : ∀ s ≤ usbStateAttached, C Unit (setUsbTaskState s)) : C Unit maxBusprobe := by
  have hstart (mode lowSpeedMode : BYTE) : C Unit (startHost mode lowSpeedMode) := by
    refine hC.bind hget fun _ => hC.ite (hC.bind (hrd _ (by decide)) fun _ => ?_) (hC.pure ())
    exact hC.bind (hwr _) fun _ => hset _ (by decide)
  refine hC.bind (hrd _ (by decide)) fun _ => hC.ite (hstart _ _) (hC.ite (hstart _ _) ?_)
  refine hC.ite (hset _ (by decide)) (hC.bind hget fun _ => hC.ite (hset _ (by decide)) ?_)
  exact hC.bind (hwr _) fun _ => hset _ (by decide)

/-- The initialisation uses no transfer: it writes other registers than `HXFR`. -/
theorem max3421eInit_mem (hC : Closed C)
    (hwr : ∀ reg val, reg ≠ rHXFR → reg ≠ rSUDFIFO → C Unit (maxRegWr reg val))
    (hrd : ∀ reg, C BYTE (maxRegRd reg)) (hrst : ∀ v, C Unit (usbRst v))
    (hreset : C Unit (throw .reset)) (hprobe : C Unit maxBusprobe) (fuel : Fuel) :
    C Unit (max3421eInit fuel) := by
  have hw (reg val : BYTE) (h : reg ≠ rHXFR ∧ reg ≠ rSUDFIFO) : C Unit (maxRegWr reg val) :=
    hwr reg val h.1 h.2
  have hchip : C Unit (max3421eReset fuel) := by
    refine hC.bind (hrst 0) fun _ => hC.bind (hrst 1) fun _ => ?_
    refine hC.bind (hw _ _ (by decide)) fun _ => hC.bind (hw _ _ (by decide)) fun _ => ?_
    refine hC.whileLoop hreset (fun _ => ?_) (fun _ => hC.pure _) (fun _ => hC.pure _) _ _
    exact hC.bind (hrd _) fun _ => hC.pure _
  refine hC.bind (hw _ _ (by decide)) fun _ => hC.bind hchip fun _ => ?_
  refine hC.bind (hw _ _ (by decide)) fun _ => hC.bind (hw _ _ (by decide)) fun _ => ?_
  refine hC.bind (hw _ _ (by decide)) fun _ => hC.bind (hw _ _ (by decide)) fun _ => ?_
  exact hC.bind hprobe fun _ => hC.bind (hw _ _ (by decide)) fun _ => hw _ _ (by decide)

/-! ## The loop -/

/-- `C` has what the loop is made of, but for the second request for the device descriptor. -/
structure Loop (C : ∀ α : Type, Prog χ α → Prop) : Prop extends Fitting C where
  setHost : ∀ f, C Unit (setHost f)
  irq : C BYTE usbIrq
  gpx : C BYTE usbGpx
  usbRst : ∀ v, C Unit (usbRst v)
  reset : ∀ {α : Type}, C α (throw .reset)

namespace Loop

theorem maxBusprobe (hC : Loop C) : C Unit maxBusprobe :=
  maxBusprobe_mem hC.toClosed (fun reg _ => hC.rd reg) (fun val => hC.wr _ val (by decide))
    hC.getHost fun _ _ => hC.setHost _

theorem max3421eTask (hC : Loop C) : C Unit max3421eTask := by
  refine hC.bind hC.irq fun _ => hC.bind (hC.when ?_) fun _ => hC.bind hC.gpx fun _ =>
    hC.when (hC.bind (hC.rd _) fun _ => hC.pure ())
  refine hC.bind (hC.rd _) fun _ => hC.bind (hC.when hC.maxBusprobe) fun _ => ?_
  refine hC.bind (hC.when (hC.wr _ _ (by decide))) fun _ => ?_
  exact hC.bind (hC.when (hC.setHost _)) fun _ => hC.wr _ _ (by decide)

theorem max3421eInit (hC : Loop C) (fuel : Fuel) : C Unit (max3421eInit fuel) :=
  max3421eInit_mem hC.toClosed (fun reg val _ => hC.wr reg val) hC.rd hC.usbRst hC.reset
    hC.maxBusprobe fuel

theorem usbInit (hC : Loop C) : C Unit usbInit :=
  usbInit_mem hC.toClosed hC.assign

theorem mainInit (hC : Loop C) (fuel : Fuel) : C Unit (mainInit fuel) :=
  hC.bind (hC.rd _) fun _ => hC.bind (hC.max3421eInit fuel) fun _ => hC.usbInit

theorem detachedTask (hC : Loop C) (s : BYTE) : C Unit (detachedTask s) := by
  refine hC.ite (hC.bind hC.usbInit fun _ => hC.setHost _) ?_
  exact hC.ite (hC.wr _ _ (by decide)) (hC.pure ())

theorem attachedTask (hC : Loop C) (fuel : Fuel) {s : BYTE}
    (hdevice : s = usbAttachedSubstateGetDeviceDescriptorSize →
      C Unit (getDeviceDescriptor fuel)) : C Unit (attachedTask fuel s) := by
  have hms : C DWORD altMs := hC.bind hC.nticks fun _ => hC.pure _
  refine hC.ite (hC.bind hms fun _ => hC.bind (hC.setHost _) fun _ => hC.setHost _) ?_
  refine hC.ite (hC.bind hms fun _ => hC.bind hC.getHost fun _ =>
    hC.ite (hC.setHost _) (hC.pure ())) ?_
  refine hC.ite (hC.bind (hC.wr _ _ (by decide)) fun _ => hC.bind (hC.wr _ _ (by decide))
    fun _ => hC.setHost _) ?_
  refine hC.ite (hC.bind (hC.rd _) fun _ => hC.ite (hC.bind (hC.rd _) fun _ =>
    hC.bind (hC.wr _ _ (by decide)) fun _ => hC.setHost _) (hC.pure ())) ?_
  refine hC.ite (hC.bind (hC.rd _) fun _ => hC.ite (hC.setHost _) (hC.pure ())) ?_
  split
  · rename_i hs
    exact hdevice hs
  · exact hC.pure ()

/-- The task does what its state says, and asks for the device descriptor in one state. -/
theorem usbTask_eq (hC : Loop C) (fuel : Fuel) :
    ∃ task : BYTE → Prog χ Unit,
      (∀ s, (s = usbAttachedSubstateGetDeviceDescriptorSize →
        C Unit (getDeviceDescriptor fuel)) → C Unit (task s)) ∧
      task usbAttachedSubstateGetDeviceDescriptorSize = getDeviceDescriptor fuel ∧
      usbTask fuel = (do
        Usb.declare .buf
        let h ← Usb.getHost
        task h.usbTaskState) := by
  refine ⟨fun s =>
    if s &&& usbStateMask = usbStateDetached then Usb.detachedTask s
    else if s &&& usbStateMask = usbStateAttached then Usb.attachedTask fuel s
    else if s &&& usbStateMask = usbStateAddressing then Usb.addressingTask fuel
    else if s &&& usbStateMask = usbStateConfiguring then Usb.configuringTask fuel
    else pure (), fun s hs => ?_, rfl, rfl⟩
  · refine hC.ite (hC.detachedTask s) (hC.ite (hC.attachedTask fuel hs) ?_)
    exact hC.ite (hC.addressingTask fuel) (hC.ite (hC.configuringTask fuel) (hC.pure ()))

/-- A round is the interrupts, the task and what follows from its state. -/
theorem mainRound_eq (hC : Loop C) (fuel : Fuel) :
    ∃ rest : Prog χ Unit, C Unit rest ∧ mainRound fuel = (do
      Usb.max3421eTask
      usbTask fuel
      rest) := by
  refine ⟨_, hC.bind hC.getHost fun h => hC.ite (hC.whileRunning fuel) (hC.ite ?_ ?_), rfl⟩
  · exact hC.ite (hC.bind (hC.setHost _) fun _ => hC.setPio _) (hC.pure ())
  · refine hC.bind hC.getHost fun h => hC.bind (hC.when ?_) fun _ =>
      hC.bind (hC.setHost _) fun _ => hC.setPio _
    exact hC.bind (hC.setHost _) fun _ => hC.bind (hC.max3421eInit fuel) fun _ => hC.usbInit

/-- All of `main` is made of requests that fit their objects, and of requests for as much of the
device descriptor as a byte says, to `buf`. -/
theorem main (hC : Loop C) {fuel : Fuel}
    (hdevice : ∀ bLength : BYTE,
      C BYTE ((SetupPkt.getDevDescr (bLength.setWidth 16)).request fuel 0 0)) (n : ℕ) :
    C Unit (main fuel n) := by
  obtain ⟨task, htask, -, htask_eq⟩ := hC.usbTask_eq fuel
  obtain ⟨rest, hrest, hround⟩ := hC.mainRound_eq fuel
  refine hC.bind (hC.mainInit fuel) fun _ => hC.times ?_ n
  rw [hround, htask_eq]
  refine hC.bind hC.max3421eTask fun _ => hC.bind ?_ fun _ => hrest
  refine hC.bind (hC.declare _) fun _ => hC.bind hC.getHost fun h => ?_
  exact htask _ fun _ => hC.getDeviceDescriptor hdevice

end Loop

/-! ## Runs of `main` -/

/-- Every round of this run of `main` starts in a world that meets `guard`. -/
def RunMeets (guard : World χ → Prop) (fuel : Fuel) (n : ℕ) (w : World χ) : Prop :=
  match mainInit fuel w with
  | .ok _ w' => Guarded (mainRound fuel) guard n w'
  | .error _ _ => True

instance (guard : World χ → Prop) [∀ w, Decidable (guard w)] (fuel : Fuel) (n : ℕ)
    (w : World χ) : Decidable (RunMeets guard fuel n w) :=
  match h : mainInit fuel w with
  | .ok _ w' => decidable_of_iff (Guarded (mainRound fuel) guard n w') (by rw [RunMeets, h])
  | .error _ _ => .isTrue (by rw [RunMeets, h]; trivial)

/-- What the initialisation establishes and a round with `guard` keeps holds after a run. -/
theorem RunMeets.triple {guard I E : World χ → Prop} {P : World χ → Prop} {fuel : Fuel} {n : ℕ}
    {w : World χ} (hinit : Triple P (mainInit fuel) (fun _ => I) E)
    (hround : Triple (fun w => I w ∧ guard w) (mainRound fuel) (fun _ => I) E)
    (hmeets : RunMeets guard fuel n w) (hw : P w) :
    Triple (fun w' => w' = w) (main fuel n) (fun _ => I) E := by
  refine triple_bind (Q := fun _ w' => I w' ∧ Guarded (mainRound fuel) guard n w') ⟨?_, ?_⟩
    fun _ => hround.times n
  · rintro _ _ w' rfl hr
    rw [RunMeets, hr] at hmeets
    exact ⟨hinit.ok _ _ w' hw hr, hmeets⟩
  · rintro _ e w' rfl hr
    exact hinit.error _ e w' hw hr

end Classes

end TetrisFpga.Usb
