import TetrisFpga.Usb.RunningAddress
import TetrisFpga.Usb.Tasks

/-!
# Requests and their buffers

The requests of a run are read off what it has written to `SUDFIFO`. They all fit the objects
behind their `dataptr` if and only if no device has sent a `bLength` of more than 18 when it was
first asked for its device descriptor.
-/

namespace TetrisFpga.Usb
open Program

/-! ## The requests in the log -/

/-- The byte written to the setup FIFO. -/
def Event.setupByte : Event → Option BYTE
  | .wr reg val => if reg = rSUDFIFO then some val else none
  | _ => none

def setupBytes (log : List Event) : List BYTE := log.filterMap Event.setupByte

/-- Eight bytes are a packet; the last byte comes first. -/
def setupPkts : List BYTE → List SetupPkt
  | lengthHi :: lengthLo :: indexHi :: indexLo :: valueHi :: valueLo :: request :: type ::
      earlier =>
    ⟨type, request, valueLo, valueHi, indexHi ++ indexLo, lengthHi ++ lengthLo⟩ ::
      setupPkts earlier
  | _ => []

/-- The packets of the requests, the newest first. -/
def requests (log : List Event) : List SetupPkt := setupPkts (setupBytes log)

variable {χ : Type}

/-- Every request so far fits its object. -/
def AllFit (w : World χ) : Prop := ∀ p ∈ requests w.log, p.Fits

/-- From `w` to `w'` there was no request. -/
def NoRequest (w w' : World χ) : Prop := setupBytes w'.log = setupBytes w.log

/-- From `w` to `w'` all requests fit. -/
def Fitted (w w' : World χ) : Prop := AllFit w' ↔ AllFit w

theorem NoRequest.requests {w w' : World χ} (h : NoRequest w w') :
    requests w'.log = requests w.log := congrArg setupPkts h

theorem NoRequest.fitted {w w' : World χ} (h : NoRequest w w') : Fitted w w' := by
  rw [Fitted, AllFit, h.requests, AllFit]

theorem noRequest_event {w w' : World χ} {e : Event} (h : w'.log = e :: w.log)
    (he : e.setupByte = none) : NoRequest w w' := by
  rw [NoRequest, h, setupBytes, List.filterMap_cons_none he, setupBytes]

theorem closed_noRequest : Closed (ε := Fault) (fun _ => Moves (NoRequest (χ := χ))) :=
  closed_moves (fun _ => rfl) fun h h' => h'.trans h

theorem closed_fitted : Closed (ε := Fault) (fun _ => Moves (Fitted (χ := χ))) :=
  closed_moves (fun _ => Iff.rfl) fun h h' => h'.trans h

/-! ## One request -/

section Request

variable [Platform χ]

theorem noRequest_rd (reg : BYTE) : Moves NoRequest (maxRegRd reg : Prog χ BYTE) :=
  fun _ => noRequest_event rfl rfl

theorem noRequest_wr {reg : BYTE} (h : reg ≠ rSUDFIFO) (val : BYTE) :
    Moves NoRequest (maxRegWr reg val : Prog χ Unit) :=
  fun _ => noRequest_event rfl (if_neg h)

omit [Platform χ] in
theorem noRequest_setHost (f : Host → Host) : Moves NoRequest (setHost f : Prog χ Unit) :=
  fun _ => noRequest_event rfl rfl

omit [Platform χ] in
theorem noRequest_epinfo (addr ep : BYTE) : Moves NoRequest (epinfo addr ep : Prog χ EpTable) :=
  epinfo_mem closed_noRequest (fun _ => noRequest_event rfl rfl) (fun _ => rfl) fun _ => rfl

theorem launches_noRequest (token ep : BYTE) :
    Launches (χ := χ) (fun _ => Moves NoRequest) token ep where
  toClosed := closed_noRequest
  hirq := noRequest_rd rHIRQ
  hrsl := noRequest_rd rHRSL
  wrHirq := noRequest_wr (by decide)
  nticks _ := noRequest_event rfl rfl
  wait _ := rfl
  dispatch _ := rfl
  launch := noRequest_wr (by decide) _

theorem receives_noRequest (addr ep : BYTE) :
    Receives (χ := χ) (fun _ => Moves NoRequest) addr ep where
  toLaunches := launches_noRequest tokIN ep
  rd := noRequest_rd
  store _ _ _ := noRequest_event rfl rfl
  wrHctl := noRequest_wr (by decide)
  epRecord := closed_noRequest.bind (noRequest_epinfo addr ep) fun _ =>
    closed_noRequest.bind (fun _ => rfl) fun _ => closed_noRequest.pure _
  saveToggle _ := closed_noRequest.bind (noRequest_epinfo addr ep) fun _ => noRequest_setHost _
  transfer _ := rfl

/-- After the setup packet nothing more is written to the setup FIFO. -/
theorem noRequest_stages (fuel : Fuel) (addr ep : BYTE) (nbytes : WORD) (dataptr : Option Ptr)
    (direction : Bool) :
    Moves (NoRequest (χ := χ)) (do
      let rcode ← xferDispatchPkt fuel tokSETUP ep
      if rcode ≠ 0 then return rcode
      else
        match dataptr with
        | none => xferCtrlND fuel ep direction
        | some data => xferCtrlData fuel addr ep nbytes data direction) := by
  have hdispatch (token : BYTE) :
      Moves (NoRequest (χ := χ)) (xferDispatchPkt fuel token ep : Prog χ BYTE) :=
    (launches_noRequest token ep).xferDispatchPkt fuel
  have hC := receives_noRequest (χ := χ) addr ep
  refine hC.bind (hdispatch _) fun rcode => hC.ite (hC.pure _) ?_
  cases dataptr with
  | none => exact hC.ite (hdispatch _) (hdispatch _)
  | some data =>
    refine hC.ite (hC.bind (hC.saveToggle _) fun _ => hC.bind hC.epRecord fun r => ?_) (hC.pure _)
    exact hC.bind (hC.xferInTransfer _ _ _ _) fun rcode => hC.ite (hC.pure _) (hdispatch _)

theorem word_bytes (v : WORD) : v.extractLsb' 8 8 ++ v.extractLsb' 0 8 = v := by
  ext i hi
  simp only [BitVec.getElem_append, BitVec.getElem_extractLsb']
  split
  · rw [Nat.zero_add, BitVec.getLsbD_eq_getElem]
  · rw [← BitVec.getLsbD_eq_getElem]
    congr 1
    omega

theorem setupBytes_maxBytesWr (data : List BYTE) (w : World χ) :
    ∃ w', maxBytesWr rSUDFIFO data w = .ok () w' ∧
      setupBytes w'.log = data.reverse ++ setupBytes w.log := by
  induction data generalizing w with
  | nil => exact ⟨w, rfl, rfl⟩
  | cons b data ih =>
    obtain ⟨w₁, hr, hbytes⟩ : ∃ w₁, maxRegWr rSUDFIFO b w = .ok () w₁ ∧
        setupBytes w₁.log = b :: setupBytes w.log := ⟨_, rfl, rfl⟩
    obtain ⟨w₂, hr', hbytes'⟩ := ih w₁
    refine ⟨w₂, (bind_of_ok hr _).trans hr', ?_⟩
    rw [hbytes', hbytes, List.reverse_cons, List.append_assoc]
    rfl

/-- A request leaves its packet in the log. -/
theorem requests_request (p : SetupPkt) (fuel : Fuel) (addr ep : BYTE) (w : World χ) :
    requests (final (p.request fuel addr ep w)).log = p :: requests w.log := by
  have hstages := noRequest_stages (χ := χ) fuel addr ep p.wLength
    (p.destination.map fun o => ⟨o, 0⟩) (decide (p.bmRequestType &&& 0x80 ≠ 0))
  obtain ⟨w₁, hr₁, hw₁⟩ : ∃ w₁, maxRegWr rPERADDR addr w = .ok () w₁ ∧ NoRequest w w₁ :=
    ⟨_, rfl, noRequest_wr (by decide) addr w⟩
  obtain ⟨w₂, hr₂, hw₂⟩ := setupBytes_maxBytesWr [p.bmRequestType, p.bRequest, p.wValueLo,
    p.wValueHi, p.wIndex.extractLsb' 0 8, p.wIndex.extractLsb' 8 8, p.wLength.extractLsb' 0 8,
    p.wLength.extractLsb' 8 8] w₁
  have hpkt : requests w₂.log = p :: requests w.log := by
    rw [requests, hw₂, hw₁, requests]
    show ⟨p.bmRequestType, p.bRequest, p.wValueLo, p.wValueHi,
      p.wIndex.extractLsb' 8 8 ++ p.wIndex.extractLsb' 0 8,
      p.wLength.extractLsb' 8 8 ++ p.wLength.extractLsb' 0 8⟩ :: setupPkts (setupBytes w.log) = _
    rw [word_bytes, word_bytes]
  rw [SetupPkt.request, xferCtrlReq, bind_of_ok hr₁, bind_of_ok hr₂, ← hpkt]
  exact (hstages w₂).requests

theorem allFit_request_iff (p : SetupPkt) (fuel : Fuel) (addr ep : BYTE) (w : World χ) :
    AllFit (final (p.request fuel addr ep w)) ↔ AllFit w ∧ p.Fits := by
  rw [AllFit, requests_request, List.forall_mem_cons, and_comm, AllFit]

/-- All of the loop but the second request for the device descriptor asks for what fits. -/
theorem loop_fitted : Loop fun α (x : Prog χ α) => Moves Fitted x where
  toClosed := closed_fitted
  getHost _ := Iff.rfl
  assign f _ w := (noRequest_setHost f w).fitted
  setState _ _ _ := NoRequest.fitted (noRequest_event rfl rfl)
  declare _ _ := Iff.rfl
  load _ _ := NoRequest.fitted (noRequest_event rfl rfl)
  store _ _ _ _ := NoRequest.fitted (noRequest_event rfl rfl)
  getPio _ := Iff.rfl
  setPio _ _ := Iff.rfl
  nticks _ := NoRequest.fitted (noRequest_event rfl rfl)
  rd reg w := (noRequest_rd reg w).fitted
  wr _ val h w := (noRequest_wr h val w).fitted
  epinfo addr ep w := (noRequest_epinfo addr ep w).fitted
  fault _ _ _ _ := Iff.rfl
  inTransfer _ _ _ _ _ w := ((receives_noRequest _ 1).xferInTransfer _ _ _ _ w).fitted
  request p hp fuel addr ep w := (allFit_request_iff p fuel addr ep w).trans (and_iff_left hp)
  setHost f w := (noRequest_setHost f w).fitted
  irq _ := NoRequest.fitted (noRequest_event rfl rfl)
  gpx _ := NoRequest.fitted (noRequest_event rfl rfl)
  usbRst _ _ := NoRequest.fitted (noRequest_event rfl rfl)
  reset _ := Iff.rfl

end Request

/-! ## The length that the device sends -/

section Device

variable [Platform χ]

/-- The device is asked for the first eight bytes of its descriptor: the `bLength` in the buffer,
if it has answered. -/
def firstReply (fuel : Fuel) : Prog χ (Option BYTE) := do
  setEpRecord 0 0 fun r => { r with maxPktSize := 0x0008 }
  let rcode ← xferGetDevDescr fuel 0 0 8 ⟨.buf, 0⟩
  if rcode = 0 then
    let bMaxPacketSize0 ← load ⟨.buf, 7⟩
    setEpRecord 0 0 fun r => { r with maxPktSize := bMaxPacketSize0.setWidth 16 }
    let bLength ← load ⟨.buf, 0⟩
    return some bLength
  else
    setUsbError rcode
    return none

/-- `firstReply` in a round that gets to it. -/
def roundReply (fuel : Fuel) : Prog χ (Option BYTE) := do
  max3421eTask
  declare .buf
  if (← getHost).usbTaskState = usbAttachedSubstateGetDeviceDescriptorSize then firstReply fuel
  else return none

/-- A device that is asked for the first eight bytes of its descriptor says that the whole has no
more bytes than `USB_DEVICE_DESCRIPTOR`. -/
def FirstReplyFits (fuel : Fuel) (w : World χ) : Prop :=
  ∀ bLength, value? (roundReply fuel w) = some (some bLength) → bLength ≤ 18

/-- What follows the first reply is the second request and parts whose requests fit. -/
theorem getDeviceDescriptor_eq (fuel : Fuel) :
    ∃ rest : Prog χ Unit, Moves Fitted rest ∧
      getDeviceDescriptor fuel = (do
        match ← firstReply fuel with
        | some bLength =>
          let _ ← (SetupPkt.getDevDescr (bLength.setWidth 16)).request fuel 0 0
          rest
        | none => pure ()) := by
  have hC : Loop fun α (x : Prog χ α) => Moves Fitted x := loop_fitted
  refine ⟨_, hC.bind (hC.load ⟨.buf, 14⟩) fun iManufacturer => hC.bind
    (hC.when (c := iManufacturer ≠ 0) (hC.getStrDescr fuel iManufacturer)) fun _ => hC.bind
      (hC.load ⟨.buf, 15⟩) fun iProduct => hC.bind
        (hC.when (c := iProduct ≠ 0) (hC.getStrDescr fuel iProduct)) fun _ =>
          hC.setState usbStateAddressing (by decide), ?_⟩
  simp only [getDeviceDescriptor, firstReply, bind_assoc]
  refine congrArg _ (funext fun _ => congrArg _ (funext fun rcode => ?_))
  split
  · simp only [bind_assoc, pure_bind]
    rfl
  · simp only [bind_assoc, pure_bind, bind_pure_unit]

theorem fitted_firstReply (fuel : Fuel) : Moves (Fitted (χ := χ)) (firstReply fuel) := by
  have hC : Loop fun α (x : Prog χ α) => Moves Fitted x := loop_fitted
  refine hC.bind (hC.setEpRecord _ _ _) fun _ => hC.bind (hC.getDevDescr fuel (by decide))
    fun rcode => hC.ite ?_ (hC.bind (hC.setUsbError rcode) fun _ => hC.pure _)
  refine hC.bind (hC.load _) fun _ => hC.bind (hC.setEpRecord _ _ _) fun _ => ?_
  exact hC.bind (hC.load _) fun _ => hC.pure _

theorem fits_bLength_iff (bLength : BYTE) :
    (SetupPkt.getDevDescr (bLength.setWidth 16)).Fits ↔ bLength ≤ 18 := by
  have hwidth : (bLength.setWidth 16).toNat = bLength.toNat := by
    rw [BitVec.toNat_setWidth]
    exact Nat.mod_eq_of_lt (Nat.lt_trans bLength.isLt (by decide))
  rw [SetupPkt.getDevDescr_fits_iff, BitVec.le_def, BitVec.le_def, hwidth]
  rfl

/-- The requests of this state fit if and only if the first reply does. -/
theorem allFit_getDeviceDescriptor_iff (fuel : Fuel) (w : World χ) :
    AllFit (final (getDeviceDescriptor fuel w)) ↔
      AllFit w ∧ ∀ bLength, value? (firstReply fuel w) = some (some bLength) → bLength ≤ 18 := by
  obtain ⟨rest, hrest, hdevice⟩ := getDeviceDescriptor_eq (χ := χ) fuel
  have hfirst : AllFit _ ↔ AllFit w := fitted_firstReply fuel w
  rw [hdevice, ← hfirst]
  cases hr : firstReply fuel w with
  | error e w' =>
    rw [bind_of_error hr]
    exact (and_iff_left nofun).symm
  | ok reply w' =>
    rw [bind_of_ok hr]
    cases reply with
    | none => exact (and_iff_left nofun).symm
    | some bLength =>
      have hrequest : AllFit _ ↔ AllFit _ := Moves.rest (R := Fitted) (fun _ => Iff.rfl)
        (fun _ => hrest) ((SetupPkt.getDevDescr (bLength.setWidth 16)).request fuel 0 0) w'
      refine (hrequest.trans (allFit_request_iff _ fuel 0 0 w')).trans (and_congr_right fun _ => ?_)
      rw [fits_bLength_iff]
      exact ⟨fun h b hb => by cases hb; exact h, fun h => h bLength rfl⟩

/-- The requests of a round fit if and only if the first reply in it does. -/
theorem allFit_mainRound_iff (fuel : Fuel) (w : World χ) :
    AllFit (final (mainRound fuel w)) ↔ AllFit w ∧ FirstReplyFits fuel w := by
  have hC : Loop fun α (x : Prog χ α) => Moves Fitted x := loop_fitted
  obtain ⟨rest, hrest, hround⟩ := hC.mainRound_eq fuel
  obtain ⟨task, htask, hdevice, htask_eq⟩ := hC.usbTask_eq fuel
  have hirq : AllFit _ ↔ AllFit w := hC.max3421eTask w
  rw [hround, FirstReplyFits, ← hirq]
  cases hr : max3421eTask w with
  | error e w₁ =>
    rw [bind_of_error hr, roundReply, bind_of_error hr]
    exact (and_iff_left nofun).symm
  | ok _ w₁ =>
    obtain ⟨w₂, hdeclare, hbuf⟩ : ∃ w₂, declare .buf w₁ = .ok () w₂ ∧ Fitted w₁ w₂ :=
      ⟨_, rfl, Iff.rfl⟩
    have hget : (getHost : Prog χ Host) w₂ = .ok w₂.host w₂ := rfl
    have hreply : roundReply fuel w = if w₂.host.usbTaskState =
        usbAttachedSubstateGetDeviceDescriptorSize then firstReply fuel w₂
        else .ok none w₂ := by
      rw [roundReply, bind_of_ok hr, bind_of_ok hdeclare, bind_of_ok hget]
      split <;> rfl
    rw [bind_of_ok hr, hreply]
    have hend : AllFit _ ↔ AllFit _ := Moves.rest (R := Fitted) (fun _ => Iff.rfl)
      (fun _ => hrest) (usbTask fuel) w₁
    refine hend.trans ?_
    rw [htask_eq, bind_of_ok hdeclare, bind_of_ok hget]
    by_cases hs : w₂.host.usbTaskState = usbAttachedSubstateGetDeviceDescriptorSize
    · rw [if_pos hs, hs, hdevice]
      exact (allFit_getDeviceDescriptor_iff fuel w₂).trans (and_congr_left fun _ => hbuf)
    · rw [if_neg hs]
      refine (htask _ (fun h => absurd h hs) w₂).trans (hbuf.trans ?_)
      exact (and_iff_left nofun).symm

/-- Every request of a run of `main` fits the object behind its `dataptr` if and only if no device
has said, in its first reply, that its descriptor is longer than the buffer for it. -/
theorem requests_fit_iff (fuel : Fuel) (n : ℕ) (chip : χ) (device : BYTE)
    (mem : Obj → ℤ → BYTE) (pio : Pio) :
    (∀ p ∈ requests (final (main fuel n (powerUp chip device mem pio))).log, p.Fits) ↔
      RunMeets (FirstReplyFits fuel) fuel n (powerUp chip device mem pio) := by
  have hC : Loop fun α (x : Prog χ α) => Moves Fitted x := loop_fitted
  have hinit := hC.mainInit fuel (powerUp chip device mem pio)
  have hpower : AllFit (powerUp chip device mem pio) := nofun
  show AllFit _ ↔ _
  rw [main, RunMeets]
  cases hr : mainInit fuel (powerUp chip device mem pio) with
  | error e w =>
    rw [hr] at hinit
    rw [bind_of_error hr]
    exact iff_of_true (hinit.mpr hpower) trivial
  | ok _ w =>
    rw [hr] at hinit
    rw [bind_of_ok hr, final_times_iff (allFit_mainRound_iff fuel)]
    exact and_iff_right (hinit.mpr hpower)

end Device

/-! ## A device with a long descriptor -/

/-- A keyboard is plugged in that says its device descriptor has 64 bytes. -/
def longDescriptor : World Script :=
  powerUp { answers := initReads ++ [0x00, 0x00, 0x00] ++
              reply ([64] ++ (keyboardDevice.take 8).drop 1) ++ reply keyboardDevice
            tick := 250 } 0 (fun _ _ => 0) {}

theorem longDescriptor_overruns :
    ¬∀ p ∈ requests (final (main ⟨9, 9, 9, 9, 9⟩ 6 longDescriptor)).log, p.Fits := by
  decide +kernel

/-- The two requests for the device descriptor. -/
example : (requests (final (main ⟨9, 9, 9, 9, 9⟩ 6 longDescriptor)).log).map (·.wLength) =
    [64, 8] := by
  decide +kernel

end TetrisFpga.Usb
