import TetrisFpga.Usb.Main

/-!
# The requests of the host

A setup packet says what is asked for and how many bytes of it, and by that which object the
reply goes to. All requests of the program are made of packets that fit that object, but for one:
the second request for the device descriptor asks for as many bytes as the device has said.
-/

namespace TetrisFpga.Usb
open Program

/-- An assignment to other variables than those of the state machine. -/
def LeavesTask (f : Host → Host) : Prop :=
  ∀ h, (f h).usbTaskState = h.usbTaskState ∧ (f h).usbDelay = h.usbDelay

/-- The states that `USB_Task` takes after a transfer. -/
def workStates : List BYTE :=
  [usbStateAddressing, usbStateConfiguring, usbStateRunning, usbStateError]

/-! ## Setup packets -/

/-- `SETUP_PKT`. -/
structure SetupPkt where
  bmRequestType : BYTE
  bRequest : BYTE
  wValueLo : BYTE
  wValueHi : BYTE
  wIndex : WORD
  wLength : WORD
  deriving DecidableEq

/-- The size of an object in bytes, as the types of the variables say. -/
def Obj.size : Obj → ℕ
  | .bigbuf => 256
  | .buf => 18
  | .strDesc => 256
  | .kbdbuf => 8
  | .mousebuf => 8
  | .tmpbyte => 1

namespace SetupPkt

/-- The object that `dataptr` points to in the request; a request for no data has none. -/
def destination (p : SetupPkt) : Option Obj :=
  if p.bmRequestType = bmReqGetDescr then
    if p.wValueHi = usbDescriptorDevice then some .buf
    else if p.wValueHi = usbDescriptorConfiguration then some .bigbuf
    else some .strDesc
  else if p.bmRequestType = bmReqHidin then some .tmpbyte
  else none

/-- No more bytes are asked for than the object has. -/
def Fits (p : SetupPkt) : Prop := ∀ o ∈ p.destination, p.wLength.toNat ≤ o.size

instance : DecidablePred Fits := fun p =>
  inferInstanceAs (Decidable (∀ o ∈ p.destination, p.wLength.toNat ≤ o.size))

/-- The packet of `XferGetDevDescr`. -/
def getDevDescr (nbytes : WORD) : SetupPkt :=
  ⟨bmReqGetDescr, usbRequestGetDescriptor, 0x00, usbDescriptorDevice, 0x0000, nbytes⟩

theorem getDevDescr_fits_iff (nbytes : WORD) : (getDevDescr nbytes).Fits ↔ nbytes ≤ 18 := by
  have hdest : (getDevDescr nbytes).destination = some .buf := rfl
  rw [Fits, hdest]
  exact ⟨fun h => h _ rfl, fun h o ho => by cases ho; exact h⟩

theorem fits_of_destination {p : SetupPkt} {o : Obj} (hdest : p.destination = some o)
    (hlength : p.wLength.toNat ≤ o.size) : p.Fits := by
  intro o' ho'
  cases hdest.symm.trans ho'
  exact hlength

theorem fits_of_none {p : SetupPkt} (hdest : p.destination = none) : p.Fits := by
  intro o ho
  cases hdest.symm.trans ho

variable {χ : Type} [Platform χ]

/-- `XferCtrlReq` with this packet, for a reply that goes to the start of its object. -/
def request (p : SetupPkt) (fuel : Fuel) (addr ep : BYTE) : Prog χ BYTE :=
  xferCtrlReq fuel addr ep p.bmRequestType p.bRequest p.wValueLo p.wValueHi p.wIndex p.wLength
    (p.destination.map fun o => ⟨o, 0⟩)

end SetupPkt

/-! ## Classes of programs with the requests that fit -/

section Classes

variable {χ : Type} {C : ∀ α : Type, Prog χ α → Prop}

theorem usbInit_mem (hC : Closed C) (hassign : ∀ f, LeavesTask f → C Unit (setHost f)) :
    C Unit usbInit := by
  refine hC.bind (hC.forM (fun i => hC.bind (hassign _ ?_) fun _ => hassign _ ?_) _) fun _ => ?_
  · exact fun _ => ⟨rfl, rfl⟩
  · exact fun _ => ⟨rfl, rfl⟩
  refine hC.bind (hassign _ fun _ => ⟨rfl, rfl⟩) fun _ => ?_
  refine hC.bind (hassign _ fun _ => ⟨rfl, rfl⟩) fun _ => ?_
  exact hC.bind (hassign _ fun _ => ⟨rfl, rfl⟩) fun _ => hassign _ fun _ => ⟨rfl, rfl⟩

variable [Platform χ]

/-- `C` has what the requests, the probes and the polls are made of, where no request asks for
more than its object holds. What is stored to `bigbuf` comes with the requests. -/
structure Fitting (C : ∀ α : Type, Prog χ α → Prop) : Prop extends Closed C where
  getHost : C Host getHost
  assign : ∀ f, LeavesTask f → C Unit (setHost f)
  setState : ∀ s ∈ workStates, C Unit (setUsbTaskState s)
  declare : ∀ o, C Unit (declare o)
  load : ∀ p, C BYTE (load p)
  store : ∀ p val, p.obj ≠ .bigbuf → C Unit (store p val)
  getPio : C Pio getPio
  setPio : ∀ f, C Unit (setPio f)
  nticks : C DWORD altNticks
  rd : ∀ reg, C BYTE (maxRegRd reg)
  wr : ∀ reg val, reg ≠ rSUDFIFO → C Unit (maxRegWr reg val)
  epinfo : ∀ addr ep, C EpTable (epinfo addr ep)
  fault : ∀ {α : Type} (e : Fault), e ≠ .reset → e ≠ .deref → C α (throw e)
  inTransfer : ∀ fuel addr nbytes o maxpktsize,
    C BYTE (xferInTransfer fuel addr 1 nbytes ⟨o, 0⟩ maxpktsize)
  request : ∀ p : SetupPkt, p.Fits → ∀ fuel addr ep, C BYTE (p.request fuel addr ep)

namespace Fitting

theorem epRecord (hC : Fitting C) (addr ep : BYTE) : C EpRecord (epRecord addr ep) :=
  hC.bind (hC.epinfo addr ep) fun _ => hC.bind hC.getHost fun _ => hC.pure _

theorem setEpRecord (hC : Fitting C) (addr ep : BYTE) (f : EpRecord → EpRecord) :
    C Unit (setEpRecord addr ep f) :=
  hC.bind (hC.epinfo addr ep) fun _ => hC.assign _ fun _ => ⟨rfl, rfl⟩

theorem convUTF8ToStr (hC : Fitting C) {utf8 : Ptr} (hobj : utf8.obj ≠ .bigbuf) (length : BYTE) :
    C Unit (convUTF8ToStr utf8 length) := by
  refine hC.bind (hC.forM (fun i => ?_) _) fun _ => hC.store _ _ hobj
  exact hC.bind (hC.load _) fun v => hC.store _ v hobj

/-! ### The requests -/

theorem getDevDescr (hC : Fitting C) (fuel : Fuel) {nbytes : WORD} (h : nbytes ≤ 18) :
    C BYTE (xferGetDevDescr fuel 0 0 nbytes ⟨.buf, 0⟩) :=
  hC.request (.getDevDescr nbytes) ((SetupPkt.getDevDescr_fits_iff nbytes).mpr h) fuel 0 0

theorem getConfDescr (hC : Fitting C) (fuel : Fuel) (addr : BYTE) {nbytes : WORD}
    (h : nbytes ≤ 256) : C BYTE (xferGetConfDescr fuel addr 0 nbytes 0 ⟨.bigbuf, 0⟩) :=
  hC.request ⟨bmReqGetDescr, usbRequestGetDescriptor, 0, usbDescriptorConfiguration, 0, nbytes⟩
    (SetupPkt.fits_of_destination rfl h) fuel addr 0

/-- The length of a string descriptor is a byte, and any byte fits. -/
theorem getStrDescr_byte (hC : Fitting C) (fuel : Fuel) (nbytes index : BYTE) :
    C BYTE (xferGetStrDescr fuel 0 0 (nbytes.setWidth 16) index langEnUs ⟨.strDesc, 0⟩) := by
  refine hC.request ⟨bmReqGetDescr, usbRequestGetDescriptor, index, usbDescriptorString, langEnUs,
    nbytes.setWidth 16⟩ (SetupPkt.fits_of_destination rfl ?_) fuel 0 0
  have hbyte := nbytes.isLt
  rw [BitVec.toNat_setWidth]
  exact Nat.le_trans (Nat.mod_le _ _) (Nat.le_of_lt hbyte)

theorem hidin (hC : Fitting C) (fuel : Fuel) (addr bRequest wValueLo interface : BYTE) :
    C BYTE (xferCtrlReq fuel addr 0 bmReqHidin bRequest wValueLo 0x00 (interface.setWidth 16)
      0x0001 (some ⟨.tmpbyte, 0⟩)) :=
  hC.request ⟨bmReqHidin, bRequest, wValueLo, 0x00, interface.setWidth 16, 0x0001⟩
    (SetupPkt.fits_of_destination rfl (Nat.le_refl 1)) fuel addr 0

theorem setAddr (hC : Fitting C) (fuel : Fuel) (newaddr : BYTE) :
    C BYTE (xferSetAddr fuel 0 0 newaddr) :=
  hC.request ⟨bmReqSet, usbRequestSetAddress, newaddr, 0x00, 0x0000, 0x0000⟩
    (SetupPkt.fits_of_none rfl) fuel 0 0

theorem setConf (hC : Fitting C) (fuel : Fuel) (addr confValue : BYTE) :
    C BYTE (xferSetConf fuel addr 0 confValue) :=
  hC.request ⟨bmReqSet, usbRequestSetConfiguration, confValue, 0x00, 0x0000, 0x0000⟩
    (SetupPkt.fits_of_none rfl) fuel addr 0

theorem setProto (hC : Fitting C) (fuel : Fuel) (addr interface protocol : BYTE) :
    C BYTE (xferSetProto fuel addr 0 interface protocol) :=
  hC.request ⟨bmReqHidout, hidRequestSetProtocol, protocol, 0x00, interface.setWidth 16, 0x0000⟩
    (SetupPkt.fits_of_none rfl) fuel addr 0

/-! ### The probes -/

theorem fillDevice (hC : Fitting C) (driver addr : BYTE) (pos : ℕ) :
    C Unit (fillDevice driver addr pos) := by
  have hassign (f : Host → Host) (hf : LeavesTask f) : C Unit (setHost f) := hC.assign f hf
  refine hC.bind (hassign _ fun _ => ⟨rfl, rfl⟩) fun _ => ?_
  refine hC.bind (hC.epRecord addr 0) fun _ => hC.bind (hC.bind (hassign _ fun _ => ⟨rfl, rfl⟩)
    fun _ => hassign _ fun _ => ⟨rfl, rfl⟩) fun _ => ?_
  refine hC.bind (hassign _ fun _ => ⟨rfl, rfl⟩) fun _ => ?_
  refine hC.bind (hC.setEpRecord addr 0 _) fun _ => hC.bind (hC.load _) fun _ => ?_
  exact hC.bind (hassign _ fun _ => ⟨rfl, rfl⟩) fun _ => hassign _ fun _ => ⟨rfl, rfl⟩

theorem fillEndpoint (hC : Fitting C) (fuel : Fuel) (addr confvalue : BYTE) (pos : ℕ) :
    C Bool (fillEndpoint fuel addr confvalue pos) :=
  fillEndpoint_mem hC.toClosed hC.load (hC.setEpRecord addr 1) hC.getHost (hC.setConf fuel addr)
    (fun interface => hC.setProto fuel addr interface bootProtocol) confvalue pos

theorem endpointLoop (hC : Fitting C) (fuel : Fuel) (addr confvalue : BYTE) (totalLength : WORD)
    (n pos : ℕ) : C (ℕ ⊕ Bool) (endpointLoop fuel addr confvalue totalLength n pos) := by
  refine hC.whileLoop (hC.fault .walk nofun nofun) (fun _ => hC.pure _) (fun pos => ?_)
    (fun _ => hC.pure _) n pos
  exact skipTo_mem hC.toClosed hC.load _
    (fun pos => hC.bind (hC.fillEndpoint _ _ _ _) fun _ => hC.pure _) pos

theorem parseInterface (hC : Fitting C) (fuel : Fuel) (driver protocol addr confvalue : BYTE)
    (totalLength : WORD) (pos : ℕ) :
    C (ℕ ⊕ Bool) (parseInterface fuel driver protocol addr confvalue totalLength pos) := by
  refine hC.bind (hC.load _) fun _ => hC.bind (hC.load _) fun _ => hC.bind (hC.load _) fun _ => ?_
  refine hC.ite ?_ (hC.pure _)
  refine hC.bind (hC.fillDevice driver addr pos) fun _ => hC.bind (hC.load _) fun _ => ?_
  exact hC.endpointLoop _ _ _ _ _ _

theorem hidProbe (hC : Fitting C) (driver protocol : BYTE) (fuel : Fuel) (addr : BYTE) :
    C Bool (hidProbe driver protocol fuel addr) := by
  refine hC.bind (readConfiguration_mem hC.toClosed hC.load fun _ => hC.getConfDescr fuel addr)
    fun r => ?_
  cases r with
  | none => exact hC.pure false
  | some r =>
    refine hC.whileLoop (hC.fault .walk nofun nofun) (fun _ => hC.pure _) (fun pos => ?_)
      (fun _ => hC.pure _) _ _
    exact skipTo_mem hC.toClosed hC.load _ (hC.parseInterface _ _ _ _ _ _) pos

/-! ### The states with a device -/

theorem setUsbError (hC : Fitting C) (rcode : BYTE) : C Unit (setUsbError rcode) := by
  refine hC.bind (hC.assign _ fun _ => ⟨rfl, rfl⟩) fun _ => ?_
  exact hC.bind (hC.assign _ fun _ => ⟨rfl, rfl⟩) fun _ => hC.setState _ (by decide)

theorem getStrDescr (hC : Fitting C) (fuel : Fuel) (index : BYTE) :
    C Unit (getStrDescr fuel index) := by
  refine hC.bind (hC.declare _) fun _ => hC.bind (hC.getStrDescr_byte fuel 2 index) fun _ => ?_
  refine hC.bind (hC.load _) fun _ => hC.bind (hC.getStrDescr_byte fuel _ index) fun _ => ?_
  exact hC.bind (hC.load _) fun _ => hC.convUTF8ToStr (by decide) _

/-- The states before the addressing, with the second request for the device descriptor. -/
theorem getDeviceDescriptor (hC : Fitting C) {fuel : Fuel}
    (hdevice : ∀ bLength : BYTE,
      C BYTE (xferGetDevDescr fuel 0 0 (bLength.setWidth 16) ⟨.buf, 0⟩)) :
    C Unit (getDeviceDescriptor fuel) := by
  refine hC.bind (hC.setEpRecord _ _ _) fun _ => ?_
  refine hC.bind (hC.getDevDescr fuel (by decide)) fun rcode => hC.ite ?_ (hC.setUsbError rcode)
  refine hC.bind (hC.load _) fun _ => hC.bind (hC.setEpRecord _ _ _) fun _ => ?_
  refine hC.bind (hC.load _) fun bLength => hC.bind (hdevice bLength) fun _ => ?_
  refine hC.bind (hC.load _) fun _ => hC.bind (hC.when (hC.getStrDescr fuel _)) fun _ => ?_
  refine hC.bind (hC.load _) fun _ => hC.bind (hC.when (hC.getStrDescr fuel _)) fun _ => ?_
  exact hC.setState _ (by decide)

theorem assignAddress (hC : Fitting C) (fuel : Fuel) (i : BYTE) :
    C Unit (assignAddress fuel i) := by
  refine hC.bind hC.getHost fun _ => hC.bind (hC.assign _ fun _ => ⟨rfl, rfl⟩) fun _ => ?_
  refine hC.bind (hC.setAddr fuel i) fun rcode => hC.ite ?_ (hC.setUsbError rcode)
  exact hC.bind (hC.assign _ fun _ => ⟨rfl, rfl⟩) fun _ => hC.setState _ (by decide)

theorem addressingTask (hC : Fitting C) (fuel : Fuel) : C Unit (addressingTask fuel) := by
  refine hC.bind hC.getHost fun h => hC.bind ?_ fun _ => hC.bind hC.getHost fun _ => ?_
  · cases freeEntry h with
    | none => exact hC.pure ()
    | some i => exact hC.assignAddress fuel i
  · exact hC.when (hC.setUsbError _)

theorem runProbes (hC : Fitting C) {probes : List (BYTE → Prog χ Bool)}
    (hprobes : ∀ probe ∈ probes, ∀ addr, C Bool (probe addr)) : C Unit (runProbes probes) := by
  induction probes with
  | nil => exact hC.pure ()
  | cons probe rest ih =>
    have hrest : ∀ probe ∈ rest, ∀ addr, C Bool (probe addr) :=
      fun probe hmem => hprobes probe (List.mem_cons_of_mem _ hmem)
    refine hC.bind hC.getHost fun h => hC.bind (hprobes probe List.mem_cons_self _) fun _ => ?_
    exact hC.ite (hC.setState _ (by decide)) (ih hrest)

theorem configuringTask (hC : Fitting C) (fuel : Fuel) : C Unit (configuringTask fuel) := by
  refine hC.bind (hC.runProbes fun probe hmem addr => ?_) fun _ => hC.bind hC.getHost fun _ => ?_
  · simp only [clientDriverTable, List.mem_cons, List.not_mem_nil, or_false] at hmem
    obtain rfl | rfl | rfl | rfl := hmem
    · exact hC.pure false
    · exact hC.hidProbe _ _ _ _
    · exact hC.hidProbe _ _ _ _
    · exact hC.pure false
  · exact hC.when (hC.setUsbError _)

/-! ### The polls -/

theorem shows (hC : Fitting C) : Shows C where
  toClosed := hC.toClosed
  load := hC.load
  getPio := hC.getPio
  setPio f _ := hC.setPio f

theorem hidPoll (hC : Fitting C) (fuel : Fuel) (o : Obj) : C BYTE (hidPoll fuel ⟨o, 0⟩) := by
  refine hC.bind hC.getHost fun _ => hC.bind (hC.wr rPERADDR _ (by decide)) fun _ => ?_
  refine hC.bind hC.getHost fun h => hC.bind (hC.epRecord _ 1) fun _ => ?_
  exact hC.bind hC.getHost fun h => hC.inTransfer _ _ _ _ _

theorem whileRunning (hC : Fitting C) (fuel : Fuel) : C Unit (whileRunning fuel) :=
  hC.shows.whileRunning (fun _ => hC.setPio _) hC.getHost hC.declare
    (fun _ => hC.assign _ fun _ => ⟨rfl, rfl⟩) (fun _ => hC.assign _ fun _ => ⟨rfl, rfl⟩)
    (hC.hidPoll fuel) (fun _ => hC.hidin fuel addr _ _ _) fun _ => hC.hidin fuel addr _ _ _

end Fitting

end Classes

end TetrisFpga.Usb
