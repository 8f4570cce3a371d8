import TetrisFpga.Usb.Transfer

/-!
# The HID drivers

`HID.c`: the probes that parse a configuration and the polls. The two probes differ in the
driver number they enter and in the protocol they look for.
-/

namespace TetrisFpga.Usb
open Program

/-- The byte `k` of the descriptor that starts at `bigbuf + pos`. -/
def descr (pos k : ℕ) : Ptr := ⟨.bigbuf, (pos : ℤ) + k⟩

section Hid

variable {χ : Type} [Platform χ]

/-- `HID_init`. -/
def hidInit : Prog χ Unit := do
  setHost fun h => h.setEp .hidEp 1 fun r => { r with sndToggle := bmSNDTOG0 }
  setHost fun h => h.setEp .hidEp 1 fun r => { r with rcvToggle := bmRCVTOG0 }

/-- The requests at the start of a probe: `total_length` and `confvalue`, or `none` where
the probe gives up. -/
def readConfiguration (fuel : Fuel) (addr : BYTE) : Prog χ (Option (WORD × BYTE)) := do
  let rcode ← xferGetConfDescr fuel addr 0 confDescrLen 0 ⟨.bigbuf, 0⟩
  if rcode ≠ 0 then return none
  else
    let wTotalLength ← loadWord (descr 0 2)
    -- no more than `bigbuf` holds
    let totalLength := if wTotalLength > 256 then 256 else wTotalLength
    let rcode ← xferGetConfDescr fuel addr 0 totalLength 0 ⟨.bigbuf, 0⟩
    if rcode ≠ 0 then return none
    else
      let confvalue ← load (descr 0 5)
      return some (totalLength, confvalue)

/-- The interface descriptor at `pos` is the boot interface looked for: the device record
and the interface number are filled in. -/
def fillDevice (driver addr : BYTE) (pos : ℕ) : Prog χ Unit := do
  -- nothing is taken back when the probe fails later on
  setHost fun h => h.setDev addr { h.devtable addr with devclass := driver }
  -- the size for endpoint 0 is carried over from the old table in one byte
  let tmpbyte := (← epRecord addr 0).maxPktSize.setWidth 8
  hidInit
  setHost fun h => h.setDev addr { h.devtable addr with epinfo := some .hidEp }
  setEpRecord addr 0 fun r => { r with maxPktSize := tmpbyte.setWidth 16 }
  let bInterfaceNumber ← load (descr pos 2)
  setHost fun h => { h with hidDevice := { h.hidDevice with interface := bInterfaceNumber } }
  setHost fun h => { h with hidDevice := { h.hidDevice with addr := addr } }

/-- The endpoint descriptor at `pos` is copied to `epinfo[1]` and the device is configured. -/
def fillEndpoint (fuel : Fuel) (addr confvalue : BYTE) (pos : ℕ) : Prog χ Bool := do
  let bEndpointAddress ← load (descr pos 2)
  setEpRecord addr 1 fun r => { r with epAddr := bEndpointAddress }
  let bmAttributes ← load (descr pos 3)
  setEpRecord addr 1 fun r => { r with attr := bmAttributes }
  let wMaxPacketSize ← loadWord (descr pos 4)
  setEpRecord addr 1 fun r => { r with maxPktSize := wMaxPacketSize }
  let bInterval ← load (descr pos 6)
  setEpRecord addr 1 fun r => { r with interval := bInterval }
  let rcode ← xferSetConf fuel addr 0 confvalue
  if rcode ≠ 0 then return false
  else
    let rcode ← xferSetProto fuel addr 0 (← getHost).hidDevice.interface bootProtocol
    if rcode ≠ 0 then return false else return true

/-- What both loops start with: go over a descriptor that is not of type `kind`, and leave
one that is to `found`. -/
def skipTo {β : Type} (kind : BYTE) (found : ℕ → Prog χ (ℕ ⊕ β)) (pos : ℕ) :
    Prog χ (ℕ ⊕ β) := do
  let bDescriptorType ← load (descr pos 1)
  if bDescriptorType ≠ kind then
    let bLength ← load (descr pos 0)
    return .inl (pos + bLength.toNat)
  else found pos

/-- The inner loop. Where it runs to the end of the configuration, the outer loop goes on
from there. -/
def endpointLoop (fuel : Fuel) (addr confvalue : BYTE) (totalLength : WORD) :
    ℕ → ℕ → Prog χ (ℕ ⊕ Bool) :=
  whileLoop .walk (fun pos => pure (decide (pos < totalLength.toNat)))
    (skipTo usbDescriptorEndpoint fun pos => do
      let found ← fillEndpoint fuel addr confvalue pos
      return .inr (.inr found))
    (fun pos => pure (.inl pos))

/-- The branch of the outer loop for an interface descriptor. -/
def parseInterface (fuel : Fuel) (driver protocol addr confvalue : BYTE) (totalLength : WORD)
    (pos : ℕ) : Prog χ (ℕ ⊕ Bool) := do
  let bInterfaceClass ← load (descr pos 5)
  let bInterfaceSubClass ← load (descr pos 6)
  let bInterfaceProtocol ← load (descr pos 7)
  if bInterfaceClass = hidIntf ∧ bInterfaceSubClass = bootIntfSubclass ∧
      bInterfaceProtocol = protocol then
    fillDevice driver addr pos
    let bLength ← load (descr pos 0)
    endpointLoop fuel addr confvalue totalLength fuel.walk (pos + bLength.toNat)
  else return .inr false

/-- The outer loop. -/
def interfaceLoop (fuel : Fuel) (driver protocol addr confvalue : BYTE) (totalLength : WORD)
    (pos : ℕ) : Prog χ Bool :=
  whileLoop .walk (fun pos => pure (decide (pos < totalLength.toNat)))
    (skipTo usbDescriptorInterface
      (parseInterface fuel driver protocol addr confvalue totalLength))
    (fun _ => pure false) fuel.walk pos

/-- The common text of the probes, with the driver number and the protocol of each. -/
def hidProbe (driver protocol : BYTE) (fuel : Fuel) (addr : BYTE) : Prog χ Bool := do
  match ← readConfiguration fuel addr with
  | none => return false
  | some (totalLength, confvalue) =>
    interfaceLoop fuel driver protocol addr confvalue totalLength 0

/-- `HIDMProbe`; the flags are not used. -/
def hidmProbe (fuel : Fuel) (addr : BYTE) : Prog χ Bool :=
  hidProbe hidM hidProtocolMouse fuel addr

/-- `HIDKProbe`; the flags are not used. -/
def hidkProbe (fuel : Fuel) (addr : BYTE) : Prog χ Bool :=
  hidProbe hidK hidProtocolKeyboard fuel addr

/-- The common text of the polls. -/
def hidPoll (fuel : Fuel) (buf : Ptr) : Prog χ BYTE := do
  maxRegWr rPERADDR (← getHost).hidDevice.addr
  let maxPktSize := (← epRecord (← getHost).hidDevice.addr 1).maxPktSize
  xferInTransfer fuel (← getHost).hidDevice.addr 1 8 buf (maxPktSize.setWidth 8)

def mousePoll (fuel : Fuel) (buf : Ptr) : Prog χ BYTE := hidPoll fuel buf

def kbdPoll (fuel : Fuel) (buf : Ptr) : Prog χ BYTE := hidPoll fuel buf

end Hid

/-! ## Classes of programs with the requests of a probe -/

section Classes

variable {χ : Type} [Platform χ] {C : ∀ α : Type, Prog χ α → Prop} {addr : BYTE}

/-- A poll is an IN transfer from the endpoint 1. -/
theorem hidPoll_receives (hC : ∀ addr, Receives C addr 1) (hget : C Host getHost)
    (hwr : ∀ val, C Unit (maxRegWr rPERADDR val)) (fuel : Fuel) (buf : Ptr) :
    C BYTE (hidPoll fuel buf) := by
  refine (hC 0).bind hget fun _ => (hC 0).bind (hwr _) fun _ => ?_
  refine (hC 0).bind hget fun h => (hC 0).bind (hC _).epRecord fun _ => ?_
  exact (hC 0).bind hget fun h => (hC _).xferInTransfer _ _ _ _

theorem hidPoll_mem (hC : ∀ addr, RequestsAt C addr 1) (fuel : Fuel) (buf : Ptr) :
    C BYTE (hidPoll fuel buf) :=
  hidPoll_receives (fun addr => (hC addr).receives) (hC 0).getHost ((hC 0).wr rPERADDR) fuel buf

omit [Platform χ] in
/-- Both loops look at a descriptor first. -/
theorem skipTo_mem (hC : Closed C) (hload : ∀ p, C BYTE (load p)) {β : Type} (kind : BYTE)
    {found : ℕ → Prog χ (ℕ ⊕ β)} (hfound : ∀ pos, C (ℕ ⊕ β) (found pos)) (pos : ℕ) :
    C (ℕ ⊕ β) (skipTo kind found pos) := by
  refine hC.bind (hload _) fun _ => hC.ite ?_ (hfound pos)
  exact hC.bind (hload _) fun _ => hC.pure _

/-- A probe asks for no more of the configuration than `bigbuf` holds. -/
theorem readConfiguration_mem (hC : Closed C) (hload : ∀ p, C BYTE (load p)) {fuel : Fuel}
    (hrequest : ∀ n : WORD, n ≤ 256 → C BYTE (xferGetConfDescr fuel addr 0 n 0 ⟨.bigbuf, 0⟩)) :
    C (Option (WORD × BYTE)) (readConfiguration fuel addr) := by
  refine hC.bind (hrequest _ (by decide)) fun rcode => hC.ite (hC.pure _) ?_
  refine hC.bind (hC.bind (hload _) fun _ => hC.bind (hload _) fun _ => hC.pure _) fun n => ?_
  refine hC.bind (hrequest _ ?_) fun rcode => hC.ite (hC.pure _) ?_
  · split
    · exact BitVec.le_refl _
    · rename_i hn
      exact BitVec.not_lt.mp hn
  · exact hC.bind (hload _) fun confvalue => hC.pure _

theorem fillEndpoint_mem (hC : Closed C) (hload : ∀ p, C BYTE (load p))
    (hset : ∀ f, C Unit (setEpRecord addr 1 f)) (hget : C Host getHost) {fuel : Fuel}
    (hconf : ∀ confvalue, C BYTE (xferSetConf fuel addr 0 confvalue))
    (hproto : ∀ interface, C BYTE (xferSetProto fuel addr 0 interface bootProtocol))
    (confvalue : BYTE) (pos : ℕ) : C Bool (fillEndpoint fuel addr confvalue pos) := by
  refine hC.bind (hload _) fun _ => hC.bind (hset _) fun _ => ?_
  refine hC.bind (hload _) fun _ => hC.bind (hset _) fun _ => ?_
  refine hC.bind (hC.bind (hload _) fun _ => hC.bind (hload _) fun _ => hC.pure _) fun _ => ?_
  refine hC.bind (hset _) fun _ => hC.bind (hload _) fun _ => hC.bind (hset _) fun _ => ?_
  refine hC.bind (hconf _) fun rcode => hC.ite (hC.pure _) ?_
  refine hC.bind hget fun h => hC.bind (hproto _) fun rcode => ?_
  exact hC.ite (hC.pure _) (hC.pure _)

namespace TransfersAt

theorem readConfiguration (hC : TransfersAt C addr 0) (fuel : Fuel) :
    C (Option (WORD × BYTE)) (readConfiguration fuel addr) :=
  readConfiguration_mem hC.toClosed hC.load fun _ _ => hC.xferCtrlReq _ _ _ _ _ _ _ _

theorem skipTo {ep : BYTE} (hC : TransfersAt C addr ep) {β : Type} (kind : BYTE)
    {found : ℕ → Prog χ (ℕ ⊕ β)} (hfound : ∀ pos, C (ℕ ⊕ β) (found pos)) (pos : ℕ) :
    C (ℕ ⊕ β) (skipTo kind found pos) :=
  skipTo_mem hC.toClosed hC.load kind hfound pos

theorem fillEndpoint (hC : TransfersAt C addr 0) (hC₁ : TransfersAt C addr 1) (fuel : Fuel)
    (confvalue : BYTE) (pos : ℕ) : C Bool (fillEndpoint fuel addr confvalue pos) :=
  fillEndpoint_mem hC.toClosed hC.load hC₁.setEpRecord hC.getHost
    (fun _ => hC.xferCtrlReq _ _ _ _ _ _ _ _) (fun _ => hC.xferCtrlReq _ _ _ _ _ _ _ _)
    confvalue pos

end TransfersAt

namespace Transfers

theorem readConfiguration (hC : Transfers C) (fuel : Fuel) (addr : BYTE) :
    C (Option (WORD × BYTE)) (readConfiguration fuel addr) :=
  (hC.transfersAt addr 0).readConfiguration fuel

theorem skipTo (hC : Transfers C) {β : Type} (kind : BYTE) {found : ℕ → Prog χ (ℕ ⊕ β)}
    (hfound : ∀ pos, C (ℕ ⊕ β) (found pos)) (pos : ℕ) : C (ℕ ⊕ β) (skipTo kind found pos) :=
  (hC.transfersAt 0 0).skipTo kind hfound pos

theorem fillEndpoint (hC : Transfers C) (fuel : Fuel) (addr confvalue : BYTE) (pos : ℕ) :
    C Bool (fillEndpoint fuel addr confvalue pos) :=
  (hC.transfersAt addr 0).fillEndpoint (hC.transfersAt addr 1) fuel confvalue pos

theorem hidPoll (hC : Transfers C) (fuel : Fuel) (buf : Ptr) : C BYTE (hidPoll fuel buf) :=
  hidPoll_mem (fun addr => (hC.transfersAt addr 1).toRequestsAt) fuel buf

end Transfers

end Classes

end TetrisFpga.Usb
