import TetrisFpga.Usb.Hid
import TetrisFpga.Usb.Max3421e

/-!
# The USB task

`USB_init` and the state machine `USB_Task` of `transfer.c`, one function for each group of
states.
-/

namespace TetrisFpga.Usb
open Program

section Task

variable {χ : Type} [Platform χ]

/-- `devtable[i].epinfo = t`. -/
def setEpinfo (i : BYTE) (t : Option EpTable) : Prog χ Unit :=
  setHost fun h => h.setDev i { h.devtable i with epinfo := t }

/-- `devtable[i].devclass = c`. -/
def setDevclass (i c : BYTE) : Prog χ Unit :=
  setHost fun h => h.setDev i { h.devtable i with devclass := c }

def usbInit : Prog χ Unit := do
  [0, 1, 2, 3, 4, 5, 6, 7, 8].forM fun i : BYTE => do
    setEpinfo i none
    setDevclass i 0
  setEpinfo 0 (some .dev0ep)
  setHost fun h => h.setEp .dev0ep 0 fun r => { r with maxPktSize := 0 }
  setHost fun h => h.setEp .dev0ep 0 fun r => { r with sndToggle := bmSNDTOG0 }
  setHost fun h => h.setEp .dev0ep 0 fun r => { r with rcvToggle := bmRCVTOG0 }

/-- The three assignments on the way to the error state. -/
def setUsbError (rcode : BYTE) : Prog χ Unit := do
  setHost fun h => { h with usbError := rcode }
  setHost fun h => { h with lastUsbTaskState := h.usbTaskState }
  setUsbTaskState usbStateError

/-- A string descriptor is read and converted for the log. -/
def getStrDescr (fuel : Fuel) (index : BYTE) : Prog χ Unit := do
  declare .strDesc
  let _ ← xferGetStrDescr fuel 0 0 2 index langEnUs ⟨.strDesc, 0⟩
  let bLength ← load ⟨.strDesc, 0⟩
  let _ ← xferGetStrDescr fuel 0 0 (bLength.setWidth 16) index langEnUs ⟨.strDesc, 0⟩
  let bLength ← load ⟨.strDesc, 0⟩
  convUTF8ToStr ⟨.strDesc, 2⟩ (bLength >>> 1 - 1)

/-- `USB_ATTACHED_SUBSTATE_GET_DEVICE_DESCRIPTOR_SIZE`. -/
def getDeviceDescriptor (fuel : Fuel) : Prog χ Unit := do
  setEpRecord 0 0 fun r => { r with maxPktSize := 0x0008 }
  let rcode ← xferGetDevDescr fuel 0 0 8 ⟨.buf, 0⟩
  if rcode = 0 then
    let bMaxPacketSize0 ← load ⟨.buf, 7⟩
    setEpRecord 0 0 fun r => { r with maxPktSize := bMaxPacketSize0.setWidth 16 }
    let bLength ← load ⟨.buf, 0⟩
    -- from here on the results are not tested
    let _ ← xferGetDevDescr fuel 0 0 (bLength.setWidth 16) ⟨.buf, 0⟩
    let iManufacturer ← load ⟨.buf, 14⟩
    when (iManufacturer ≠ 0) (getStrDescr fuel iManufacturer)
    let iProduct ← load ⟨.buf, 15⟩
    when (iProduct ≠ 0) (getStrDescr fuel iProduct)
    setUsbTaskState usbStateAddressing
  else
    setUsbError rcode

def detachedTask (s : BYTE) : Prog χ Unit := do
  if s = usbDetachedSubstateInitialize then
    usbInit
    setUsbTaskState usbDetachedSubstateWaitForDevice
  else if s = usbDetachedSubstateWaitForDevice then
    maxRegWr rHCTL bmSAMPLEBUS

def attachedTask (fuel : Fuel) (s : BYTE) : Prog χ Unit := do
  if s = usbStateAttached then
    let now ← altMs
    setHost fun h => { h with usbDelay := now + 200 }
    setUsbTaskState usbAttachedSubstateSettle
  else if s = usbAttachedSubstateSettle then
    let now ← altMs
    if now > (← getHost).usbDelay then
      setUsbTaskState usbAttachedSubstateResetDevice
  else if s = usbAttachedSubstateResetDevice then
    maxRegWr rHIRQ bmBUSEVENTIRQ
    maxRegWr rHCTL bmBUSRST
    setUsbTaskState usbAttachedSubstateWaitResetComplete
  else if s = usbAttachedSubstateWaitResetComplete then
    if (← maxRegRd rHCTL) &&& bmBUSRST = 0 then
      let tmpdata := (← maxRegRd rMODE) ||| bmSOFKAENAB
      maxRegWr rMODE tmpdata
      setUsbTaskState usbAttachedSubstateWaitSof
  else if s = usbAttachedSubstateWaitSof then
    -- `|`, so the test is true whatever `HIRQ` holds
    if (← maxRegRd rHIRQ) ||| bmFRAMEIRQ ≠ 0 then
      setUsbTaskState usbAttachedSubstateGetDeviceDescriptorSize
  else if s = usbAttachedSubstateGetDeviceDescriptorSize then
    getDeviceDescriptor fuel

/-- `devtable[i]` gets the device. -/
def assignAddress (fuel : Fuel) (i : BYTE) : Prog χ Unit := do
  setEpinfo i ((← getHost).devtable 0).epinfo
  let rcode ← xferSetAddr fuel 0 0 i
  if rcode = 0 then
    setHost fun h => { h with tmpAddr := i }
    setUsbTaskState usbStateConfiguring
  else
    setUsbError rcode

/-- The first index from 1 on, below `USB_NUMDEVICES`, whose entry is free. -/
def freeEntry (h : Host) : Option BYTE := addresses.find? fun i => (h.devtable i).epinfo.isNone

def assignFreeAddress (fuel : Fuel) : Option BYTE → Prog χ Unit
  | some i => assignAddress fuel i
  | none => pure ()

def addressingTask (fuel : Fuel) : Prog χ Unit := do
  assignFreeAddress fuel (freeEntry (← getHost))
  let s := (← getHost).usbTaskState
  -- no entry was free
  when (s = usbStateAddressing) (setUsbError 0xfe)

/-- The probes of `ClientDriverTable`, of which two are place-holders. -/
def clientDriverTable (fuel : Fuel) : List (BYTE → Prog χ Bool) :=
  [fun _ => pure false, hidmProbe fuel, hidkProbe fuel, fun _ => pure false]

/-- The probes are run in turn until one returns TRUE. -/
def runProbes : List (BYTE → Prog χ Bool) → Prog χ Unit
  | [] => pure ()
  | probe :: rest => do
    if ← probe (← getHost).tmpAddr then
      setUsbTaskState usbStateRunning
    else
      runProbes rest

def configuringTask (fuel : Fuel) : Prog χ Unit := do
  runProbes (clientDriverTable fuel)
  let s := (← getHost).usbTaskState
  -- no probe took the device
  when (s = usbStateConfiguring) (setUsbError 0xfd)

/-- `USB_Task`. Nothing is done in the states RUNNING and ERROR and in those without a case. -/
def usbTask (fuel : Fuel) : Prog χ Unit := do
  declare .buf
  let s := (← getHost).usbTaskState
  if s &&& usbStateMask = usbStateDetached then
    detachedTask s
  else if s &&& usbStateMask = usbStateAttached then
    attachedTask fuel s
  else if s &&& usbStateMask = usbStateAddressing then
    addressingTask fuel
  else if s &&& usbStateMask = usbStateConfiguring then
    configuringTask fuel

end Task

end TetrisFpga.Usb
