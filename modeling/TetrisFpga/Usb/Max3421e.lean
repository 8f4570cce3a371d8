import TetrisFpga.Usb.Transfer

/-!
# The MAX3421E driver

`MAX3421E.c` above the register accesses: reset, initialisation, the bus probe and the
interrupt handlers.
-/

namespace TetrisFpga.Usb
open Program

/-- `bus_sample` for a value of `HRSL`. -/
def busSample (hrsl : BYTE) : BYTE := hrsl &&& (bmJSTATUS ||| bmKSTATUS)

section Max3421e

variable {χ : Type} [Platform χ]

/-- `usb_task_state = s`. -/
def setUsbTaskState (s : BYTE) : Prog χ Unit := setHost fun h => { h with usbTaskState := s }

/-- The wait loop of `MAX3421E_reset`, with `tmp`. -/
def waitOscillator (n : ℕ) : Prog χ Unit :=
  whileLoop .reset (fun _ => do return decide ((← maxRegRd rUSBIRQ) &&& bmOSCOKIRQ = 0))
    (fun tmp : BYTE => pure (.inl (tmp + 1))) (fun _ => pure ()) n 0

def max3421eReset (fuel : Fuel) : Prog χ Unit := do
  usbRst 0
  usbRst 1
  maxRegWr rUSBCTL bmCHIPRES
  maxRegWr rUSBCTL 0x00
  waitOscillator fuel.reset

/-- A device pulls the bus: start the host in `mode`, or in the other mode where the chip is
set to low speed, and begin to attach. A bus reset pulls the bus too. -/
def startHost (mode lowSpeedMode : BYTE) : Prog χ Unit := do
  if (← getHost).usbTaskState ≠ usbAttachedSubstateWaitResetComplete then
    let rmode ← maxRegRd rMODE
    maxRegWr rMODE (if rmode &&& bmLOWSPEED = 0 then mode else lowSpeedMode)
    setUsbTaskState usbStateAttached

def maxBusprobe : Prog χ Unit := do
  let sample := busSample (← maxRegRd rHRSL)
  if sample = bmJSTATUS then
    startHost modeFsHost modeLsHost
  else if sample = bmKSTATUS then
    startHost modeLsHost modeFsHost
  else if sample = bmSE1 then
    setUsbTaskState usbDetachedSubstateIllegal
  -- SE0: nothing pulls the bus
  else if (← getHost).usbTaskState &&& usbStateMask ≠ usbStateDetached then
    setUsbTaskState usbDetachedSubstateInitialize
  else
    maxRegWr rMODE modeFsHost
    setUsbTaskState usbDetachedSubstateWaitForDevice

/-- `MAX3421E_init`; `Vbus_power` does nothing. -/
def max3421eInit (fuel : Fuel) : Prog χ Unit := do
  maxRegWr rPINCTL (bmFDUPSPI + bmINTLEVEL + bmGPXB)
  max3421eReset fuel
  maxRegWr rGPINIEN bmGPINIEN7
  maxRegWr rMODE (bmDPPULLDN ||| bmDMPULLDN ||| bmHOST ||| bmSEPIRQ)
  maxRegWr rHIEN bmCONDETIE
  maxRegWr rHCTL bmSAMPLEBUS
  -- a device may be there already: its interrupt is cleared next
  maxBusprobe
  maxRegWr rHIRQ bmCONDETIRQ
  maxRegWr rCPUCTL 0x01

/-- `HIRQ_sendback` for a value of `HIRQ`. -/
def hirqSendback (hirq : BYTE) : BYTE :=
  let sendback := if hirq &&& bmFRAMEIRQ ≠ 0 then 0x00 ||| bmFRAMEIRQ else 0x00
  let sendback := if hirq &&& bmCONDETIRQ ≠ 0 then sendback ||| bmCONDETIRQ else sendback
  if hirq &&& bmBUSEVENTIRQ ≠ 0 then sendback ||| bmBUSEVENTIRQ else sendback

def maxIntHandler : Prog χ Unit := do
  let hirq ← maxRegRd rHIRQ
  when (hirq &&& bmCONDETIRQ ≠ 0) maxBusprobe
  when (hirq &&& bmSNDBAVIRQ ≠ 0) (maxRegWr rSNDBC 0x00)
  -- `usb_task_state++`, in whatever state the task is
  when (hirq &&& bmBUSEVENTIRQ ≠ 0) do
    setHost fun h => { h with usbTaskState := h.usbTaskState + 1 }
  maxRegWr rHIRQ (hirqSendback hirq)

def maxGpxHandler : Prog χ Unit := do
  let _ ← maxRegRd rGPINIRQ

def max3421eTask : Prog χ Unit := do
  let irq ← usbIrq
  when (irq = 0) maxIntHandler
  let gpx ← usbGpx
  when (gpx = 1) maxGpxHandler

end Max3421e

end TetrisFpga.Usb
