import Mathlib.Data.Nat.Notation

/-!
# Types and constants of the USB host software

The integer types of `GenericTypeDefs.h` and the constants of `MAX3421E.h`, `USB.h`,
`transfer.h`, `usb_ch9.h` and `project_config.h` that the modelled functions use.
-/

namespace TetrisFpga.Usb

abbrev BYTE := BitVec 8
abbrev WORD := BitVec 16
abbrev DWORD := BitVec 32

/-! ## Registers of the MAX3421E and their bits -/

def rRCVFIFO : BYTE := 0x08
def rSUDFIFO : BYTE := 0x20
def rRCVBC : BYTE := 0x30
def rSNDBC : BYTE := 0x38
def rUSBIRQ : BYTE := 0x68
def rUSBCTL : BYTE := 0x78
def rCPUCTL : BYTE := 0x80
def rPINCTL : BYTE := 0x88
def rGPINIRQ : BYTE := 0xb0
def rGPINIEN : BYTE := 0xb8
def rHIRQ : BYTE := 0xc8
def rHIEN : BYTE := 0xd0
def rMODE : BYTE := 0xd8
def rPERADDR : BYTE := 0xe0
def rHCTL : BYTE := 0xe8
def rHXFR : BYTE := 0xf0
def rHRSL : BYTE := 0xf8

def bmOSCOKIRQ : BYTE := 0x01
def bmCHIPRES : BYTE := 0x20
def bmFDUPSPI : BYTE := 0x10
def bmINTLEVEL : BYTE := 0x08
def bmGPXB : BYTE := 0x02
def bmGPINIEN7 : BYTE := 0x80

def bmBUSEVENTIRQ : BYTE := 0x01
def bmRCVDAVIRQ : BYTE := 0x04
def bmSNDBAVIRQ : BYTE := 0x08
def bmCONDETIRQ : BYTE := 0x20
def bmFRAMEIRQ : BYTE := 0x40
def bmHXFRDNIRQ : BYTE := 0x80
def bmCONDETIE : BYTE := 0x20

def bmHOST : BYTE := 0x01
def bmLOWSPEED : BYTE := 0x02
def bmSOFKAENAB : BYTE := 0x08
def bmSEPIRQ : BYTE := 0x10
def bmDMPULLDN : BYTE := 0x40
def bmDPPULLDN : BYTE := 0x80
def modeFsHost : BYTE := bmDPPULLDN ||| bmDMPULLDN ||| bmHOST ||| bmSOFKAENAB
def modeLsHost : BYTE := bmDPPULLDN ||| bmDMPULLDN ||| bmHOST ||| bmLOWSPEED ||| bmSOFKAENAB

def bmBUSRST : BYTE := 0x01
def bmSAMPLEBUS : BYTE := 0x04
def bmRCVTOG0 : BYTE := 0x10
def bmRCVTOG1 : BYTE := 0x20
def bmSNDTOG0 : BYTE := 0x40

def tokSETUP : BYTE := 0x10
def tokIN : BYTE := 0x00
def tokINHS : BYTE := 0x80
def tokOUTHS : BYTE := 0xa0

def bmRCVTOGRD : BYTE := 0x10
def bmKSTATUS : BYTE := 0x40
def bmJSTATUS : BYTE := 0x80
def bmSE0 : BYTE := 0x00
def bmSE1 : BYTE := 0xc0
def hrSUCCESS : BYTE := 0x00
def hrNAK : BYTE := 0x04
def hrSTALL : BYTE := 0x05
def hrTIMEOUT : BYTE := 0x0e

/-! ## States of the USB task -/

def usbStateMask : BYTE := 0xf0
def usbStateDetached : BYTE := 0x00
def usbDetachedSubstateInitialize : BYTE := 0x01
def usbDetachedSubstateWaitForDevice : BYTE := 0x03
def usbDetachedSubstateIllegal : BYTE := 0x04
def usbStateAttached : BYTE := 0x10
def usbAttachedSubstateSettle : BYTE := 0x11
def usbAttachedSubstateResetDevice : BYTE := 0x12
def usbAttachedSubstateWaitResetComplete : BYTE := 0x13
def usbAttachedSubstateWaitSof : BYTE := 0x14
def usbAttachedSubstateGetDeviceDescriptorSize : BYTE := 0x15
def usbStateAddressing : BYTE := 0x20
def usbStateConfiguring : BYTE := 0x30
def usbStateRunning : BYTE := 0x40
def usbStateError : BYTE := 0xff

/-! ## Requests and descriptors -/

def hidK : BYTE := 1
def hidM : BYTE := 2

def usbRequestSetAddress : BYTE := 5
def usbRequestGetDescriptor : BYTE := 6
def usbRequestSetConfiguration : BYTE := 9
def hidRequestGetIdle : BYTE := 0x02
def hidRequestGetProtocol : BYTE := 0x03
def hidRequestSetProtocol : BYTE := 0x0b
def bmReqGetDescr : BYTE := 0x80
def bmReqSet : BYTE := 0x00
def bmReqHidout : BYTE := 0x21
def bmReqHidin : BYTE := 0xa1

def usbDescriptorDevice : BYTE := 0x01
def usbDescriptorConfiguration : BYTE := 0x02
def usbDescriptorString : BYTE := 0x03
def usbDescriptorInterface : BYTE := 0x04
def usbDescriptorEndpoint : BYTE := 0x05
def confDescrLen : WORD := 9
def langEnUs : WORD := 0x0409

def bootProtocol : BYTE := 0x00
def hidIntf : BYTE := 0x03
def bootIntfSubclass : BYTE := 0x01
def hidProtocolKeyboard : BYTE := 0x01
def hidProtocolMouse : BYTE := 0x02

/-! ## Limits of `project_config.h` and the system clock -/

def usbXferTimeout : DWORD := 5000
def usbNakLimit : BYTE := 200
def usbRetryLimit : BYTE := 3

/-- `alt_ticks_per_second()`: the system clock's period is 1 ms. -/
def altTicksPerSecond : DWORD := 1000

end TetrisFpga.Usb
