import TetrisFpga.Usb.Timeout

/-!
# A device on the bus

What the program relies on when a device is there: a MAX3421E that carries out the packets it is
told to launch, and a device that answers on its control pipe and sends reports on its endpoint 1.
Both may take their time, and both may be as they like where the program does not look.

## Main definitions

- `Device`, `Link`: the device, and what it and the chip hold between two packets
- `Serves`: a board with such a chip and such a device
-/

namespace TetrisFpga.Usb
open Program

/-! ## The chip and the device -/

/-- The clock of the board: the milliseconds, and how often it is read at most before it goes on. -/
structure Time where
  ms : ℕ
  reads : ℕ

/-- How long the chip and the program take: the polls for a packet, the reads of `USBIRQ` before the
oscillator is stable, and the milliseconds between two readings of the clock. A packet that is put
off as often as the program allows is over in five seconds. -/
structure Pace where
  polls : ℕ
  starts : ℕ
  lag : ℕ
  in_time : (200 * (polls + 1) + 1) * lag < 5000

/-- Two readings, one after the other. -/
def Time.Ticks (pace : Pace) (t t' : Time) : Prop :=
  t'.ms = t.ms ∧ t'.reads < t.reads ∨ t.ms < t'.ms ∧ t'.ms ≤ t.ms + pace.lag

/-- `wLength` of a setup packet. -/
def wLength (setup : List BYTE) : ℕ := (setup.getD 6 0).toNat + 256 * (setup.getD 7 0).toNat

/-- A device: the size of its packets, the data it sends for the setup packet of a read, if it does
not refuse, and the reports of its endpoint 1. It sends no more than it is asked for. -/
structure Device where
  maxPacketSize : BYTE
  answer : List BYTE → Option (List BYTE)
  report : ℕ → List BYTE
  eight_le : 8 ≤ maxPacketSize.toNat
  answer_le : ∀ {setup data}, answer setup = some data → data.length ≤ wLength setup
  report_le : ∀ k, (report k).length ≤ 8

/-- What the chip and the device hold between two packets: `PERADDR` and the bytes in `SUDFIFO`, the
address of the device and the one it takes over next, what is left of its reply, and the number of
reports that it has sent. -/
structure Link where
  perAddr : BYTE
  setup : List BYTE := []
  address : BYTE := 0
  newAddress : Option BYTE := none
  reply : Option (List BYTE) := none
  sent : ℕ := 0

/-- Where the chip is: before the reset, before its oscillator is stable, idle, in a bus reset, and
with a packet that is to be launched, is launched, is over or has been received. The numbers bound
what is still to come: registers that are read in vain, NAKs and polls. -/
inductive Moment
  | off
  | starting (reads : ℕ)
  | idle (l : Link)
  | resetting (l : Link) (reads : ℕ)
  | asked (l : Link) (hxfr : BYTE) (naks : ℕ)
  | flight (l : Link) (hxfr : BYTE) (naks polls : ℕ)
  | over (l : Link) (hxfr : BYTE) (naks : ℕ)
  | holds (l : Link) (size : ℕ) (fifo : List BYTE)

/-- Nothing is under way on the control pipe. -/
def Link.quiet (perAddr address : BYTE) (sent : ℕ) : Link where
  perAddr := perAddr
  address := address
  sent := sent

/-- A device after a bus reset. -/
def Link.unaddressed (l : Link) : Link := .quiet l.perAddr 0 l.sent

namespace Device

/-- The device takes a setup packet: a read has a reply, and `SET_ADDRESS` an address. -/
def takeSetup (dev : Device) (l : Link) : Link where
  perAddr := l.perAddr
  address := l.address
  newAddress := if l.setup.take 2 = [bmReqSet, usbRequestSetAddress] then l.setup[2]? else none
  reply := if l.setup.headD 0 &&& 0x80 ≠ 0 then dev.answer l.setup else none
  sent := l.sent

/-- The result of a packet on the control pipe. -/
def result (l : Link) (hxfr : BYTE) : BYTE :=
  if hxfr = tokIN ∧ l.reply = none then hrSTALL else hrSUCCESS

/-- Where the chip is after a packet on the control pipe. A new address is taken over with the
status stage. -/
def after (dev : Device) (l : Link) (hxfr : BYTE) : Moment :=
  if hxfr = tokSETUP then .idle (dev.takeSetup l)
  else if hxfr = tokIN then
    match l.reply with
    | none => .idle l
    | some data =>
      let packet := data.take dev.maxPacketSize.toNat
      .holds { l with reply := some (data.drop dev.maxPacketSize.toNat) } packet.length packet
  else if hxfr = tokOUTHS then .idle { l with reply := none }
  else .idle { l with address := l.newAddress.getD l.address, newAddress := none }

theorem after_refused {dev : Device} {l : Link} (h : l.reply = none) :
    dev.after l (tokIN ||| 0) = .idle l := by
  rw [after, if_neg (by decide), if_pos (by decide), h]

theorem after_replied {dev : Device} {l : Link} {data : List BYTE} (h : l.reply = some data) :
    dev.after l (tokIN ||| 0) =
      .holds { l with reply := some (data.drop dev.maxPacketSize.toNat) }
        (data.take dev.maxPacketSize.toNat).length (data.take dev.maxPacketSize.toNat) := by
  rw [after, if_neg (by decide), if_pos (by decide), h]

end Device

/-- The packets on the control pipe. -/
def controlPackets : List BYTE := [tokSETUP, tokIN, tokOUTHS, tokINHS]

/-- A board with a device on the bus: `At m t c` says where the chip is in the state `c` of the
board, and what its clock shows. The chip interrupts in a bus reset only. -/
structure Serves {χ : Type} [Platform χ] (dev : Device) (pace : Pace)
    (At : Moment → Time → χ → Prop) : Prop where
  nticks : ∀ {m t c}, At m t c → (Platform.nticks c).1 = BitVec.ofNat 32 t.ms ∧
    ∃ t', t.Ticks pace t' ∧ At m t' (Platform.nticks c).2
  irq : ∀ {m t c}, At m t c → At m t (Platform.irq c).2
  calm : ∀ {m t c}, (∀ l n, m ≠ .resetting l n) → At m t c → (Platform.irq c).1 ≠ 0
  gpx : ∀ {m t c}, At m t c → At m t (Platform.gpx c).2
  gpin : ∀ {m t c}, At m t c → At m t (Platform.rd c rGPINIRQ).2
  stack : ∀ {m t c}, At m t c → At m t (Platform.stack c).2
  off_rd : ∀ {t c} reg, At .off t c → At .off t (Platform.rd c reg).2
  off_wr : ∀ {t c reg} val, reg ≠ rUSBCTL → At .off t c → At .off t (Platform.wr c reg val)
  chipReset : ∀ {t c}, At .off t c →
    ∃ n ≤ pace.starts, At (.starting n) t (Platform.wr c rUSBCTL bmCHIPRES)
  start : ∀ {n t c}, At (.starting n) t c → At (.starting n) t (Platform.wr c rUSBCTL 0x00)
  oscillator : ∀ {n t c}, At (.starting n) t c →
    ((Platform.rd c rUSBIRQ).1 &&& bmOSCOKIRQ = 0 ∧
      ∃ n' < n, At (.starting n') t (Platform.rd c rUSBIRQ).2) ∨
    ((Platform.rd c rUSBIRQ).1 &&& bmOSCOKIRQ ≠ 0 ∧
      ∃ l, l.sent = 0 ∧ At (.idle l) t (Platform.rd c rUSBIRQ).2)
  rd : ∀ {l t c} reg, At (.idle l) t c → At (.idle l) t (Platform.rd c reg).2
  sample : ∀ {l t c}, At (.idle l) t c → busSample (Platform.rd c rHRSL).1 = bmJSTATUS ∨
    busSample (Platform.rd c rHRSL).1 = bmKSTATUS
  wr : ∀ {l t c reg val}, reg ∉ [rPERADDR, rSUDFIFO, rHXFR, rUSBCTL] →
    (reg = rHCTL → val &&& bmBUSRST = 0) → At (.idle l) t c →
    At (.idle l) t (Platform.wr c reg val)
  perAddr : ∀ {l t c} addr, At (.idle l) t c →
    At (.idle { l with perAddr := addr }) t (Platform.wr c rPERADDR addr)
  setup : ∀ {l t c} b, At (.idle l) t c →
    At (.idle { l with setup := l.setup ++ [b] }) t (Platform.wr c rSUDFIFO b)
  busReset : ∀ {l t c}, At (.idle l) t c →
    ∃ n, At (.resetting l n) t (Platform.wr c rHCTL bmBUSRST)
  resets : ∀ {l n t c}, At (.resetting l n) t c →
    ((Platform.rd c rHCTL).1 &&& bmBUSRST ≠ 0 ∧
      ∃ n' < n, At (.resetting l n') t (Platform.rd c rHCTL).2) ∨
    ((Platform.rd c rHCTL).1 &&& bmBUSRST = 0 ∧
      At (.idle l.unaddressed) t (Platform.rd c rHCTL).2)
  reset_rd : ∀ {l n t c reg}, reg ≠ rHCTL → At (.resetting l n) t c →
    At (.resetting l n) t (Platform.rd c reg).2
  reset_wr : ∀ {l n t c reg} val, reg = rHIRQ ∨ reg = rSNDBC → At (.resetting l n) t c →
    At (.resetting l n) t (Platform.wr c reg val)
  reset_hirq : ∀ {l n t c}, At (.resetting l n) t c →
    (Platform.rd c rHIRQ).1 &&& bmBUSEVENTIRQ = 0
  reset_sample : ∀ {l n t c}, At (.resetting l n) t c →
    busSample (Platform.rd c rHRSL).1 = bmJSTATUS ∨ busSample (Platform.rd c rHRSL).1 = bmKSTATUS
  ask : ∀ {l t c} hxfr, At (.idle l) t c →
    ∃ naks, (hxfr ∈ controlPackets → naks < usbNakLimit.toNat) ∧ At (.asked l hxfr naks) t c
  giveUp : ∀ {l hxfr naks t c}, At (.asked l hxfr naks) t c → At (.idle l) t c
  launch : ∀ {l hxfr naks t c}, At (.asked l hxfr naks) t c →
    ∃ n ≤ pace.polls, At (.flight l hxfr naks n) t (Platform.wr c rHXFR hxfr)
  poll : ∀ {l hxfr naks n t c}, At (.flight l hxfr naks n) t c →
    ((Platform.rd c rHIRQ).1 &&& bmHXFRDNIRQ = 0 ∧
      ∃ n' < n, At (.flight l hxfr naks n') t (Platform.rd c rHIRQ).2) ∨
    ((Platform.rd c rHIRQ).1 &&& bmHXFRDNIRQ ≠ 0 ∧
      At (.over l hxfr naks) t (Platform.rd c rHIRQ).2)
  clear : ∀ {l hxfr naks t c}, At (.over l hxfr naks) t c →
    At (.over l hxfr naks) t (Platform.wr c rHIRQ bmHXFRDNIRQ)
  control : ∀ {l hxfr naks t c}, At (.over l hxfr naks) t c → hxfr ∈ controlPackets →
    l.perAddr = l.address →
    ((Platform.rd c rHRSL).1 &&& 0x0f = hrNAK ∧
      ∃ naks' < naks, At (.asked l hxfr naks') t (Platform.rd c rHRSL).2) ∨
    ((Platform.rd c rHRSL).1 &&& 0x0f = Device.result l hxfr ∧
      At (dev.after l hxfr) t (Platform.rd c rHRSL).2)
  interrupt : ∀ {l naks t c}, At (.over l (tokIN ||| 1) naks) t c → l.perAddr = l.address →
    ((Platform.rd c rHRSL).1 &&& 0x0f = hrNAK ∧
      ∃ naks', At (.asked l (tokIN ||| 1) naks') t (Platform.rd c rHRSL).2) ∨
    ((Platform.rd c rHRSL).1 &&& 0x0f = hrSUCCESS ∧
      At (.holds { l with sent := l.sent + 1 } (dev.report l.sent).length (dev.report l.sent)) t
        (Platform.rd c rHRSL).2)
  received : ∀ {l size fifo t c}, At (.holds l size fifo) t c →
    (Platform.rd c rHIRQ).1 &&& bmRCVDAVIRQ ≠ 0 ∧
      At (.holds l size fifo) t (Platform.rd c rHIRQ).2
  size : ∀ {l size fifo t c}, At (.holds l size fifo) t c →
    (Platform.rd c rRCVBC).1 = BitVec.ofNat 8 size ∧
      At (.holds l size fifo) t (Platform.rd c rRCVBC).2
  fifo : ∀ {l size fifo t c}, At (.holds l size fifo) t c →
    (Platform.rd c rRCVFIFO).1 = fifo.headD (Platform.rd c rRCVFIFO).1 ∧
      At (.holds l size fifo.tail) t (Platform.rd c rRCVFIFO).2
  release : ∀ {l size fifo t c}, At (.holds l size fifo) t c →
    At (.idle l) t (Platform.wr c rHIRQ bmRCVDAVIRQ)

end TetrisFpga.Usb
