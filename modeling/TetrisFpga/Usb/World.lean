import Mathlib.Data.Int.Notation
import TetrisFpga.Machine.Program
import TetrisFpga.Usb.Defs

/-!
# The world of the USB host software

What the C program reads and writes: its global variables and the locals of `main`, the
buffers behind its pointers, the PIO registers, and the board. The board is a parameter:
`Platform` says what the program can see of it, and a theorem about every platform is one
about every device, every order of plugging and unplugging and every timing.

Every access leaves an event in `log`, the newest first. Each write to a global leaves a
snapshot of all of them, so a property of the log is one of every moment of the run. Each use of
an endpoint record leaves the indices that it is looked up with.
-/

namespace TetrisFpga.Usb

/-- The MAX3421E behind the SPI port, the pins `USB_IRQ` and `USB_GPX`, the system clock,
and the bytes a function finds in an uninitialised local. -/
class Platform (χ : Type) where
  rd : χ → BYTE → BYTE × χ
  wr : χ → BYTE → BYTE → χ
  irq : χ → BYTE × χ
  gpx : χ → BYTE × χ
  nticks : χ → DWORD × χ
  stack : χ → (ℤ → BYTE) × χ

/-! ## Data -/

/-- The arrays of endpoint records: `dev0ep` has one record, `hid_ep` has two. -/
inductive EpTable
  | dev0ep
  | hidEp
  deriving DecidableEq

def EpTable.size : EpTable → ℕ
  | .dev0ep => 1
  | .hidEp => 2

/-- `EP_RECORD`. -/
structure EpRecord where
  epAddr : BYTE := 0
  attr : BYTE := 0
  maxPktSize : WORD := 0
  interval : BYTE := 0
  sndToggle : BYTE := 0
  rcvToggle : BYTE := 0
  deriving DecidableEq

/-- `DEV_RECORD`; a NULL `epinfo` is `none`. -/
structure DevRecord where
  epinfo : Option EpTable := none
  devclass : BYTE := 0
  deriving DecidableEq

/-- `HID_DEVICE`. -/
structure HidDevice where
  addr : BYTE := 0
  interface : BYTE := 0
  deriving DecidableEq

/-- The global and static variables, and `main`'s locals `runningdebugflag`, `errorflag`
and `device`. -/
structure Host where
  usbTaskState : BYTE := usbDetachedSubstateInitialize
  usbError : BYTE := 0
  lastUsbTaskState : BYTE := 0
  usbDelay : DWORD := 0
  tmpAddr : BYTE := 0
  devtable : BYTE → DevRecord := fun _ => {}
  eps : EpTable → BYTE → EpRecord := fun _ _ => {}
  hidDevice : HidDevice := {}
  runningdebugflag : BYTE := 0
  errorflag : BYTE := 0
  device : BYTE := 0

/-- The addresses a device can be given: 1 up to `USB_NUMDEVICES - 1`. -/
def addresses : List BYTE := [1, 2, 3, 4, 5, 6, 7]

/-- `devtable[addr] = r`. -/
def Host.setDev (h : Host) (addr : BYTE) (r : DevRecord) : Host :=
  { h with devtable := fun a => if a = addr then r else h.devtable a }

/-- The record `t[ep]` changed by `f`. -/
def Host.setEp (h : Host) (t : EpTable) (ep : BYTE) (f : EpRecord → EpRecord) : Host :=
  { h with eps := fun t' i => if t' = t ∧ i = ep then f (h.eps t ep) else h.eps t' i }

/-- The objects that the program's byte pointers point into: `bigbuf`, the locals `buf` and
`strDesc` of `USB_Task`, `kbdbuf` and `buf` of `main`, `tmpbyte` of `GetDriverandReport`. -/
inductive Obj
  | bigbuf
  | buf
  | strDesc
  | kbdbuf
  | mousebuf
  | tmpbyte
  deriving DecidableEq

/-- `BYTE*`: an object and an offset. The offset may lie outside the object: such a store changes
no variable here, and the log tells what it does in the image to the table behind `bigbuf`. -/
structure Ptr where
  obj : Obj
  off : ℤ := 0
  deriving DecidableEq

/-- `p + n`. -/
def Ptr.add (p : Ptr) (n : ℤ) : Ptr := { p with off := p.off + n }

@[simp] theorem Ptr.add_obj (p : Ptr) (n : ℤ) : (p.add n).obj = p.obj := rfl

@[simp] theorem Ptr.add_off (p : Ptr) (n : ℤ) : (p.add n).off = p.off + n := rfl

/-- The output PIOs, of 14, 16 and 8 bits. -/
structure Pio where
  leds : BitVec 14 := 0
  hexDigits : BitVec 16 := 0
  keycode : BitVec 8 := 0

inductive Event
  | rd (reg val : BYTE)
  | wr (reg val : BYTE)
  | irq (val : BYTE)
  | gpx (val : BYTE)
  | nticks (val : DWORD)
  | usbRst (val : BYTE)
  | load (p : Ptr)
  | store (p : Ptr) (val : BYTE)
  | host (h : Host)
  | access (addr ep : BYTE)

/-- The loop that ran out of fuel, or an endpoint record behind a NULL pointer or outside
its array. -/
inductive Fault
  | wait
  | dispatch
  | transfer
  | walk
  | reset
  | deref
  deriving DecidableEq

/-- The number of rounds each loop may take. -/
structure Fuel where
  wait : ℕ
  dispatch : ℕ
  transfer : ℕ
  walk : ℕ
  reset : ℕ

structure World (χ : Type) where
  chip : χ
  host : Host := {}
  mem : Obj → ℤ → BYTE
  pio : Pio := {}
  log : List Event := []

abbrev Prog (χ : Type) := EStateM Fault (World χ)

/-- The token that a packet is launched with. -/
def Event.token : Event → Option BYTE
  | .wr reg val => if reg = rHXFR then some val else none
  | _ => none

/-- The tokens that were sent, the newest first. -/
def tokens (log : List Event) : List BYTE := log.filterMap Event.token

/-- What happens in a run of `x`, the newest event first. -/
def events {χ α : Type} (x : Prog χ α) (w : World χ) : List Event :=
  (Program.final (x { w with log := [] })).log

/-! ## Memory and variables -/

section Memory

variable {χ : Type}

def load (p : Ptr) : Prog χ BYTE := fun w =>
  .ok (w.mem p.obj p.off) { w with log := .load p :: w.log }

def store (p : Ptr) (val : BYTE) : Prog χ Unit := fun w =>
  .ok () { w with
    mem := fun o k => if o = p.obj ∧ k = p.off then val else w.mem o k
    log := .store p val :: w.log }

def getHost : Prog χ Host := fun w => .ok w.host w

def setHost (f : Host → Host) : Prog χ Unit := fun w =>
  .ok () { w with host := f w.host, log := .host (f w.host) :: w.log }

def getPio : Prog χ Pio := fun w => .ok w.pio w

def setPio (f : Pio → Pio) : Prog χ Unit := fun w => .ok () { w with pio := f w.pio }

/-- A 16-bit field of `bigbuf`, the low byte first, as `ldhu` loads it: the processor reads the
aligned word that `p` lies in and shifts its bytes down, and the last byte stays. So the byte behind
`p` is its own copy where `p` is the last byte of a word. `bigbuf` starts on a word boundary. -/
def loadWord (p : Ptr) : Prog χ WORD := do
  let lo ← load p
  let hi ← load (if p.off % 4 = 3 then p else p.add 1)
  return hi ++ lo

/-- The mark of an access to `devtable[addr].epinfo[ep]`. -/
def access (addr ep : BYTE) : Prog χ Unit := fun w =>
  .ok () { w with log := .access addr ep :: w.log }

/-- The world after that. -/
def World.accessed (w : World χ) (addr ep : BYTE) : World χ :=
  { w with log := .access addr ep :: w.log }

/-- `devtable[addr].epinfo`, for an access to the record `ep` behind it. -/
def epinfo (addr ep : BYTE) : Prog χ EpTable := do
  access addr ep
  match ((← getHost).devtable addr).epinfo with
  | none => throw .deref
  | some t => if ep.toNat < t.size then return t else throw .deref

/-- `devtable[addr].epinfo[ep]`. -/
def epRecord (addr ep : BYTE) : Prog χ EpRecord := do
  let t ← epinfo addr ep
  return (← getHost).eps t ep

/-- An assignment to fields of `devtable[addr].epinfo[ep]`. -/
def setEpRecord (addr ep : BYTE) (f : EpRecord → EpRecord) : Prog χ Unit := do
  let t ← epinfo addr ep
  setHost fun h => h.setEp t ep f

@[simp] theorem World.accessed_host (w : World χ) (addr ep : BYTE) :
    (w.accessed addr ep).host = w.host := rfl

@[simp] theorem World.accessed_chip (w : World χ) (addr ep : BYTE) :
    (w.accessed addr ep).chip = w.chip := rfl

@[simp] theorem World.accessed_mem (w : World χ) (addr ep : BYTE) :
    (w.accessed addr ep).mem = w.mem := rfl

@[simp] theorem World.accessed_pio (w : World χ) (addr ep : BYTE) :
    (w.accessed addr ep).pio = w.pio := rfl

theorem access_run (addr ep : BYTE) (w : World χ) :
    access addr ep w = .ok () (w.accessed addr ep) :=
  rfl

theorem epinfo_run {addr ep : BYTE} {t : EpTable} {w : World χ}
    (ht : (w.host.devtable addr).epinfo = some t) (hep : ep.toNat < t.size) :
    epinfo addr ep w = .ok t (w.accessed addr ep) := by
  have hget : (getHost : Prog χ Host) (w.accessed addr ep) = .ok w.host (w.accessed addr ep) := rfl
  rw [epinfo, Program.bind_of_ok (access_run addr ep w), Program.bind_of_ok hget, ht]
  exact congrFun (if_pos hep) (w.accessed addr ep)

theorem epinfo_outside {addr ep : BYTE} {t : EpTable} {w : World χ}
    (ht : (w.host.devtable addr).epinfo = some t) (hep : ¬ep.toNat < t.size) :
    epinfo addr ep w = .error .deref (w.accessed addr ep) := by
  have hget : (getHost : Prog χ Host) (w.accessed addr ep) = .ok w.host (w.accessed addr ep) := rfl
  rw [epinfo, Program.bind_of_ok (access_run addr ep w), Program.bind_of_ok hget, ht]
  exact congrFun (if_neg hep) (w.accessed addr ep)

theorem epRecord_run {addr ep : BYTE} {t : EpTable} {w : World χ}
    (ht : (w.host.devtable addr).epinfo = some t) (hep : ep.toNat < t.size) :
    epRecord addr ep w = .ok (w.host.eps t ep) (w.accessed addr ep) := by
  rw [epRecord, Program.bind_of_ok (epinfo_run ht hep)]
  rfl

theorem setEpRecord_run {addr ep : BYTE} {t : EpTable} {w : World χ} {f : EpRecord → EpRecord}
    (ht : (w.host.devtable addr).epinfo = some t) (hep : ep.toNat < t.size) :
    setEpRecord addr ep f w = setHost (fun h => h.setEp t ep f) (w.accessed addr ep) := by
  rw [setEpRecord, Program.bind_of_ok (epinfo_run ht hep)]

theorem epinfo_null {addr ep : BYTE} {w : World χ}
    (h : (w.host.devtable addr).epinfo = none) :
    epinfo addr ep w = .error .deref (w.accessed addr ep) := by
  have hget : (getHost : Prog χ Host) (w.accessed addr ep) = .ok w.host (w.accessed addr ep) := rfl
  rw [epinfo, Program.bind_of_ok (access_run addr ep w), Program.bind_of_ok hget, h]
  rfl

end Memory

/-! ## The board -/

section Board

variable {χ : Type} [Platform χ]

/-- `MAXreg_rd`. The SPI command never fails, so the error branch is dead. -/
def maxRegRd (reg : BYTE) : Prog χ BYTE := fun w =>
  let r := Platform.rd w.chip reg
  .ok r.1 { w with chip := r.2, log := .rd reg r.1 :: w.log }

/-- The world after a register was read. -/
def World.afterRd (w : World χ) (reg : BYTE) : World χ :=
  { w with
    chip := (Platform.rd w.chip reg).2
    log := .rd reg (Platform.rd w.chip reg).1 :: w.log }

theorem maxRegRd_run (reg : BYTE) (w : World χ) :
    maxRegRd reg w = .ok (Platform.rd w.chip reg).1 (w.afterRd reg) := rfl

/-- `MAXreg_wr`. -/
def maxRegWr (reg val : BYTE) : Prog χ Unit := fun w =>
  .ok () { w with chip := Platform.wr w.chip reg val, log := .wr reg val :: w.log }

/-- `IORD_ALTERA_AVALON_PIO_DATA(USB_IRQ_BASE)`. -/
def usbIrq : Prog χ BYTE := fun w =>
  let r := Platform.irq w.chip
  .ok r.1 { w with chip := r.2, log := .irq r.1 :: w.log }

/-- `IORD_ALTERA_AVALON_PIO_DATA(USB_GPX_BASE)`. -/
def usbGpx : Prog χ BYTE := fun w =>
  let r := Platform.gpx w.chip
  .ok r.1 { w with chip := r.2, log := .gpx r.1 :: w.log }

/-- `IOWR_ALTERA_AVALON_PIO_DATA(USB_RST_BASE, val)`. -/
def usbRst (val : BYTE) : Prog χ Unit := fun w =>
  .ok () { w with log := .usbRst val :: w.log }

/-- `alt_nticks()`. -/
def altNticks : Prog χ DWORD := fun w =>
  let r := Platform.nticks w.chip
  .ok r.1 { w with chip := r.2, log := .nticks r.1 :: w.log }

/-- The declaration of the local `o` without an initialiser. -/
def declare (o : Obj) : Prog χ Unit := fun w =>
  let r := Platform.stack w.chip
  .ok () { w with chip := r.2, mem := fun o' => if o' = o then r.1 else w.mem o' }

/-- `(alt_nticks()*1000)/alt_ticks_per_second()`, in milliseconds. -/
def altMs : Prog χ DWORD := do
  return (← altNticks) * 1000 / altTicksPerSecond

/-- The millisecond clock. -/
def ms (t : DWORD) : DWORD := t * 1000 / altTicksPerSecond

/-- One byte of a burst: a read of the register `reg`, stored at `p`. -/
def rdByte (reg : BYTE) (p : Ptr) : Prog χ Unit := do
  store p (← maxRegRd reg)

/-- `MAXbytes_rd`. The last byte is read apart from the others and goes to
`data+nbytes-1`, also where `nbytes` is 0. -/
def maxBytesRd (reg nbytes : BYTE) (data : Ptr) : Prog χ Ptr := do
  (List.range (nbytes.toNat - 1)).forM fun i => rdByte reg (data.add i)
  -- for no bytes this is the byte before `data`
  rdByte reg (data.add (nbytes.toNat - 1))
  return data.add nbytes.toNat

/-- `MAXbytes_wr`, for the bytes of a whole object. -/
def maxBytesWr (reg : BYTE) (data : List BYTE) : Prog χ Unit :=
  data.forM fun b => maxRegWr reg b

end Board

/-! ## A board that plays back a script -/

/-- The values of the register reads and of the `USB_IRQ` pin, in order, and a clock that
goes on by `tick` whenever it is read. -/
structure Script where
  answers : List BYTE := []
  irqs : List BYTE := []
  clock : DWORD := 0
  tick : DWORD := 1

instance : Platform Script where
  rd s _ := (s.answers.headD 0, { s with answers := s.answers.tail })
  wr s _ _ := s
  irq s := (s.irqs.headD 1, { s with irqs := s.irqs.tail })
  gpx s := (0, s)
  nticks s := (s.clock, { s with clock := s.clock + s.tick })
  stack s := (fun _ => 0, s)

/-- The register reads of a control read that the device answers by one short packet. -/
def reply (packet : List BYTE) : List BYTE :=
  [0x80, 0x00, 0x80, 0x00, 0x04, BitVec.ofNat 8 packet.length] ++ packet ++ [0x10, 0x80, 0x00]

/-- A boot keyboard with one endpoint. -/
def keyboardConfiguration : List BYTE :=
  [9, 2, 25, 0, 1, 1, 0, 0xa0, 50,
    9, 4, 0, 0, 1, 3, 1, 1, 0,
    7, 5, 0x81, 3, 8, 0, 10]

end TetrisFpga.Usb
