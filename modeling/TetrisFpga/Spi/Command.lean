import Mathlib.Data.Int.Notation
import TetrisFpga.Machine.Program
import TetrisFpga.Spi.Word

/-!
# The driver of the SPI port

`alt_avalon_spi_command` of `altera_avalon_spi.c`, over the port. The argument `base` is left
out: there is one port. Lengths and `credits` are numbers: they only go down where they are
positive, and `credits` stays small.
-/

namespace TetrisFpga.Spi
open Program
open Usb (BYTE WORD DWORD)

/-! ## Constants -/

def statusTmtMsk : DWORD := 0x20
def statusTrdyMsk : DWORD := 0x40
def statusRrdyMsk : DWORD := 0x80
def controlSsoMsk : WORD := 0x400

/-- `ALT_AVALON_SPI_COMMAND_MERGE` -/
def commandMerge : DWORD := 0x01

/-- `ALT_AVALON_SPI_COMMAND_TOGGLE_SS_N` -/
def commandToggleSsN : DWORD := 0x02

/-! ## Memory -/

/-- `alt_u8 *`: an object and an offset, which may lie outside the object. -/
structure Pointer (ι : Type) where
  obj : ι
  off : ℤ := 0
  deriving DecidableEq

/-- `p + n`. -/
def Pointer.add {ι : Type} (p : Pointer ι) (n : ℤ) : Pointer ι := { p with off := p.off + n }

/-- What the pointers of the driver point into: the objects of the callers, and the locals of
`MAX3421E.c` whose address is passed on. -/
inductive Cell (ω : Type)
  | caller (o : ω)
  | reg
  | regPlusTwo
  | val
  | null
  deriving DecidableEq

/-- A pointer of a caller. -/
def Pointer.cell {ω : Type} (p : Pointer ω) : Pointer (Cell ω) := ⟨.caller p.obj, p.off⟩

/-- The address of a local. -/
def Cell.ptr {ω : Type} (c : Cell ω) : Pointer (Cell ω) := ⟨c, 0⟩

abbrev Memory (ω : Type) := Cell ω → ℤ → BYTE

/-- The bus, the memory, and what `printf` was given. -/
structure World (σ ω : Type) where
  bus : Bus σ
  mem : Memory ω
  out : List String := []

/-- The loop that ran out of fuel. -/
inductive Fault
  | status
  | rounds
  deriving DecidableEq

abbrev Prog (σ ω : Type) := EStateM Fault (World σ ω)

section Memory

variable {σ ω : Type} [DecidableEq ω]

def load (p : Pointer (Cell ω)) : Prog σ ω BYTE := fun w => .ok (w.mem p.obj p.off) w

/-- The memory with `val` at `p`. -/
def Memory.set (m : Memory ω) (p : Pointer (Cell ω)) (val : BYTE) : Memory ω :=
  fun o k => if o = p.obj ∧ k = p.off then val else m o k

def store (p : Pointer (Cell ω)) (val : BYTE) : Prog σ ω Unit := fun w =>
  .ok () { w with mem := w.mem.set p val }

omit [DecidableEq ω] in
def printf (s : String) : Prog σ ω Unit := fun w => .ok () { w with out := w.out ++ [s] }

end Memory

/-! ## `alt_avalon_spi_command` -/

section Command

variable {σ ω : Type} [Board σ] [DecidableEq ω]

/-- `IORD` -/
def iord (a : Access) : Prog σ ω DWORD := fun w =>
  let r := w.bus.access a
  .ok (r.1.setWidth 32) { w with bus := r.2 }

/-- `IOWR` -/
def iowr (a : Access) : Prog σ ω Unit := fun w => .ok () { w with bus := (w.bus.access a).2 }

/-- The variables of the loop. -/
structure Transfer (ω : Type) where
  writeData : Pointer (Cell ω)
  writeZeros : ℕ
  readIgnore : ℕ
  readData : Pointer (Cell ω)
  credits : ℤ

/-- The inner loop: until there is room for a byte and a credit, or a byte has come in. -/
def waitReady (fuel : ℕ) (credits : ℤ) : Prog σ ω DWORD :=
  forever .status (fun _ : Unit => do
    let status ← iord .rdStatus
    if (status &&& statusTrdyMsk = 0 ∨ credits = 0) ∧ status &&& statusRrdyMsk = 0 then
      return .inl ()
    else
      return .inr status) fuel ()

/-- A byte goes out. -/
def send (writeEnd : Pointer (Cell ω)) (v : Transfer ω) : Prog σ ω (Transfer ω) := do
  let v := { v with credits := v.credits - 1 }
  if v.writeData.off < writeEnd.off then
    let byte ← load v.writeData
    iowr (.wrTxdata (byte.setWidth 16))
    return { v with writeData := v.writeData.add 1 }
  else if v.writeZeros > 0 then
    iowr (.wrTxdata 0)
    return { v with writeZeros := v.writeZeros - 1 }
  else
    return { v with credits := -1024 }

/-- A byte comes in. -/
def receive (v : Transfer ω) : Prog σ ω (Transfer ω) := do
  let rxdata ← iord .rdRxdata
  if v.readIgnore > 0 then
    return { v with readIgnore := v.readIgnore - 1, credits := v.credits + 1 }
  else
    store v.readData (rxdata.setWidth 8)
    return { v with readData := v.readData.add 1, credits := v.credits + 1 }

/-- A round of the loop, which ends when all has come in. -/
def commandRound (fuel : ℕ) (writeEnd readEnd : Pointer (Cell ω)) (v : Transfer ω) :
    Prog σ ω (Transfer ω ⊕ Unit) := do
  let status ← waitReady fuel v.credits
  let v ← if status &&& statusTrdyMsk ≠ 0 ∧ v.credits > 0 then send writeEnd v else pure v
  if status &&& statusRrdyMsk ≠ 0 then
    let v ← receive v
    if v.readIgnore = 0 ∧ v.readData = readEnd then return .inr () else return .inl v
  else
    return .inl v

/-- Until the interface has finished transmitting. -/
def waitTransmitted (fuel : ℕ) : Prog σ ω Unit :=
  forever .status (fun _ : Unit => do
    let status ← iord .rdStatus
    if status &&& statusTmtMsk = 0 then return .inl () else return .inr ()) fuel ()

def altAvalonSpiCommand (fuel : ℕ) (slave writeLength : DWORD) (writeData : Pointer (Cell ω))
    (readLength : DWORD) (readData : Pointer (Cell ω)) (flags : DWORD) : Prog σ ω ℤ := do
  let writeEnd := writeData.add writeLength.toNat
  let readEnd := readData.add readLength.toNat
  iowr (.wrSlaveSel ((1#32 <<< slave).setWidth 16))
  when (flags &&& commandToggleSsN = 0) (iowr (.wrControl controlSsoMsk))
  let _ ← iord .rdRxdata
  forever .rounds (commandRound fuel writeEnd readEnd) fuel
    ⟨writeData, readLength.toNat, writeLength.toNat, readData, 1⟩
  waitTransmitted fuel
  when (flags &&& commandMerge = 0) (iowr (.wrControl 0))
  return readLength.toInt

end Command

end TetrisFpga.Spi
