import Mathlib.Logic.Function.Iterate
import TetrisFpga.Spi.Port

/-!
# The port on its bus and on its wires

The board is a parameter: the chip at the other end of the wires may do anything with `MISO`,
and any number of cycles may pass between two accesses of the CPU. What goes over the wires is
written down in frames: a frame is what happens while `SS_n` is low, and each rising edge of
`SCLK` in it carries a bit either way.

## Main results

- `access_eq`: an access, seen from the serial side
-/

namespace TetrisFpga.Spi
open Usb (BYTE WORD DWORD)

/-- The chip behind the port, and the CPU's delay before its next access. -/
class Board (σ : Type) where
  miso : σ → Bool
  next : σ → Pins → σ
  delay : σ → ℕ

/-- `MOSI` and `MISO` when `SCLK` rises. -/
abbrev WireBit := Bool × Bool

/-- The serial side, the chip, the bits of the present frame and the frames before it. -/
structure Line (σ : Type) where
  serial : Serial := {}
  chip : σ
  bits : List WireBit := []
  frames : List (List WireBit) := []

/-- The bits of the frame after an edge that changes the pins from `p` to `p'`, with `MISO` at
the level `miso`. -/
def nextBits (p p' : Pins) (miso : Bool) (bits : List WireBit) : List WireBit :=
  if !p'.ssN && !p.sclk && p'.sclk then (if p.ssN then [] else bits) ++ [(p'.mosi, miso)]
  else if p.ssN && !p'.ssN then []
  else bits

/-- The frames after such an edge. -/
def nextFrames (p p' : Pins) (bits : List WireBit) (frames : List (List WireBit)) :
    List (List WireBit) :=
  if !p.ssN && p'.ssN then frames ++ [bits] else frames

/-- The port, with what is on its wires. -/
structure Bus (σ : Type) where
  front : Front := {}
  line : Line σ

/-- What the driver does with the port. -/
inductive Access
  | rdRxdata
  | rdStatus
  | wrTxdata (data : WORD)
  | wrControl (data : WORD)
  | wrSlaveSel (data : WORD)

/-- The bus during an access. -/
def Access.avalon : Access → Avalon
  | .rdRxdata => { spiSelect := true, readN := false, memAddr := 0 }
  | .rdStatus => { spiSelect := true, readN := false, memAddr := 2 }
  | .wrTxdata data => { spiSelect := true, writeN := false, memAddr := 1, dataFromCpu := data }
  | .wrControl data => { spiSelect := true, writeN := false, memAddr := 3, dataFromCpu := data }
  | .wrSlaveSel data => { spiSelect := true, writeN := false, memAddr := 5, dataFromCpu := data }

section Board

variable {σ : Type} [Board σ]

/-- An edge of the clock, on the serial side. -/
def Line.clock (l : Line σ) (c : Strobes) : Line σ :=
  let miso := Board.miso l.chip
  let serial := l.serial.next c miso
  { serial
    chip := Board.next l.chip l.serial.pins
    bits := nextBits l.serial.pins serial.pins miso l.bits
    frames := nextFrames l.serial.pins serial.pins l.bits l.frames }

/-- An edge of the clock. -/
def Bus.clock (b : Bus σ) (i : Avalon) : Bus σ where
  front := b.front.next b.line.serial i
  line := b.line.clock (b.front.strobes i)

/-- An access after the CPU's delay. What it reads is `data_to_cpu` in the second cycle. -/
def Bus.access (a : Access) (b : Bus σ) : WORD × Bus σ :=
  let b := (fun b : Bus σ => b.clock {})^[Board.delay b.line.chip] b
  let first := b.clock a.avalon
  (first.front.dataToCpu, first.clock a.avalon)

/-! ## The serial side between accesses -/

/-- An edge of the clock without a strobe. -/
def Line.free (l : Line σ) : Line σ := l.clock {}

/-- The strobe that an access sets. -/
def Access.strobes : Access → Strobes
  | .rdRxdata => { dataRd := true }
  | .rdStatus => {}
  | .wrTxdata data => { dataWr := true, dataFromCpu := data }
  | .wrControl data => { controlWr := true, dataFromCpu := data }
  | .wrSlaveSel data => { slaveselectWr := true, dataFromCpu := data }

/-- The data on the bus do not matter without a strobe. -/
theorem Front.Low.clock {f : Front} (h : f.Low) (i : Avalon) (l : Line σ) :
    l.clock (f.strobes i) = l.free := by
  simp only [Line.free, Line.clock, Serial.next, Front.strobes, h.dataRdStrobe, h.dataWrStrobe,
    h.wrStrobe, Bool.false_and, Bool.false_eq_true, if_false]

omit [Board σ] in
theorem Front.low_next (f : Front) (s : Serial) : (f.next s {}).Low := by
  constructor <;> simp [Front.next, Front.p1RdStrobe, Front.p1WrStrobe]

/-- Cycles without an access. -/
theorem idle_eq {b : Bus σ} (h : b.front.Low) (n : ℕ) :
    ((fun b : Bus σ => b.clock {})^[n] b).front.Low ∧
      ((fun b : Bus σ => b.clock {})^[n] b).line = Line.free^[n] b.line := by
  induction n with
  | zero => exact ⟨h, rfl⟩
  | succ n ih =>
    obtain ⟨hlow, hline⟩ := ih
    rw [Function.iterate_succ_apply', Function.iterate_succ_apply', ← hline]
    exact ⟨Front.low_next _ _, hlow.clock _ _⟩

omit [Board σ] in
/-- The first cycle of an access sets its strobe. -/
theorem Front.Low.strobes_next {f : Front} (h : f.Low) (s : Serial) (a : Access) :
    (f.next s a.avalon).strobes a.avalon = a.strobes := by
  cases a <;>
    simp [Front.next, Front.strobes, Front.p1RdStrobe, Front.p1WrStrobe, Access.avalon,
      Access.strobes, h.rdStrobe, h.wrStrobe]

omit [Board σ] in
/-- The second cycle ends it. -/
theorem Front.Low.next_next {f : Front} (h : f.Low) (s s' : Serial) (a : Access) :
    ((f.next s a.avalon).next s' a.avalon).Low := by
  cases a <;> constructor <;>
    simp [Front.next, Front.p1RdStrobe, Front.p1WrStrobe, Access.avalon, h.rdStrobe, h.wrStrobe]

/-- An access: the serial side goes on by itself up to the last cycle, in which the strobe takes
effect. -/
theorem access_eq {b : Bus σ} (h : b.front.Low) (a : Access) :
    (b.access a).2.front.Low ∧
      (b.access a).2.line =
        (Line.free^[Board.delay b.line.chip + 1] b.line).clock a.strobes ∧
      ∃ f : Front, (b.access a).1 =
        f.p1DataToCpu (Line.free^[Board.delay b.line.chip] b.line).serial a.avalon.memAddr := by
  obtain ⟨hlow, hline⟩ := idle_eq h (Board.delay b.line.chip)
  rw [Function.iterate_succ_apply', ← hline]
  refine ⟨hlow.next_next _ _ a, ?_, _, rfl⟩
  show ((_ : Line σ).clock (Front.strobes _ _)).clock (Front.strobes (Front.next _ _ _) _) = _
  rw [hlow.strobes_next _ a, hlow.clock]

end Board

end TetrisFpga.Spi
