import TetrisFpga.Machine.Fifo
import TetrisFpga.Sdram.Device
import TetrisFpga.Sdram.Tetris

/-!
# The SDRAM in `lab62`

`tetris`, the two FIFOs, the controller and the SDRAM. `sdram_pll0` doubles its input, so the
controller's `CLK` has two edges for each of the test machine's clock, one of them at the same
time. `pll_clk`, the FIFOs' clock at the side of the test machine, is as fast as `CLK` and
comes from the other 50 MHz input: its edges fall between those of `CLK`, or coincide with
them.
-/

namespace TetrisFpga.Sdram
open Machine

/-- The FIFOs hold 512 words and their counters have nine bits. -/
abbrev usedwBits : ℕ := 9

structure System where
  tetris : Tetris
  ctl : Controller
  device : Device
  wrFifo : Fifo WORD
  rdFifo : Fifo WORD
  /-- The next edge of `CLK` is also one of the test machine's clock. -/
  half : Bool

/-- The host side of `sdram_controller`. -/
def Tetris.ports (t : Tetris) : Ports where
  wrAddr := t.writeaddr
  wrMaxAddr := 0x1ffffff
  wrLength := 1
  wrLoad := t.writeLd
  rdAddr := t.readaddr
  rdMaxAddr := 0x1ffffff
  rdLength := 1
  rdLoad := t.readLd

/-- `DQ`: the controller drives it with the word popped last, or the SDRAM does. -/
def System.dq (s : System) : WORD := if s.ctl.core.cmd.oe then s.wrFifo.q else s.device.q3

/-- The test machine after the edge of `CLK`. -/
def System.nextTetris (s : System) (key : Bool) : Tetris :=
  if s.half then
    s.tetris.next key (s.wrFifo.wrusedw usedwBits) (s.rdFifo.rdusedw usedwBits) s.rdFifo.q
  else s.tetris

/-- One cycle of the write FIFO: the controller pops at the edge of `CLK`, the test machine
pushes at the edge of `pll_clk`. `t` and `t'` are the test machine before and after the edge of
`CLK`; an edge of `pll_clk` that coincides with it sees the state before. -/
def wrCycle (coincident : Bool) (t t' : Tetris) (pops : Bool) (f : Fifo WORD) : Fifo WORD :=
  let host := if coincident then t else t'
  let g := f.rdEdge (f.count usedwBits) (pops && !t.writeLd)
  (g.wrEdge usedwBits ((if coincident then f else g).count usedwBits)
    (host.writeReq && !host.writeLd) host.writedata).clear t'.writeLd

/-- One cycle of the read FIFO: the controller pushes, the test machine pops. -/
def rdCycle (coincident : Bool) (t t' : Tetris) (pushes : Bool) (data : WORD) (f : Fifo WORD) :
    Fifo WORD :=
  let host := if coincident then t else t'
  let g := f.wrEdge usedwBits (f.count usedwBits) (pushes && !t.readLd) data
  (g.rdEdge ((if coincident then f else g).count usedwBits)
    (host.readReq && !host.readLd)).clear t'.readLd

/-- One cycle of `CLK`, and of `pll_clk`. -/
def System.next (coincident : Bool) (s : System) (key : Bool) : System where
  tetris := s.nextTetris key
  ctl := s.ctl.next s.tetris.ports (s.wrFifo.rdusedw usedwBits) (s.rdFifo.wrusedw usedwBits) s.dq
  device := s.device.next s.ctl.core.ctl.strobes s.ctl.path.ba s.ctl.path.sa s.ctl.core.ctl.dqm
    s.dq
  wrFifo := wrCycle coincident s.tetris (s.nextTetris key) s.ctl.pops s.wrFifo
  rdFifo := rdCycle coincident s.tetris (s.nextTetris key) s.ctl.pushes s.ctl.path.mDataOut
    s.rdFifo
  half := !s.half

@[simp] theorem System.next_half (coincident : Bool) (s : System) (key : Bool) :
    (s.next coincident key).half = !s.half := rfl

/-- Between its clocks the test machine stays as it is. -/
theorem System.nextTetris_of_low {s : System} (h : s.half = false) (key : Bool) :
    s.nextTetris key = s.tetris := if_neg (by simp [h])

end TetrisFpga.Sdram
