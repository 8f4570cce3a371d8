import TetrisFpga.Usb.Defs

/-!
# The SPI port

`lab62_soc_spi_0.v`: the registers of the control port, which the CPU reads and writes, and
those of the serial side, which shifts a byte out and another in. An access of the CPU takes
two cycles of the clock (`Read is a two-cycle event`, and so is a write): in the first it sets
a strobe and fetches `data_to_cpu`, in the second the strobe takes effect.

The reset is over. `irq_reg` is left out: no handler is installed for it.
-/

namespace TetrisFpga.Spi
open Usb (BYTE WORD DWORD)

/-- The pins that the port drives. -/
structure Pins where
  ssN : Bool
  sclk : Bool
  mosi : Bool
  deriving DecidableEq

/-- What the CPU drives in a cycle of the clock; by default it does not select the port. -/
structure Avalon where
  spiSelect : Bool := false
  readN : Bool := true
  writeN : Bool := true
  memAddr : BitVec 3 := 0
  dataFromCpu : WORD := 0

/-- The strobes in force in a cycle, and the data on the bus. -/
structure Strobes where
  dataRd : Bool := false
  dataWr : Bool := false
  statusWr : Bool := false
  controlWr : Bool := false
  slaveselectWr : Bool := false
  dataFromCpu : WORD := 0

/-! ## The serial side -/

structure Serial where
  ssoReg : Bool := false
  spiSlaveSelectReg : WORD := 1
  spiSlaveSelectHoldingReg : WORD := 1
  slowcount : BitVec 4 := 0
  state : BitVec 5 := 0
  stateZero : Bool := true
  shiftReg : BYTE := 0
  rxHoldingReg : BYTE := 0
  rrdy : Bool := false
  roe : Bool := false
  toe : Bool := false
  txHoldingReg : BYTE := 0
  txHoldingPrimed : Bool := false
  transmitting : Bool := false
  sclkReg : Bool := false
  misoReg : Bool := false

namespace Serial

/-- `slowclock` is active once in 10 cycles while a byte is sent. -/
def slowclock (s : Serial) : Bool := s.slowcount == 9

def tmt (s : Serial) : Bool := !s.transmitting && !s.txHoldingPrimed

def trdy (s : Serial) : Bool := !(s.transmitting && s.txHoldingPrimed)

def writeShiftReg (s : Serial) : Bool := s.txHoldingPrimed && !s.transmitting

def enableSS (s : Serial) : Bool := s.transmitting && !s.stateZero

def pins (s : Serial) : Pins where
  ssN := if s.enableSS || s.ssoReg then !s.spiSlaveSelectReg.getLsbD 0 else true
  sclk := s.sclkReg
  mosi := s.shiftReg.msb

/-- The end of a byte. -/
def lastClock (s : Serial) : Bool := s.slowclock && s.state == 17

/-- An edge of the clock. Where two assignments of the source meet, the later one is the outer
test here. -/
def next (s : Serial) (c : Strobes) (miso : Bool) : Serial where
  ssoReg := if c.controlWr then c.dataFromCpu.getLsbD 10 else s.ssoReg
  spiSlaveSelectReg :=
    if s.writeShiftReg || (c.controlWr && c.dataFromCpu.getLsbD 10 && !s.ssoReg) then
      s.spiSlaveSelectHoldingReg
    else s.spiSlaveSelectReg
  spiSlaveSelectHoldingReg :=
    if c.slaveselectWr then c.dataFromCpu else s.spiSlaveSelectHoldingReg
  slowcount := if s.transmitting && !s.slowclock then s.slowcount + 1 else 0
  state :=
    if s.transmitting && s.slowclock then if s.state == 17 then 0 else s.state + 1 else s.state
  stateZero := if s.transmitting && s.slowclock then s.state == 17 else s.stateZero
  shiftReg :=
    -- bits leave on the falling edge of `SCLK`
    if s.slowclock && s.sclkReg then s.shiftReg.shiftConcat s.misoReg
    else if s.writeShiftReg then s.txHoldingReg
    else s.shiftReg
  rxHoldingReg := if s.lastClock then s.shiftReg else s.rxHoldingReg
  rrdy := if s.lastClock then true else if c.statusWr || c.dataRd then false else s.rrdy
  roe := if s.lastClock && s.rrdy then true else if c.statusWr then false else s.roe
  toe := if c.statusWr then false else if c.dataWr && !s.trdy then true else s.toe
  txHoldingReg := if c.dataWr && s.trdy then c.dataFromCpu.setWidth 8 else s.txHoldingReg
  txHoldingPrimed :=
    if s.writeShiftReg && !(c.dataWr && s.trdy) then false
    else if c.dataWr && s.trdy then true
    else s.txHoldingPrimed
  transmitting :=
    if s.lastClock then false else if s.writeShiftReg then true else s.transmitting
  sclkReg :=
    if s.lastClock then false
    else if s.slowclock && s.state != 0 && s.transmitting then !s.sclkReg
    else s.sclkReg
  -- and they are sampled on the rising one
  misoReg := if s.slowclock && !s.sclkReg then miso else s.misoReg

end Serial

/-! ## The control port -/

/-- The registers of the control port. `enables` holds the bits 9 to 3 of the control register,
the interrupt enables. -/
structure Front where
  rdStrobe : Bool := false
  dataRdStrobe : Bool := false
  wrStrobe : Bool := false
  dataWrStrobe : Bool := false
  eop : Bool := false
  enables : BitVec 7 := 0
  endofpacketvalueReg : WORD := 0
  dataToCpu : WORD := 0

namespace Front

def p1RdStrobe (f : Front) (i : Avalon) : Bool := !f.rdStrobe && i.spiSelect && !i.readN

def p1WrStrobe (f : Front) (i : Avalon) : Bool := !f.wrStrobe && i.spiSelect && !i.writeN

/-- The strobes of the second cycle of an access. -/
def strobes (f : Front) (i : Avalon) : Strobes where
  dataRd := f.dataRdStrobe
  dataWr := f.dataWrStrobe
  statusWr := f.wrStrobe && i.memAddr == 2
  controlWr := f.wrStrobe && i.memAddr == 3
  slaveselectWr := f.wrStrobe && i.memAddr == 5
  dataFromCpu := i.dataFromCpu

/-- `{EOP, E, RRDY, TRDY, TMT, TOE, ROE, 3'b0}` -/
def spiStatus (f : Front) (s : Serial) : WORD :=
  0#6 ++ BitVec.ofBool f.eop ++ BitVec.ofBool (s.roe || s.toe) ++ BitVec.ofBool s.rrdy ++
    BitVec.ofBool s.trdy ++ BitVec.ofBool s.tmt ++ BitVec.ofBool s.toe ++ BitVec.ofBool s.roe ++ 0#3

/-- `{SSO_reg, iEOP_reg, iE_reg, iRRDY_reg, iTRDY_reg, 1'b0, iTOE_reg, iROE_reg, 3'b0}` -/
def spiControl (f : Front) (s : Serial) : WORD :=
  0#5 ++ BitVec.ofBool s.ssoReg ++ (f.enables &&& 0b1111011) ++ 0#3

def p1DataToCpu (f : Front) (s : Serial) (memAddr : BitVec 3) : WORD :=
  if memAddr == 2 then f.spiStatus s
  else if memAddr == 3 then f.spiControl s
  else if memAddr == 6 then f.endofpacketvalueReg
  else if memAddr == 5 then s.spiSlaveSelectReg
  else s.rxHoldingReg.setWidth 16

def next (f : Front) (s : Serial) (i : Avalon) : Front :=
  let p1DataRdStrobe := f.p1RdStrobe i && i.memAddr == 0
  let p1DataWrStrobe := f.p1WrStrobe i && i.memAddr == 1
  { rdStrobe := f.p1RdStrobe i
    dataRdStrobe := p1DataRdStrobe
    wrStrobe := f.p1WrStrobe i
    dataWrStrobe := p1DataWrStrobe
    eop :=
      if (f.strobes i).statusWr then false
      else if (p1DataRdStrobe && s.rxHoldingReg.setWidth 16 == f.endofpacketvalueReg) ||
          (p1DataWrStrobe && (i.dataFromCpu.setWidth 8).setWidth 16 == f.endofpacketvalueReg) then
        true
      else f.eop
    enables := if (f.strobes i).controlWr then i.dataFromCpu.extractLsb' 3 7 else f.enables
    endofpacketvalueReg :=
      if f.wrStrobe && i.memAddr == 6 then i.dataFromCpu else f.endofpacketvalueReg
    dataToCpu := f.p1DataToCpu s i.memAddr }

/-- No access is on its way. -/
structure Low (f : Front) : Prop where
  rdStrobe : f.rdStrobe = false
  dataRdStrobe : f.dataRdStrobe = false
  wrStrobe : f.wrStrobe = false
  dataWrStrobe : f.dataWrStrobe = false

end Front

end TetrisFpga.Spi
