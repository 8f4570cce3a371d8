import TetrisFpga.Sdram.Controller

/-!
# The test machine

`tetris.sv`: after `KEY[1]` has been pressed and released, four words are written to the SDRAM
and two are read back. `S1` and `S2` are never reached.
-/

namespace TetrisFpga.Sdram

/-- The four writes and the two reads. -/
inductive WriteSlot
  | a
  | b
  | c
  | d
  deriving DecidableEq

inductive ReadSlot
  | a
  | b
  deriving DecidableEq

/-- The states, with `PWA` .. `PWD` as `pw`, and so on. -/
inductive FsmState
  | hold1
  | hold2
  | pw (x : WriteSlot)
  | w (x : WriteSlot)
  | fw (x : WriteSlot)
  | pr (x : ReadSlot)
  | r (x : ReadSlot)
  | fr (x : ReadSlot)
  deriving DecidableEq

namespace WriteSlot

def addr : WriteSlot → ADDR
  | a => 0x5653
  | b => 0x81DE
  | c => 0xC0A9
  | d => 0x0E08

def data : WriteSlot → WORD
  | a => 0x6293
  | b => 0x460F
  | c => 0x12C4
  | d => 0x7D59

/-- The state after the write. -/
def after : WriteSlot → FsmState
  | a => .pw b
  | b => .pw c
  | c => .pw d
  | d => .pr .a

end WriteSlot

namespace ReadSlot

def addr : ReadSlot → ADDR
  | a => 0x0E08
  | b => 0x81DE

/-- The state after the read. -/
def after : ReadSlot → FsmState
  | a => .pr b
  | b => .hold1

end ReadSlot

structure Tetris where
  state : FsmState := .hold1
  writeCounter : BitVec 5 := 0
  writeReq : Bool := false
  readReq : Bool := false
  writeLd : Bool := false
  readLd : Bool := false
  writeaddr : ADDR := 0
  readaddr : ADDR := 0
  writedata : WORD := 0
  readReg1 : WORD := 0
  readReg2 : WORD := 0

/-- The register a read goes to. -/
def Tetris.capture (t : Tetris) (x : ReadSlot) (readdata : WORD) : Tetris :=
  match x with
  | .a => { t with readReg1 := readdata }
  | .b => { t with readReg2 := readdata }

/-- One edge of the 50 MHz clock, with `reset` low. -/
def Tetris.next (t : Tetris) (key : Bool) (wrBuffer rdBuffer : ℕ) (readdata : WORD) : Tetris :=
  match t.state with
  | .hold1 => if key then { t with state := .hold2 } else t
  | .hold2 => if key then t else { t with state := .pw .a }
  | .pw x => { t with writeLd := true, writeaddr := x.addr, state := .w x }
  | .w x => { t with writeLd := false, writeReq := true, writedata := x.data, state := .fw x }
  | .fw x =>
    let t' := { t with writeReq := false }
    -- the old `write_req`, so the count is not looked at in the cycle of the request
    if wrBuffer = 0 ∧ t.writeReq = false then { t' with state := x.after } else t'
  | .pr x =>
    if t.writeCounter.getLsbD 2 then
      { t with writeCounter := 0, readLd := true, readaddr := x.addr, state := .r x }
    else { t with writeCounter := t.writeCounter + 1 }
  | .r x =>
    let t' := { t with readLd := false }
    if rdBuffer = 1 then { t' with readReq := true, state := .fr x } else t'
  | .fr x => { (t.capture x readdata) with readReq := false, state := x.after }

/-- The asynchronous reset. `read_reg1` and `read_reg2` have none. -/
def Tetris.reset (t : Tetris) : Tetris :=
  { t with
    state := .hold1
    writeCounter := 0
    writeReq := false
    readReq := false
    writeLd := false
    readLd := false
    writeaddr := 0
    readaddr := 0
    writedata := 0 }

end TetrisFpga.Sdram
