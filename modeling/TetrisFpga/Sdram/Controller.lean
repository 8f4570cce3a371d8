import Mathlib.Data.Nat.Notation

/-!
# The SDRAM controller

`Sdram_Control.v` with its blocks `control_interface.v` and `command.v`, one transition
function for the registers of each. `RESET_N` is held 1, and `SC_PM = 1`: the branches of
`command.v` for other modes are dead. The registers that hold addresses or data form a record
of their own, since no other register depends on them.
-/

namespace TetrisFpga.Sdram

abbrev WORD := BitVec 16
abbrev ADDR := BitVec 25

/-! ## `Sdram_Params.h` -/

def initPer : BitVec 16 := 24000
def refPer : BitVec 16 := 1024
def scCl : BitVec 10 := 3
def scRcd : BitVec 10 := 3

/-! ## `control_interface` -/

structure ControlInterface where
  nop : Bool := false
  reada : Bool := false
  writea : Bool := false
  cmdAck : Bool := false
  refReq : Bool := false
  refresh : Bool := false
  precharge : Bool := false
  loadMode : Bool := false
  initReq : Bool := false
  deriving DecidableEq

/-- The values of `init_timer` at which a refresh is requested. -/
def initRefreshes : List (BitVec 16) := [40, 60, 80, 100, 120, 140, 160, 180].map (initPer + ·)

/-- The registers other than `SADDR` and the timers. -/
def ControlInterface.next (r : ControlInterface) (cmd : BitVec 3)
    (refAck cmAck timerZero : Bool) (initTimer : BitVec 16) : ControlInterface where
  nop := cmd == 0
  reada := cmd == 1
  writea := cmd == 2
  cmdAck := cmAck && !r.cmdAck
  -- a request stays until it is acknowledged
  refReq := timerZero || (!refAck && !r.initReq && r.refReq)
  refresh := initRefreshes.contains initTimer
  precharge := initTimer == initPer + 20
  loadMode := initTimer == initPer + 200
  initReq := decide (initTimer < initPer)

def nextTimer (refAck initReq : Bool) (timer : BitVec 16) : BitVec 16 :=
  if refAck then refPer else if initReq then refPer + 200 else timer - 1

def nextInitTimer (initTimer : BitVec 16) : BitVec 16 :=
  if initTimer < initPer + 201 then initTimer + 1 else initTimer

/-! ## `command` -/

/-- The command pins. -/
structure Strobes where
  csN : BitVec 2
  cke : Bool
  rasN : Bool
  casN : Bool
  weN : Bool
  deriving DecidableEq

namespace Strobes

def nop : Strobes := ⟨0, true, true, true, true⟩
def activate : Strobes := ⟨0, true, false, true, true⟩
def read : Strobes := ⟨0, true, true, false, true⟩
def write : Strobes := ⟨0, true, true, false, false⟩
def prechargeBank : Strobes := ⟨0, true, false, true, false⟩
def autoRefresh : Strobes := ⟨0, true, false, false, true⟩
def loadMode : Strobes := ⟨0, true, false, false, false⟩
def burstStop : Strobes := ⟨0, true, true, true, false⟩

/-- The pins before the first edge of the clock. -/
def powerUp : Strobes := ⟨0, false, false, false, false⟩

end Strobes

structure Command where
  doReada : Bool := false
  doWritea : Bool := false
  doRefresh : Bool := false
  doPrecharge : Bool := false
  doLoadMode : Bool := false
  doInitial : Bool := false
  commandDone : Bool := false
  commandDelay : BitVec 8 := 0
  rwFlag : Bool := false
  rpShift : BitVec 4 := 0
  rpDone : Bool := false
  exRead : Bool := false
  exWrite : Bool := false
  oe4 : Bool := false
  oe : Bool := false
  rwShift : BitVec 2 := 0
  doRw : Bool := false
  cmAck : Bool := false
  refAck : Bool := false
  strobes : Strobes := .powerUp
  deriving DecidableEq

/-- `RAS_N`, `CAS_N` and `WE_N` for the command that is being issued. -/
def Command.issue (r : Command) : Strobes :=
  if r.doRefresh then .autoRefresh
  else if r.doPrecharge && (r.oe4 || r.rwFlag) then .burstStop
  else if r.doPrecharge then .prechargeBank
  else if r.doLoadMode then .loadMode
  else if r.doReada || r.doWritea then .activate
  else if r.doRw then if r.rwFlag then .read else .write
  else .nop

/-- The registers other than `SA` and `BA`. -/
def Command.next (r : Command) (ci : ControlInterface) (pmStop : Bool) : Command :=
  -- a refresh that is asked for goes before a read or a write
  let takesReada := ci.reada && !r.commandDone && !r.doReada && !r.rpDone && !ci.refReq
  let takesWritea := ci.writea && !r.commandDone && !r.doWritea && !r.rpDone && !ci.refReq
  let busy := r.doRefresh || r.doReada || r.doWritea || r.doPrecharge || r.doLoadMode
  let expired := r.commandDone && !r.commandDelay.getLsbD 0
  let stopped := !expired && (r.exRead || r.exWrite) && pmStop
  let shifts := !expired && (!(r.exRead || r.exWrite) || pmStop)
  { doReada := !ci.initReq && takesReada
    doWritea := !ci.initReq && takesWritea
    doRefresh := !ci.initReq && ((ci.refReq || ci.refresh) && !r.commandDone && !r.doRefresh &&
      !r.rpDone && !r.doReada && !r.doWritea)
    doPrecharge := !ci.initReq && (ci.precharge && !r.commandDone && !r.doPrecharge)
    doLoadMode := !ci.initReq && (ci.loadMode && !r.commandDone && !r.doLoadMode)
    doInitial := ci.initReq
    commandDone := !ci.initReq && (busy || r.commandDelay.getLsbD 0)
    commandDelay := if ci.initReq then 0 else if busy then 0xff else r.commandDelay >>> 1
    rwFlag := !ci.initReq && (if busy then r.doReada else r.rwFlag)
    rpShift := if ci.initReq then 0 else if expired then 0xf
      else if shifts then r.rpShift >>> 1 else r.rpShift
    rpDone := !ci.initReq && (expired || (if shifts then r.rpShift.getLsbD 0 else r.rpDone))
    exRead := !ci.initReq && !stopped && (takesReada || r.exRead)
    exWrite := !ci.initReq && !stopped && (takesWritea || r.exWrite)
    oe4 := r.doWritea || (!(r.doPrecharge || r.doReada || r.doRefresh || r.doInitial || pmStop) &&
      r.oe4)
    oe := r.oe4
    rwShift := if r.doReada || r.doWritea then 2 else r.rwShift >>> 1
    doRw := if r.doReada || r.doWritea then r.doRw else r.rwShift.getLsbD 0
    -- a refresh that the timer asks for is acknowledged to it, all else through `CM_ACK`
    refAck := (r.doRefresh && ci.refReq) || (busy && r.refAck)
    cmAck := if r.doRefresh && ci.refReq then r.cmAck else busy
    strobes := r.issue }

/-! ## `Sdram_Control` -/

/-- The registers of `Sdram_Control` that hold no address and no data. `PM_DONE` is left out:
`command` does not read it. -/
structure SdramControl where
  cmd : BitVec 2 := 0
  st : BitVec 10 := 0
  preRd : Bool := false
  preWr : Bool := false
  read : Bool := false
  write : Bool := false
  outValid : Bool := false
  inReq : Bool := false
  mWrDone : Bool := false
  mRdDone : Bool := false
  mWr : Bool := false
  mRd : Bool := false
  wrMask : Bool := false
  rdMask : Bool := false
  pmStop : Bool := false
  dqm : BitVec 2 := 0
  strobes : Strobes := .powerUp
  deriving DecidableEq

/-- A transaction. -/
inductive Op
  | write
  | read
  deriving DecidableEq

/-- `CMD` for a transaction. -/
def Op.code : Op → BitVec 2
  | .write => 2
  | .read => 1

/-- The auto read/write control starts no transaction before the last one is over. -/
def SdramControl.free (r : SdramControl) : Bool :=
  !r.mWr && !r.mRd && r.st == 0 && !r.wrMask && !r.rdMask

/-- `start` is the transaction that the auto read/write control starts. -/
def SdramControl.next (r : SdramControl) (len : BitVec 9) (cmdAck : Bool) (issued : Strobes)
    (start : Option Op) : SdramControl :=
  let len : BitVec 10 := len.setWidth 10
  let startsRead := r.st == 0 && !r.preRd && r.mRd
  let startsWrite := r.st == 0 && !startsRead && !r.preWr && r.mWr
  let acked := r.st == 1 && cmdAck
  -- where two cases of the source have the same value of `ST`, the first one is taken
  let lastRead := r.read && !(r.st == scCl + scRcd + 1) && r.st == scCl + scRcd + len + 1
  let lastWrite := r.write && !(r.st == scCl - 1) && !(r.st == scCl + len - 1) &&
    r.st == scCl + scRcd + len
  let stop := r.st == scCl + len
  let setsWrite := start == some .write
  let setsRead := start == some .read
  { cmd := if startsRead then 1 else if startsWrite then 2 else if acked then 0 else r.cmd
    st := if startsRead || startsWrite then 1
      else if r.st == 0 then 0
      else if r.st == 1 then if cmdAck then 2 else 1
      else if r.st == scCl + scRcd + len + 1 then 0 else r.st + 1
    preRd := r.mRd
    preWr := r.mWr
    read := !lastRead && (startsRead || (!startsWrite && r.read))
    write := !lastWrite && (startsWrite || (!startsRead && r.write))
    outValid := if r.read then r.st == scCl + scRcd + 1 || (!lastRead && r.outValid)
      else r.outValid
    inReq := if r.write then r.st == scCl - 1 || (!(r.st == scCl + len - 1) && r.inReq)
      else r.inReq
    mWrDone := r.write && (lastWrite || r.mWrDone)
    mRdDone := r.read && (lastRead || r.mRdDone)
    mWr := !r.mWrDone && (setsWrite || (!setsRead && r.mWr))
    mRd := !r.mRdDone && (setsRead || (!setsWrite && r.mRd))
    wrMask := !r.mWrDone && (setsWrite || (!setsRead && r.wrMask))
    rdMask := !r.mRdDone && (setsRead || (!setsWrite && r.rdMask))
    pmStop := stop
    dqm := if (r.read || r.write) && scCl ≤ r.st then if stop && r.write then 3 else 0 else 3
    strobes := if stop then { issued with rasN := false, casN := true, weN := false }
      else issued }

/-- The control registers of the three blocks. -/
structure Core where
  ci : ControlInterface := {}
  cmd : Command := {}
  ctl : SdramControl := {}
  deriving DecidableEq

def Core.next (c : Core) (len : BitVec 9) (initTimer : BitVec 16) (timerZero : Bool)
    (start : Option Op) : Core where
  ci := c.ci.next (c.ctl.cmd.setWidth 3) c.cmd.refAck c.cmd.cmAck timerZero initTimer
  cmd := c.cmd.next c.ci c.ctl.pmStop
  ctl := c.ctl.next len c.ci.cmdAck c.cmd.strobes start

/-! ## Addresses and data -/

/-- The registers that hold addresses, lengths and data: those of `Sdram_Control`, `SADDR` of
`control_interface`, and `SA` and `BA` of `command`. -/
structure Path where
  mAddr : ADDR := 0
  mLength : BitVec 9 := 0
  rWrAddr : ADDR := 0
  rRdAddr : ADDR := 0
  saddr : ADDR := 0
  isa : BitVec 13 := 0
  iba : BitVec 2 := 0
  sa : BitVec 13 := 0
  ba : BitVec 2 := 0
  mDataOut : WORD := 0

/-- The row, column and bank of an address. -/
def rowaddr (a : ADDR) : BitVec 13 := a.extractLsb' 10 13
def coladdr (a : ADDR) : BitVec 10 := a.extractLsb' 0 10
def bankaddr (a : ADDR) : BitVec 2 := a.extractLsb' 23 2

/-- The host side of the controller. -/
structure Ports where
  wrAddr : ADDR
  wrMaxAddr : ADDR
  wrLength : BitVec 9
  wrLoad : Bool
  rdAddr : ADDR
  rdMaxAddr : ADDR
  rdLength : BitVec 9
  rdLoad : Bool

/-- `rWR_ADDR` and `rRD_ADDR`. -/
def nextAddr (load done : Bool) (addr maxAddr : ADDR) (length : BitVec 9) (r : ADDR) : ADDR :=
  if load then addr
  else if done then if r < maxAddr - length.setWidth 25 then r + length.setWidth 25 else addr
  else r

/-- `SA` of `command`. The mode word sets CAS latency 3 and bursts of a full page. -/
def nextIsa (cmd : Command) (saddr : ADDR) : BitVec 13 :=
  let sa := if cmd.doWritea || cmd.doReada then rowaddr saddr
    else (coladdr saddr).setWidth 13
  if cmd.doLoadMode then 0x037
  else if cmd.doRw || cmd.doPrecharge then sa &&& ~~~0x400 else sa

def nextIba (cmd : Command) (saddr : ADDR) : BitVec 2 :=
  if cmd.doPrecharge || cmd.doLoadMode then 0 else bankaddr saddr

def Path.next (r : Path) (c : Core) (p : Ports) (start : Option Op) (dq : WORD) : Path where
  mAddr := match start with
    | some .write => r.rWrAddr
    | some .read => r.rRdAddr
    | none => r.mAddr
  mLength := match start with
    | some .write => p.wrLength
    | some .read => p.rdLength
    | none => r.mLength
  rWrAddr := nextAddr p.wrLoad (c.ctl.mWrDone && c.ctl.wrMask) p.wrAddr p.wrMaxAddr p.wrLength
    r.rWrAddr
  rRdAddr := nextAddr p.rdLoad (c.ctl.mRdDone && c.ctl.rdMask) p.rdAddr p.rdMaxAddr p.rdLength
    r.rRdAddr
  saddr := r.mAddr
  isa := nextIsa c.cmd r.saddr
  iba := nextIba c.cmd r.saddr
  sa := if c.ctl.st == scCl + r.mLength.setWidth 10 then 0x200 else r.isa
  ba := r.iba
  mDataOut := dq

structure Controller where
  core : Core := {}
  path : Path := {}
  timer : BitVec 16 := 0
  initTimer : BitVec 16 := 0
  flag : Bool := false

/-- The transaction that the auto read/write control starts. `rusedw` and `wusedw` are the
word counts at the controller's side of the write and the read FIFO; of their 16 bits the FIFOs
drive nine, and the others read as 0. -/
def Controller.start (c : Controller) (p : Ports) (rusedw wusedw : ℕ) : Option Op :=
  if c.core.ctl.free && !p.wrLoad && !p.rdLoad && c.flag then
    -- the write FIFO goes first
    if p.wrLength.toNat ≤ rusedw && p.wrLength != 0 then some .write
    else if wusedw < p.rdLength.toNat then some .read
    else none
  else none

/-- One edge of `CLK`. -/
def Controller.next (c : Controller) (p : Ports) (rusedw wusedw : ℕ) (dq : WORD) :
    Controller where
  core := c.core.next c.path.mLength c.initTimer (c.timer == 0) (c.start p rusedw wusedw)
  path := c.path.next c.core p (c.start p rusedw wusedw) dq
  timer := nextTimer c.core.cmd.refAck c.core.ci.initReq c.timer
  initTimer := nextInitTimer c.initTimer
  -- set for good when the write FIFO first holds one length
  flag := rusedw == p.wrLength.toNat || c.flag

/-- The pop request at the write FIFO and the push request at the read FIFO. -/
def Controller.pops (c : Controller) : Bool := c.core.ctl.inReq && c.core.ctl.wrMask

def Controller.pushes (c : Controller) : Bool := c.core.ctl.outValid && c.core.ctl.rdMask

end TetrisFpga.Sdram
