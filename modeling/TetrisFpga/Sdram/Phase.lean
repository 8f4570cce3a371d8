import TetrisFpga.Sdram.Controller

/-!
# The phases of the controller

Once the SDRAM is initialised and transfers have length 1, the control registers of the three
blocks only ever take the values `Phase.core`: a transaction waits until the command block is
free, and then runs for ten or eleven cycles. `Phase.next` is the abstract controller, and
`core_next` says that the registers follow it, whatever the refresh timer does.
-/

namespace TetrisFpga.Sdram

/-- What the auto read/write control waits for: nothing, or with a transaction chosen the edge
of `mWR` or `mRD`, the decoded command, and the command block. -/
inductive Task
  | idle
  | asked (o : Op)
  | issued (o : Op)
  | waiting (o : Op)
  deriving DecidableEq

/-- What the command block does beside: nothing, a refresh since `n` cycles, or what is left
of the last transaction `n + 11` cycles after its start. -/
inductive Block
  | free
  | refreshing (n : Fin 15)
  | cooling (n : Fin 4)
  deriving DecidableEq

/-- `ref` is `REF_REQ` and `rw` is `rw_flag`. A transaction runs since `k` cycles; a read then
takes one more to report, and `ended` is the first cycle after either. -/
inductive Phase
  | rest (task : Task) (block : Block) (ref rw : Bool)
  | run (o : Op) (k : Fin 10) (ref rw : Bool)
  | readDone (ref : Bool)
  | ended (o : Op) (ref : Bool)
  deriving DecidableEq

namespace Task

def op : Task → Option Op
  | idle => none
  | asked o | issued o | waiting o => some o

/-- `ST = 1`. -/
def atOne : Task → Bool
  | issued _ | waiting _ => true
  | _ => false

def next (t : Task) (start : Option Op) : Task :=
  match t with
  | idle => match start with
    | some o => asked o
    | none => idle
  | asked o => issued o
  | issued o => waiting o
  | waiting o => waiting o

end Task

namespace Block

def next (b : Block) (ref : Bool) : Block :=
  match b with
  | free => if ref then refreshing 0 else free
  | refreshing n => if h : n.val + 1 < 15 then refreshing ⟨n + 1, h⟩ else free
  | cooling n => if h : n.val + 1 < 4 then cooling ⟨n + 1, h⟩ else free

/-- `rp_shift` while `rp_done` is set. -/
def rpShift : Block → Option (BitVec 4)
  | refreshing n => if 10 ≤ n.val then some (0xf >>> (n.val - 10)) else none
  | cooling n => some (0xf >>> (n.val + 1))
  | free => none

end Block

/-- The registers at rest. -/
def restCore (task : Task) (block : Block) (ref rw : Bool) : Core where
  ci := {
    nop := task ≠ .waiting .read && task ≠ .waiting .write
    reada := task = .waiting .read
    writea := task = .waiting .write
    refReq := ref || block = .refreshing 0 || block = .refreshing 1 }
  cmd := {
    doRefresh := block = .refreshing 0
    commandDone := match block with
      | .refreshing n => 1 ≤ n.val && n.val ≤ 9
      | _ => false
    commandDelay := match block with
      | .refreshing n => if 1 ≤ n.val then 0xff >>> (n.val - 1) else 0
      | _ => 0
    rwFlag := rw
    rpShift := block.rpShift.getD 0
    rpDone := block.rpShift.isSome
    refAck := block = .refreshing 1
    strobes := if block = .refreshing 1 then .autoRefresh else .nop }
  ctl := {
    cmd := if task.atOne then (task.op.elim 0 Op.code) else 0
    st := if task.atOne then 1 else 0
    preRd := task.atOne && task.op = some .read
    preWr := task.atOne && task.op = some .write
    read := task.atOne && task.op = some .read
    write := task.atOne && task.op = some .write
    mWr := task.op = some .write
    mRd := task.op = some .read
    wrMask := task.op = some .write
    rdMask := task.op = some .read
    dqm := 3
    strobes := if block = .refreshing 2 then .autoRefresh else .nop }

/-- The registers `k` cycles after the command block has taken the transaction. -/
def runCore (o : Op) (k : ℕ) (ref rw : Bool) : Core where
  ci := {
    nop := 4 ≤ k
    reada := o = .read && k ≤ 3
    writea := o = .write && k ≤ 3
    cmdAck := k = 2
    refReq := ref }
  cmd := {
    doReada := o = .read && k = 0
    doWritea := o = .write && k = 0
    commandDone := 1 ≤ k
    commandDelay := if 1 ≤ k then 0xff >>> (k - 1) else 0
    rwFlag := if k = 0 then rw else o = .read
    exRead := o = .read && k ≤ 6
    exWrite := o = .write && k ≤ 6
    oe4 := o = .write && 1 ≤ k && k ≤ 6
    oe := o = .write && 2 ≤ k && k ≤ 7
    rwShift := if k = 1 then 2 else if k = 2 then 1 else 0
    doRw := k = 3
    cmAck := k = 1
    strobes := if k = 1 then .activate
      else if k = 4 then if o = .read then .read else .write
      else .nop }
  ctl := {
    cmd := if k ≤ 2 then o.code else 0
    st := if k ≤ 2 then 1 else BitVec.ofNat 10 (k - 1)
    preRd := o = .read
    preWr := o = .write
    read := o = .read
    write := o = .write && k ≤ 8
    outValid := o = .read && k = 9
    inReq := o = .write && k = 4
    mWrDone := o = .write && k = 9
    mWr := o = .write
    mRd := o = .read
    wrMask := o = .write
    rdMask := o = .read
    pmStop := k = 6
    dqm := if k ≤ 4 || o = .write && k = 6 then 3 else 0
    strobes := if k = 2 then .activate
      else if k = 5 then if o = .read then .read else .write
      else if k = 6 then .prechargeBank
      else .nop }

/-- The registers in the first cycle after a transaction. -/
def endedCore (o : Op) (ref : Bool) : Core where
  ci := { nop := true, refReq := ref }
  cmd := {
    rwFlag := o = .read
    rpShift := if o = .read then 7 else 0xf
    rpDone := true
    strobes := .nop }
  ctl := {
    preRd := o = .read
    preWr := o = .write
    dqm := 3
    strobes := .nop }

def readDoneCore (ref : Bool) : Core where
  ci := { nop := true, refReq := ref }
  cmd := { rwFlag := true, rpShift := 0xf, rpDone := true, strobes := .nop }
  ctl := { preRd := true, mRdDone := true, mRd := true, rdMask := true, dqm := 0, strobes := .nop }

namespace Phase

/-- The registers in a phase. -/
def core : Phase → Core
  | rest task block ref rw => restCore task block ref rw
  | run o k ref rw => runCore o k ref rw
  | readDone ref => readDoneCore ref
  | ended o ref => endedCore o ref

/-- One cycle: `timerZero` says that the refresh timer has run out, `start` is the transaction
that a free controller chooses. -/
def next (p : Phase) (timerZero : Bool) (start : Option Op) : Phase :=
  match p with
  | rest task block ref rw =>
    let ref' := timerZero || (block ≠ .refreshing 1 && ref)
    match task, block, ref with
    | .waiting o, .free, false => run o 0 ref' rw
    | _, _, _ => rest (task.next start) (block.next ref) ref' (block ≠ .refreshing 0 && rw)
  | run o k ref rw =>
    if h : k.val + 1 < 10 then run o ⟨k + 1, h⟩ (timerZero || ref) rw
    else match o with
      | .write => ended .write (timerZero || ref)
      | .read => readDone (timerZero || ref)
  | readDone ref => ended .read (timerZero || ref)
  | ended .write ref =>
    rest (Task.idle.next start) (.cooling ⟨0, Nat.succ_pos 3⟩) (timerZero || ref) false
  | ended .read ref => rest (Task.idle.next start)
      (.cooling ⟨1, Nat.succ_lt_succ (Nat.succ_pos 2)⟩) (timerZero || ref) true

end Phase

namespace Phase

theorem next_run {o : Op} {k : Fin 10} {ref rw timerZero : Bool} {start : Option Op}
    (h : k.val + 1 < 10) :
    (run o k ref rw).next timerZero start = run o ⟨k + 1, h⟩ (timerZero || ref) rw := dif_pos h

theorem next_run_last {o : Op} {ref rw timerZero : Bool} {start : Option Op} :
    (run o 9 ref rw).next timerZero start =
      if o = .write then ended .write (timerZero || ref) else readDone (timerZero || ref) := by
  cases o <;> rfl

/-- A transaction can start. -/
def free : Phase → Bool
  | rest .idle _ _ _ | ended _ _ => true
  | _ => false

/-- What can start. -/
def starts (p : Phase) : List (Option Op) :=
  if p.free then [none, some .write, some .read] else [none]

theorem mem_starts {p : Phase} {start : Option Op} (h : start ≠ none → p.free = true) :
    start ∈ p.starts := by
  obtain _ | o := start
  · unfold starts
    split <;> simp
  · rw [starts, if_pos (h nofun)]
    cases o <;> decide

end Phase

/-- All tasks and all blocks. -/
def Task.all : List Task :=
  [.idle, .asked .write, .issued .write, .waiting .write, .asked .read, .issued .read,
    .waiting .read]

def Block.all : List Block :=
  .free :: ((List.finRange 15).map .refreshing ++ (List.finRange 4).map .cooling)

theorem Task.mem_all (t : Task) : t ∈ Task.all := by
  obtain _ | o | o | o := t <;> try cases o
  all_goals decide

theorem Block.mem_all : ∀ b : Block, b ∈ Block.all
  | .free => List.mem_cons_self
  | .refreshing n => by simp [Block.all]
  | .cooling n => by simp [Block.all]

theorem rest_core_next : ∀ task ∈ Task.all, ∀ block ∈ Block.all, ∀ ref rw timerZero : Bool,
    ∀ start ∈ (Phase.rest task block ref rw).starts,
      (Phase.rest task block ref rw).core.next 1 24201 timerZero start =
        ((Phase.rest task block ref rw).next timerZero start).core := by
  decide +kernel

/-- Before the first transaction the length is still 0. -/
theorem idle_core_next : ∀ block ∈ Block.all, ∀ ref rw timerZero : Bool,
    ∀ start ∈ (Phase.rest .idle block ref rw).starts,
      (Phase.rest .idle block ref rw).core.next 0 24201 timerZero start =
        ((Phase.rest .idle block ref rw).next timerZero start).core := by
  decide +kernel

theorem run_core_next : ∀ (k : Fin 10) (ref rw timerZero : Bool), ∀ o ∈ [Op.write, .read],
    (Phase.run o k ref rw).core.next 1 24201 timerZero none =
      ((Phase.run o k ref rw).next timerZero none).core := by
  decide +kernel

theorem readDone_core_next : ∀ ref timerZero : Bool,
    (Phase.readDone ref).core.next 1 24201 timerZero none =
      ((Phase.readDone ref).next timerZero none).core := by
  decide +kernel

theorem ended_core_next : ∀ ref timerZero : Bool, ∀ o ∈ [Op.write, .read],
    ∀ start ∈ (Phase.ended o ref).starts,
      (Phase.ended o ref).core.next 1 24201 timerZero start =
        ((Phase.ended o ref).next timerZero start).core := by
  decide +kernel

theorem Op.mem_all (o : Op) : o ∈ [Op.write, .read] := by
  cases o <;> decide

/-- Before the first transaction nothing has been started. -/
def Phase.untouched : Phase → Bool
  | .rest .idle _ _ _ => true
  | _ => false

/-- The registers follow the phases. -/
theorem core_next (p : Phase) (len : BitVec 9) (timerZero : Bool) (start : Option Op)
    (hstart : start ≠ none → p.free = true)
    (hlen : len = 1 ∨ len = 0 ∧ p.untouched = true) :
    p.core.next len 24201 timerZero start = (p.next timerZero start).core := by
  have hmem := Phase.mem_starts hstart
  obtain ⟨rfl, hp⟩ | rfl := hlen.symm
  · obtain ⟨_ | _ | _ | _, block, ref, rw⟩ | _ | _ | _ := p <;> simp [Phase.untouched] at hp
    exact idle_core_next block block.mem_all ref rw timerZero start hmem
  · cases p with
    | rest task block ref rw =>
      exact rest_core_next task task.mem_all block block.mem_all ref rw timerZero start hmem
    | run o k ref rw =>
      obtain rfl : start = none := Decidable.not_not.mp fun h => absurd (hstart h) nofun
      exact run_core_next k ref rw timerZero o o.mem_all
    | readDone ref =>
      obtain rfl : start = none := Decidable.not_not.mp fun h => absurd (hstart h) nofun
      exact readDone_core_next ref timerZero
    | ended o ref => exact ended_core_next ref timerZero o o.mem_all start hmem

end TetrisFpga.Sdram
