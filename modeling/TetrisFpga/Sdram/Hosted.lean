import TetrisFpga.Machine.Memory
import TetrisFpga.Sdram.ReadPass

/-!
# The SDRAM behind any host

`System.drive` is a cycle of the system with any host in place of the test machine: the signals
of the host are those of a `Tetris` whose state nobody reads. The controller pops a word from
the write FIFO one cycle before the SDRAM stores it, and pushes a word into the read FIFO four
cycles after the SDRAM was asked for it. Seen from the FIFOs the accesses are nevertheless those
of a memory that takes no time, whatever the host does.

## Main results

- `serial_run`: every word fetched is the last one stored at its address
-/

namespace TetrisFpga.Sdram
open Machine

/-! ## A cycle -/

/-- One cycle of `CLK`, with which the signals of the host become `t'`. -/
def System.drive (coincident : Bool) (s : System) (t' : Tetris) : System where
  tetris := t'
  ctl := s.ctl.next s.tetris.ports (s.wrFifo.rdusedw usedwBits) (s.rdFifo.wrusedw usedwBits) s.dq
  device := s.device.next s.ctl.core.ctl.strobes s.ctl.path.ba s.ctl.path.sa s.ctl.core.ctl.dqm
    s.dq
  wrFifo := wrCycle coincident s.tetris t' s.ctl.pops s.wrFifo
  rdFifo := rdCycle coincident s.tetris t' s.ctl.pushes s.ctl.path.mDataOut s.rdFifo
  half := !s.half

@[simp] theorem System.drive_tetris (coincident : Bool) (s : System) (t' : Tetris) :
    (s.drive coincident t').tetris = t' := rfl

namespace System.At

variable {s : System} {v : View}

/-- Every cycle is a step of the view. -/
theorem drive (h : s.At v) (coincident : Bool) (t' : Tetris) :
    ∃ v', (s.drive coincident t').At v' ∧
      v.Next s.tetris (s.wrFifo.rdusedw usedwBits) (s.rdFifo.wrusedw usedwBits) s.wrFifo.q v' := by
  obtain ⟨p, hp, rfl⟩ := h
  obtain ⟨p', hp', hv⟩ := hp.view_next s.tetris (s.wrFifo.rdusedw usedwBits)
    (s.rdFifo.wrusedw usedwBits) s.wrFifo.q
  exact ⟨_, ⟨p', hp', rfl⟩, hv⟩

theorem pops (h : s.At v) : s.ctl.pops = decide (v.stage = .run .write 4) := by
  obtain ⟨p, hp, rfl⟩ := h
  exact hp.pops_eq

theorem pushes (h : s.At v) : s.ctl.pushes = decide (v.stage = .run .read 9) := by
  obtain ⟨p, hp, rfl⟩ := h
  exact hp.pushes_eq

theorem mAddr (h : s.At v) : s.ctl.path.mAddr = v.mAddr := by
  obtain ⟨p, hp, rfl⟩ := h
  rfl

theorem mem (h : s.At v) : s.device.mem = v.mem := by
  obtain ⟨p, hp, rfl⟩ := h
  rfl

theorem mDataOut (h : s.At v) (h9 : v.stage = .run .read 9) :
    s.ctl.path.mDataOut = v.mem v.mAddr := by
  obtain ⟨p, hp, rfl⟩ := h
  exact hp.mDataOut_eq h9

end System.At

namespace Phase

theorem core_mWr (p : Phase) : p.core.ctl.mWr = p.stage.writes := by
  cases p with
  | rest task => obtain _ | o | o | o := task <;> first | rfl | (cases o <;> rfl)
  | run o k => cases o <;> simp [core, runCore, stage, Stage.writes]
  | readDone => rfl
  | ended o => cases o <;> rfl

end Phase

/-- A write is under way. -/
theorem System.At.mWr {s : System} {v : View} (h : s.At v) :
    s.ctl.core.ctl.mWr = v.stage.writes := by
  obtain ⟨p, hp, rfl⟩ := h
  rw [hp.core]
  exact p.core_mWr

/-- A read is under way. -/
theorem System.At.mRd {s : System} {v : View} (h : s.At v) :
    s.ctl.core.ctl.mRd = v.stage.reads := by
  obtain ⟨p, hp, rfl⟩ := h
  rw [hp.core]
  exact p.core_mRd

/-! ## The accesses of a run -/

/-- The access of a cycle, at the FIFOs: the word that the write FIFO gives, or the one that
the read FIFO is given. -/
def System.access (coincident : Bool) (s : System) (t' : Tetris) : List (Access ADDR WORD) :=
  if s.ctl.pops then [.stored s.ctl.path.mAddr (s.drive coincident t').wrFifo.q]
  else if s.ctl.pushes then [.fetched s.ctl.path.mAddr s.ctl.path.mDataOut]
  else []

/-- The accesses of a run, the first one first. -/
def System.accesses (coincident : Bool) : System → List Tetris → List (Access ADDR WORD) :=
  collect (System.drive coincident) (System.access coincident)

/-- The memory is what the accesses have left, but for a word that has just been popped. -/
structure Accessed (m : Memory) (log : List (Access ADDR WORD)) (s : System) (v : View) :
    Prop where
  serial : Serial m log
  mem : replay m log =
    if v.stage = .run .write 5 then Function.update v.mem v.mAddr s.wrFifo.q else v.mem

variable {coincident : Bool} {m : Memory} {log : List (Access ADDR WORD)} {s : System}
  {v v' : View} {t' : Tetris}

/-- The stage after a word was popped. -/
theorem View.Next.of_write_four
    (hv : v.Next s.tetris (s.wrFifo.rdusedw usedwBits) (s.rdFifo.wrusedw usedwBits) s.wrFifo.q v')
    (h4 : v.stage = .run .write 4) :
    v'.stage = .run .write 5 ∧ v'.mAddr = v.mAddr ∧ v'.mem = v.mem := by
  have hstage := hv.stage
  have hmAddr := hv.mAddr
  have hidle : v.start s.tetris (s.wrFifo.rdusedw usedwBits) (s.rdFifo.wrusedw usedwBits) = none :=
    if_neg (by simp [h4])
  rw [hidle] at hmAddr
  rw [h4] at hstage
  exact ⟨hstage.run_write (by omega), hmAddr, mem_eq hv (by simp [h4])⟩

theorem Stage.Next.ne_write_five {start : Option Op} {st st' : Stage} (h : Next start st st')
    (h4 : st ≠ .run .write 4) : st' ≠ .run .write 5 := by
  cases h with
  | step o k hk =>
    intro heq
    obtain ⟨rfl, hk4⟩ := Stage.run.inj heq
    exact h4 (congrArg _ (Nat.succ.inj hk4))
  | _ => nofun

theorem Accessed.next (h : Accessed m log s v) (hat : s.At v)
    (hv : v.Next s.tetris (s.wrFifo.rdusedw usedwBits) (s.rdFifo.wrusedw usedwBits) s.wrFifo.q v') :
    Accessed m (log ++ s.access coincident t') (s.drive coincident t') v' := by
  by_cases h4 : v.stage = .run .write 4
  · -- A word is popped: it counts as stored from now on.
    obtain ⟨hstage, hmAddr, hmem⟩ := hv.of_write_four h4
    have hlog : s.access coincident t' =
        [.stored v.mAddr (s.drive coincident t').wrFifo.q] := by
      rw [System.access, hat.pops, decide_eq_true h4, if_pos rfl, hat.mAddr]
    have hbefore : replay m log = v.mem := by
      rw [h.mem, if_neg (by simp [h4])]
    rw [hlog]
    refine ⟨h.serial.concat trivial, ?_⟩
    rw [replay_concat, hbefore, if_pos hstage, hmAddr, hmem]
    rfl
  · have hpops : s.ctl.pops = false := hat.pops.trans (decide_eq_false h4)
    have hafter : replay m log = v'.mem := by
      rw [h.mem, hv.mem]
      -- the word that was popped a cycle ago gets into the memory
      by_cases h5 : v.stage = .run .write 5
      · rw [if_pos h5]
        funext a
        simp [Function.update_apply, h5]
      · rw [if_neg h5]
        funext a
        exact (if_neg fun ha => h5 ha.1).symm
    have hne : v'.stage ≠ .run .write 5 := hv.stage.ne_write_five h4
    by_cases h9 : v.stage = .run .read 9
    · -- No write is under way when a word is pushed.
      have hlog : s.access coincident t' = [.fetched v.mAddr (v.mem v.mAddr)] := by
        rw [System.access, hpops, hat.pushes, decide_eq_true h9, hat.mAddr, hat.mDataOut h9]
        rfl
      rw [hlog]
      refine ⟨h.serial.concat ?_, ?_⟩
      · rw [h.mem, if_neg (by simp [h9])]
        rfl
      · rw [replay_concat, if_neg hne]
        exact hafter
    · have hlog : s.access coincident t' = [] := by
        rw [System.access, hpops, hat.pushes, decide_eq_false h9]
        rfl
      rw [hlog, List.append_nil]
      refine ⟨h.serial, ?_⟩
      rw [if_neg hne]
      exact hafter

/-- The accesses so far, in some view of the system. -/
def HasServed (m : Memory) (log : List (Access ADDR WORD)) (s : System) : Prop :=
  ∃ v, s.At v ∧ Accessed m log s v

theorem HasServed.drive (h : HasServed m log s) :
    HasServed m (log ++ s.access coincident t') (s.drive coincident t') := by
  obtain ⟨v, hat, h⟩ := h
  obtain ⟨v', hat', hv⟩ := hat.drive coincident t'
  exact ⟨v', hat', h.next hat hv⟩

/-- In every run, whatever the host does: a word that is fetched is the last one that was stored
at its address, or the one that was there; and when no write is under way, the memory holds what
the accesses have left. -/
theorem serial_run (hs : ∃ v, s.At v) (hw : s.ctl.core.ctl.mWr = false) (hosts : List Tetris) :
    Serial s.device.mem (s.accesses coincident hosts) ∧
      ((run (System.drive coincident) s hosts).ctl.core.ctl.mWr = false →
        (run (System.drive coincident) s hosts).device.mem =
          replay s.device.mem (s.accesses coincident hosts)) := by
  obtain ⟨v, hat⟩ := hs
  have hstart : HasServed s.device.mem [] s := by
    refine ⟨v, hat, trivial, ?_⟩
    rw [hat.mWr] at hw
    rw [if_neg (Stage.ne_run hw 5), replay_nil, hat.mem]
  have hany : Along (System.drive coincident) (fun _ _ => True) s hosts :=
    along_of_forall_mem (fun _ _ _ => trivial) s
  have hend : HasServed s.device.mem ([] ++ s.accesses coincident hosts)
      (run (System.drive coincident) s hosts) :=
    hany.invariant_collect (fun _ _ _ h _ => h.drive) hstart
  rw [List.nil_append] at hend
  obtain ⟨v', hat', h'⟩ := hend
  refine ⟨h'.serial, fun hw' => ?_⟩
  rw [hat'.mWr] at hw'
  rw [hat'.mem]
  exact (h'.mem.trans (if_neg (Stage.ne_run hw' 5))).symm

/-! ## A host that writes two words and reads them back -/

namespace Tetris

def loading (a : ADDR) : Tetris := { writeLd := true, writeaddr := a }

def pushing (w : WORD) : Tetris := { writeReq := true, writedata := w }

def asking (a : ADDR) : Tetris := { readLd := true, readaddr := a }

def taking : Tetris := { readReq := true }

def quiet : Tetris := {}

/-- The words are pushed, and the host waits until they are written. -/
def pushesTwo : List Tetris := [pushing 7, pushing 9] ++ List.replicate 70 quiet

/-- The host takes a word, waits for the next one, and takes it. -/
def takesTwo : List Tetris :=
  List.replicate 40 quiet ++ [taking] ++ List.replicate 40 quiet ++ [taking]

end Tetris

theorem System.powered_at (mem : Memory) (host core : ℕ) : ∃ v, (powered mem host core).At v :=
  ⟨_, _, powered_follows mem host core, rfl⟩

theorem serial_run_powered :
    let s : System := .powered (fun _ => 0) 2 1
    let hosts := [.loading 0x1234] ++ Tetris.pushesTwo ++ [.asking 0x1234] ++ Tetris.takesTwo
    Serial s.device.mem (s.accesses false hosts) ∧
      ((run (System.drive false) s hosts).ctl.core.ctl.mWr = false →
        (run (System.drive false) s hosts).device.mem =
          replay s.device.mem (s.accesses false hosts)) :=
  serial_run (System.powered_at _ 2 1) rfl _

example : (System.powered (fun _ => 0) 2 1).accesses false
    ([.loading 0x1234] ++ Tetris.pushesTwo ++ [.asking 0x1234] ++ Tetris.takesTwo) =
      [.stored 0x1234 7, .stored 0x1235 9, .fetched 0 0, .fetched 0x1234 7, .fetched 0x1235 9] := by
  decide +kernel

end TetrisFpga.Sdram
