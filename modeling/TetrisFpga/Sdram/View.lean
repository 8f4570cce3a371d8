import TetrisFpga.Sdram.System
import TetrisFpga.Sdram.Transaction

/-!
# The controller as its FIFOs see it

`View` keeps of the controller and the SDRAM the stage of the transaction, the address
registers and the memory. `System.At` says that the registers belong to a view, and every
cycle of the system is a step `View.Next` of it.
-/

namespace TetrisFpga.Sdram
open Machine

abbrev Memory := ADDR → WORD

structure View where
  stage : Stage
  mAddr : ADDR
  rWrAddr : ADDR
  rRdAddr : ADDR
  flag : Bool
  mem : Memory

/-- The transaction that a free controller starts. -/
def View.start (v : View) (t : Tetris) (rusedw wusedw : ℕ) : Option Op :=
  if v.stage = .idle ∧ t.writeLd = false ∧ t.readLd = false ∧ v.flag = true then
    if 1 ≤ rusedw then some .write else if wusedw < 1 then some .read else none
  else none

/-- The next value of an address register. -/
def advance (load done : Prop) [Decidable load] [Decidable done] (addr r : ADDR) : ADDR :=
  if load then addr else if done then if r < 0x1fffffe then r + 1 else addr else r

theorem nextAddr_eq (load : Bool) (done : Prop) [Decidable done] (addr r : ADDR) :
    nextAddr load (decide done) addr 0x1ffffff 1 r = advance (load = true) done addr r := by
  simp [nextAddr, advance]

/-- One cycle. `rusedw` and `wusedw` are the word counts that the controller sees, `q` is the
word popped last. -/
structure View.Next (v : View) (t : Tetris) (rusedw wusedw : ℕ) (q : WORD) (v' : View) :
    Prop where
  stage : Stage.Next (v.start t rusedw wusedw) v.stage v'.stage
  mAddr : v'.mAddr = match v.start t rusedw wusedw with
    | some .write => v.rWrAddr
    | some .read => v.rRdAddr
    | none => v.mAddr
  rWrAddr : v'.rWrAddr =
    advance (t.writeLd = true) (v.stage = .run .write 9) t.writeaddr v.rWrAddr
  rRdAddr : v'.rRdAddr =
    advance (t.readLd = true) (v.stage = .run .read 10) t.readaddr v.rRdAddr
  mem : v'.mem = fun a => if v.stage = .run .write 5 ∧ a = v.mAddr then q else v.mem a

/-- The view of a controller in a phase. -/
def viewOf (c : Controller) (d : Device) (p : Phase) : View where
  stage := p.stage
  mAddr := c.path.mAddr
  rWrAddr := c.path.rWrAddr
  rRdAddr := c.path.rRdAddr
  flag := c.flag
  mem := d.mem

def System.At (s : System) (v : View) : Prop :=
  ∃ p, Follows s.ctl s.device p ∧ v = viewOf s.ctl s.device p

namespace Phase

/-- The requests and reports of the controller. -/
theorem core_pushes (p : Phase) :
    (p.core.ctl.outValid && p.core.ctl.rdMask) = decide (p.stage = .run .read 9) := by
  cases p with
  | rest task => obtain _ | o | o | o := task <;> rfl
  | run o k => cases o <;> simp [core, runCore, stage]
  | readDone => rfl
  | ended o => rfl

theorem core_mWrDone (p : Phase) :
    (p.core.ctl.mWrDone && p.core.ctl.wrMask) = decide (p.stage = .run .write 9) := by
  cases p with
  | rest task => obtain _ | o | o | o := task <;> rfl
  | run o k => cases o <;> simp [core, runCore, stage]
  | readDone => rfl
  | ended o => rfl

theorem core_mRdDone (p : Phase) :
    (p.core.ctl.mRdDone && p.core.ctl.rdMask) = decide (p.stage = .run .read 10) := by
  cases p with
  | rest task => obtain _ | o | o | o := task <;> rfl
  | run o k =>
    have hk : k.val ≠ 10 := by have := k.isLt; omega
    cases o <;> simp [core, runCore, stage, hk]
  | readDone => rfl
  | ended o => rfl

end Phase

namespace Follows

variable {c : Controller} {d : Device} {p : Phase}

theorem start_eq (h : Follows c d p) (t : Tetris) (rusedw wusedw : ℕ) :
    c.start t.ports rusedw wusedw = (viewOf c d p).start t rusedw wusedw := by
  have hfree : c.core.ctl.free = true ↔ (viewOf c d p).stage = .idle := by
    rw [h.core, p.core_free]
    exact p.stage_idle_iff.symm
  unfold Controller.start View.start
  simp only [Bool.and_eq_true, Bool.not_eq_true', hfree, and_assoc, Tetris.ports]
  simp [viewOf]

/-- One edge of `CLK`, seen from outside. -/
theorem view_next (h : Follows c d p) (t : Tetris) (rusedw wusedw : ℕ) (q : WORD) :
    ∃ p', Follows (c.next t.ports rusedw wusedw (busWord c d q)) (d.clock c q) p' ∧
      (viewOf c d p).Next t rusedw wusedw q
        (viewOf (c.next t.ports rusedw wusedw (busWord c d q)) (d.clock c q) p') := by
  refine ⟨_, h.next rfl rfl rusedw wusedw, ?_, ?_, ?_, ?_, ?_⟩
  · rw [← h.start_eq]
    exact p.stage_next _ _ h.start_free
  · rw [← h.start_eq]
    rfl
  · change nextAddr t.writeLd (c.core.ctl.mWrDone && c.core.ctl.wrMask) _ _ _ _ = _
    rw [h.core, p.core_mWrDone]
    exact nextAddr_eq ..
  · change nextAddr t.readLd (c.core.ctl.mRdDone && c.core.ctl.rdMask) _ _ _ _ = _
    rw [h.core, p.core_mRdDone]
    exact nextAddr_eq ..
  · exact h.clock_mem

theorem pops_eq (h : Follows c d p) :
    c.pops = decide ((viewOf c d p).stage = .run .write 4) := by
  rw [Controller.pops, h.core]
  exact p.core_pops

theorem pushes_eq (h : Follows c d p) :
    c.pushes = decide ((viewOf c d p).stage = .run .read 9) := by
  rw [Controller.pushes, h.core]
  exact p.core_pushes

/-- The word that a read pushes. -/
theorem mDataOut_eq (h : Follows c d p) (hp : (viewOf c d p).stage = .run .read 9) :
    c.path.mDataOut = (viewOf c d p).mem (viewOf c d p).mAddr := by
  obtain ⟨ref, rw', rfl⟩ := Phase.eq_run_of_stage (by omega) hp
  exact h.path.2.2 rfl

end Follows

/-- Every cycle of the system is a step of the view. -/
theorem System.At.next {s : System} {v : View} (h : s.At v) (coincident key : Bool) :
    ∃ v', (s.next coincident key).At v' ∧
      v.Next s.tetris (s.wrFifo.rdusedw usedwBits) (s.rdFifo.wrusedw usedwBits) s.wrFifo.q v' := by
  obtain ⟨p, hp, rfl⟩ := h
  obtain ⟨p', hp', hv⟩ := hp.view_next s.tetris (s.wrFifo.rdusedw usedwBits)
    (s.rdFifo.wrusedw usedwBits) s.wrFifo.q
  exact ⟨_, ⟨p', hp', rfl⟩, hv⟩

theorem System.At.wrFifo {s : System} {v : View} (h : s.At v) (coincident key : Bool) :
    (s.next coincident key).wrFifo = wrCycle coincident s.tetris (s.nextTetris key)
      (v.stage = .run .write 4) s.wrFifo := by
  obtain ⟨p, hp, rfl⟩ := h
  rw [← hp.pops_eq]
  rfl

theorem System.At.rdFifo {s : System} {v : View} (h : s.At v) (coincident key : Bool) :
    (s.next coincident key).rdFifo = rdCycle coincident s.tetris (s.nextTetris key)
      (v.stage = .run .read 9) (v.mem v.mAddr) s.rdFifo := by
  obtain ⟨p, hp, rfl⟩ := h
  rw [← hp.pushes_eq]
  by_cases h9 : (viewOf s.ctl s.device p).stage = .run .read 9
  · rw [← hp.mDataOut_eq h9]
    rfl
  · -- No word is pushed, whatever the data.
    have hpush : s.ctl.pushes = false := hp.pushes_eq.trans (decide_eq_false h9)
    change rdCycle _ _ _ s.ctl.pushes _ _ = _
    rw [hpush]
    rfl

/-! ## Power-up -/

/-- The system after the SDRAM was initialised, with nothing started. The counters lag by
`host` clocks at the side of the test machine and by `core` at that of the controller. -/
def System.powered (mem : Memory) (host core : ℕ) : System where
  tetris := {}
  ctl := { core := (Phase.rest .idle .free false false).core, initTimer := 24201, timer := 1000 }
  device := { mem := mem }
  wrFifo := ⟨[], 0, List.replicate host 0, List.replicate core 0⟩
  rdFifo := ⟨[], 0, List.replicate core 0, List.replicate host 0⟩
  half := true

theorem System.powered_follows (mem : Memory) (host core : ℕ) :
    Follows (powered mem host core).ctl (powered mem host core).device
      (.rest .idle .free false false) where
  core := rfl
  initTimer := rfl
  length := .inr ⟨rfl, rfl⟩
  path := rfl

end TetrisFpga.Sdram
