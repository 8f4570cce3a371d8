import Mathlib.Logic.Function.Iterate
import Mathlib.Order.Basic
import TetrisFpga.Sdram.Motion
import TetrisFpga.Sdram.Phase

/-!
# The initialisation

From power-up on, while the host starts no transaction, the registers of the three blocks do not
depend on the inputs: `Startup.after n` are those after `n` edges of `CLK`.
-/

namespace TetrisFpga.Sdram
open Machine

/-- The registers that go through the initialisation. -/
structure Startup where
  core : Core := {}
  timer : BitVec 16 := 0
  initTimer : BitVec 16 := 0
  deriving DecidableEq

namespace Startup

def next (s : Startup) : Startup where
  core := s.core.next 0 s.initTimer (s.timer == 0) none
  timer := nextTimer s.core.cmd.refAck s.core.ci.initReq s.timer
  initTimer := nextInitTimer s.initTimer

def after (n : ℕ) : Startup := next^[n] {}

theorem after_succ (n : ℕ) : after (n + 1) = (after n).next := Function.iterate_succ_apply' ..

/-- The registers while the SDRAM is left alone. -/
def held : Core where
  ci := { nop := true, initReq := true }
  cmd := { doInitial := true, strobes := .nop }
  ctl := { dqm := 3, strobes := .nop }

theorem ci_held {t : BitVec 16} (ht : t < initPer) :
    held.ci.next 0 false false false t = held.ci := by
  have hne {x : BitVec 16} (hx : initPer ≤ x) : t ≠ x := by
    rintro rfl
    exact BitVec.not_lt.mpr hx ht
  have hall : initRefreshes.all (initPer ≤ ·) = true := by decide
  have hrefresh : initRefreshes.contains t = false := by
    rw [List.contains_eq_mem, decide_eq_false_iff_not]
    exact fun hmem => hne (of_decide_eq_true (List.all_eq_true.mp hall t hmem)) rfl
  simp only [ControlInterface.next, hrefresh, decide_eq_true ht,
    beq_false_of_ne (hne (x := initPer + 20) (by decide)),
    beq_false_of_ne (hne (x := initPer + 200) (by decide))]
  rfl

theorem held_core {t : BitVec 16} (ht : t < initPer) : held.next 0 t false none = held := by
  rw [Core.next]
  exact congrArg (fun ci => (⟨ci, _, _⟩ : Core)) (ci_held ht)

theorem nextInitTimer_held {t : BitVec 16} (ht : t < initPer) : nextInitTimer t = t + 1 :=
  if_pos (BitVec.lt_trans ht (by decide))

theorem held_next {t : BitVec 16} (ht : t < initPer) :
    next ⟨held, refPer + 200, t⟩ = ⟨held, refPer + 200, t + 1⟩ := by
  show (⟨held.next 0 t false none, refPer + 200, nextInitTimer t⟩ : Startup) = _
  rw [held_core ht, nextInitTimer_held ht]

theorem ofNat_lt_initPer {n : ℕ} (hn : n < 24000) : BitVec.ofNat 16 n < initPer := by
  rw [BitVec.lt_def, BitVec.toNat_ofNat, Nat.mod_eq_of_lt (by omega)]
  exact hn

/-- Until `init_timer` reaches `INIT_PER` no other register changes. -/
theorem after_eq_held (n : ℕ) (hn : n + 2 ≤ 24000) :
    after (n + 2) = ⟨held, refPer + 200, BitVec.ofNat 16 (n + 2)⟩ := by
  induction n with
  | zero => decide
  | succ n ih =>
    have hlt : BitVec.ofNat 16 (n + 2) < initPer := ofNat_lt_initPer (by omega)
    have hsucc : BitVec.ofNat 16 (n + 2 + 1) = BitVec.ofNat 16 (n + 2) + 1 := BitVec.ofNat_add ..
    rw [Nat.add_right_comm, after_succ, ih (by omega), held_next hlt, hsucc]

/-- `n` edges after `init_timer` has reached `INIT_PER`. -/
theorem after_initPer (n : ℕ) :
    after (24000 + n) = next^[n] ⟨held, refPer + 200, initPer⟩ := by
  rw [after, Nat.add_comm, Function.iterate_add_apply]
  exact congrArg next^[n] (after_eq_held 23998 (by decide))

/-- No transaction, and none of its commands on the pins. -/
def Quiet (s : Startup) : Prop :=
  s.core.ctl.strobes ∉ [Strobes.activate, .read, .write] ∧ s.core.ctl.st = 0

instance (s : Startup) : Decidable s.Quiet := inferInstanceAs (Decidable (_ ∧ _))

/-- From the end of the wait until the registers are at rest. -/
theorem quiet_initialising : Along (fun (s : Startup) () => s.next) (fun s _ => s.Quiet)
    ⟨held, refPer + 200, initPer⟩ (List.replicate 222 ()) := by
  decide +kernel

theorem run_replicate (s : Startup) (n : ℕ) :
    run (fun (s : Startup) () => s.next) s (List.replicate n ()) = next^[n] s := by
  induction n generalizing s with
  | zero => rfl
  | succ n ih => exact ih s.next

theorem quiet_after {n : ℕ} (hn : n ≤ 24221) : (after n).Quiet := by
  rcases Nat.lt_or_ge n 24000 with hlt | hge
  · match n with
    | 0 => decide
    | 1 => decide
    | n + 2 =>
      rw [after_eq_held n (by omega)]
      show held.ctl.strobes ∉ [Strobes.activate, .read, .write] ∧ held.ctl.st = 0
      decide
  · obtain ⟨k, rfl⟩ := Nat.exists_eq_add_of_le hge
    have hquiet := quiet_initialising
    obtain ⟨j, hj⟩ : ∃ j, 222 = k + (j + 1) := ⟨221 - k, by omega⟩
    rw [hj, ← List.replicate_append_replicate, along_append, run_replicate] at hquiet
    rw [after_initPer]
    exact hquiet.2.1

/-- The registers at rest. -/
theorem after_ready :
    after 24221 = ⟨(Phase.rest .idle .free false false).core, 1004, initPer + 201⟩ := by
  rw [after_initPer 221]
  decide +kernel

end Startup

namespace Controller

def startup (c : Controller) : Startup := ⟨c.core, c.timer, c.initTimer⟩

/-- The host starts no transaction. -/
abbrev Idle : Controller → List Edge → Prop := Along edge fun c e => c.starts e = none

theorem startup_edge {c : Controller} {e : Edge} (hlen : c.path.mLength = 0)
    (hs : c.starts e = none) :
    (c.edge e).startup = c.startup.next ∧ (c.edge e).path.mLength = 0 := by
  constructor
  · show (⟨c.core.next c.path.mLength c.initTimer (c.timer == 0) (c.starts e), _, _⟩ : Startup) = _
    rw [hlen, hs]
    rfl
  · have hnext := mLength_answered (c := c) (c.core.ci.cmdAck, e)
    rw [hs] at hnext
    exact hnext.trans hlen

theorem startup_run {c : Controller} {n : ℕ} {is : List Edge} (hc : c.startup = .after n)
    (hlen : c.path.mLength = 0) (h : Idle c is) :
    (run edge c is).startup = .after (n + is.length) ∧ (run edge c is).path.mLength = 0 := by
  induction is generalizing c n with
  | nil => exact ⟨hc, hlen⟩
  | cons e is ih =>
    obtain ⟨hnext, hlen⟩ := startup_edge hlen h.1
    rw [hc, ← Startup.after_succ] at hnext
    have hrun := ih hnext hlen h.2
    rwa [Nat.add_assoc, Nat.add_comm 1] at hrun

/-- The registers after an initialisation. -/
theorem startup_powerUp {is : List Edge} (h : Idle {} is) :
    (run edge {} is).startup = .after is.length ∧ (run edge {} is).path.mLength = 0 := by
  have hrun := startup_run (n := 0) rfl rfl h
  rwa [Nat.zero_add] at hrun

/-! ### A host that loads -/

/-- The host holds `WR_LOAD`, with both FIFOs empty and transfers of length 1. -/
def loading : Edge where
  ports := ⟨0, 0x1ffffff, 1, true, 0, 0x1ffffff, 1, false⟩
  rusedw := 0
  wusedw := 0
  dq := 0

/-- The host has a word to write. -/
def offering : Edge where
  ports := ⟨0, 0x1ffffff, 1, false, 0, 0x1ffffff, 1, false⟩
  rusedw := 1
  wusedw := 1
  dq := 0

theorem starts_of_wrLoad {c : Controller} {e : Edge} (h : e.ports.wrLoad = true) :
    c.starts e = none := by
  simp [starts, start, h]

theorem idle_loading (c : Controller) (n : ℕ) : Idle c (List.replicate n loading) := by
  induction n generalizing c with
  | zero => trivial
  | succ n ih => exact ⟨starts_of_wrLoad rfl, ih _⟩

/-- The controller then, while the SDRAM is left alone. -/
def held (initTimer : BitVec 16) : Controller where
  core := Startup.held
  timer := refPer + 200
  initTimer := initTimer

theorem held_edge {t : BitVec 16} (ht : t < initPer) : (held t).edge loading = held (t + 1) := by
  show (⟨Startup.held.next 0 t false ((held t).starts loading),
    Path.next {} _ loading.ports ((held t).starts loading) 0, refPer + 200, nextInitTimer t, _⟩ :
      Controller) = _
  rw [starts_of_wrLoad rfl, Startup.held_core ht, Startup.nextInitTimer_held ht]
  rfl

theorem run_loading (n : ℕ) (hn : n + 2 ≤ 24000) :
    run edge {} (List.replicate (n + 2) loading) = held (BitVec.ofNat 16 (n + 2)) := by
  induction n with
  | zero => rfl
  | succ n ih =>
    have hsucc : BitVec.ofNat 16 (n + 2 + 1) = BitVec.ofNat 16 (n + 2) + 1 := BitVec.ofNat_add ..
    rw [Nat.add_right_comm, List.replicate_succ', run_append, ih (by omega), hsucc]
    exact held_edge (Startup.ofNat_lt_initPer (by omega))

deriving instance DecidableEq for Path
deriving instance DecidableEq for Controller

/-- The controller when the initialisation is over. -/
def ready : Controller where
  core := (Phase.rest .idle .free false false).core
  timer := 1004
  initTimer := initPer + 201

theorem run_loading_ready : run edge {} (List.replicate 24221 loading) = ready := by
  have hwait : run edge {} (List.replicate 24000 loading) = held initPer :=
    run_loading 23998 (by decide)
  have hinit : run edge (held initPer) (List.replicate 221 loading) = ready := by
    decide +kernel
  rw [show 24221 = 24000 + 221 from rfl, ← List.replicate_append_replicate, run_append, hwait,
    hinit]

end Controller

end TetrisFpga.Sdram
