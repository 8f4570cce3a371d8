import TetrisFpga.Game.Logic
import TetrisFpga.Machine.Divider

/-!
# The fall rate

`frame_count` goes from 0 up to `frames_per_move`, and one further before the comparison sees it:
`move_clk` rises every `frames_per_move + 2` frames. Six bits never get above 63, so for a parameter
from 63 on it never rises at all.
-/

namespace TetrisFpga.Game
open Machine

/-- Neither an edge of `frame_clk` nor a rising `Reset`. -/
def Edge.Quiet : Edge → Prop
  | .frameClk _ => False
  | .reset level => level = false
  | _ => True

/-- What comes before an edge of `frame_clk` while `Reset` is low, and that edge. -/
structure Frame where
  others : List Edge
  seen : Fin 4 → Bool
  quiet : ∀ e ∈ others, e.Quiet

variable {p : Params}

/-- One frame. -/
def frame (s : State p) (f : Frame) : State p := frameStep (run next s f.others) f.seen

/-- `move_clk` from frame to frame, from the state `s` on. -/
def moveClkLevel (s : State p) (frames : ℕ → Frame) (n : ℕ) : Bool :=
  (follow frame s frames n).moveClk

/-- `frame_count` from frame to frame. -/
def frameCounts (s : State p) (frames : ℕ → Frame) (n : ℕ) : ℕ :=
  (follow frame s frames n).frameCount.toNat

/-- The registers of the first block, with `Reset` low. -/
structure Counting (s t : State p) : Prop where
  reset : t.reset = false
  moveClk : t.moveClk = s.moveClk
  frameCount : t.frameCount = s.frameCount

theorem Counting.next {s t : State p} (h : Counting s t) {e : Edge} (he : e.Quiet) :
    Counting s (next t e) := by
  cases e with
  | clk => exact ⟨h.reset, h.moveClk, h.frameCount⟩
  | frameClk seen => exact he.elim
  | reset level =>
    obtain rfl : level = false := he
    exact ⟨rfl, h.moveClk, h.frameCount⟩
  | keycode code => exact ⟨h.reset, h.moveClk, h.frameCount⟩

theorem counting_run {s : State p} (hs : s.reset = false) {edges : List Edge}
    (hq : ∀ e ∈ edges, e.Quiet) : Counting s (run next s edges) := by
  have hquiet : Along next (fun _ e => e.Quiet) s edges :=
    along_of_forall_mem (fun e he _ => hq e he) s
  exact Along.invariant_self (fun t e ht he => ht.next he) ⟨hs, rfl, rfl⟩ hquiet

theorem frame_reset {s : State p} (hs : s.reset = false) (f : Frame) :
    (frame s f).reset = false := by
  rw [frame, frameStep_eq]
  exact (counting_run hs f.quiet).reset

theorem frameBlock_count {s : State p} (hs : s.reset = false) :
    (frameBlock s).moveClk = decide (p.framesPerMove.toNat < s.frameCount.toNat) ∧
      (frameBlock s).frameCount =
        if p.framesPerMove.toNat < s.frameCount.toNat then 0 else s.frameCount + 1 := by
  have hlt : p.framesPerMove < s.frameCount.setWidth 8 ↔
      p.framesPerMove.toNat < s.frameCount.toNat := by
    rw [BitVec.lt_def, BitVec.toNat_setWidth_of_le (by decide)]
  rw [frameBlock, if_neg (by simp [hs])]
  by_cases h : p.framesPerMove.toNat < s.frameCount.toNat
  · rw [if_pos (hlt.mpr h), if_pos h, decide_eq_true h]
    exact ⟨rfl, rfl⟩
  · rw [if_neg fun h' => h (hlt.mp h'), if_neg h, decide_eq_false h]
    exact ⟨rfl, rfl⟩

/-- A frame counts, or restarts the count where it has passed the parameter. -/
theorem frame_count {s : State p} (hs : s.reset = false) (f : Frame) :
    (frame s f).moveClk = decide (p.framesPerMove.toNat < s.frameCount.toNat) ∧
      (frame s f).frameCount =
        if p.framesPerMove.toNat < s.frameCount.toNat then 0 else s.frameCount + 1 := by
  obtain ⟨hreset, -, hcount⟩ := counting_run hs f.quiet
  rw [frame, frameStep_eq, ← hcount]
  exact frameBlock_count hreset

/-! ## Endless runs -/

section Runs

variable {s : State p} (hs : s.reset = false) (frames : ℕ → Frame)

include hs in
theorem follow_reset (n : ℕ) : (follow frame s frames n).reset = false := by
  induction n with
  | zero => exact hs
  | succ n ih => exact frame_reset ih (frames n)

include hs in
/-- A parameter that the six bits can pass: the frames are divided. -/
theorem divides_frames (hfew : p.framesPerMove.toNat ≤ 62) :
    Divides p.framesPerMove.toNat (frameCounts s frames) (moveClkLevel s frames) where
  restart n hn := by
    obtain ⟨hclk, hcount⟩ := frame_count (follow_reset hs frames n) (frames n)
    have hcount := hcount.trans (if_pos hn)
    exact ⟨congrArg BitVec.toNat hcount, hclk.trans (decide_eq_true hn)⟩
  advance n hn := by
    obtain ⟨hclk, hcount⟩ := frame_count (follow_reset hs frames n) (frames n)
    have hcount := hcount.trans (if_neg (Nat.not_lt.mpr hn))
    refine ⟨?_, hclk.trans (decide_eq_false (Nat.not_lt.mpr hn))⟩
    show (frame (follow frame s frames n) (frames n)).frameCount.toNat = _
    rw [hcount, BitVec.toNat_add]
    have hsmall : (follow frame s frames n).frameCount.toNat ≤ 62 := hn.trans hfew
    exact Nat.mod_eq_of_lt (show _ + 1 < 64 by omega)

include hs in
/-- A parameter that they cannot pass: `move_clk` stays low. -/
theorem never_rises (hmany : 63 ≤ p.framesPerMove.toNat) (n : ℕ) :
    ¬Rises (moveClkLevel s frames) n := by
  intro hr
  have hclk := (frame_count (follow_reset hs frames n) (frames n)).1
  have hlt := of_decide_eq_true (hclk.symm.trans hr.2)
  have hbits := (follow frame s frames n).frameCount.isLt
  omega

/-- `move_clk` is high for one frame at a time, rises every `frames_per_move` frames, and does so
for ever. -/
def FallRate (s : State p) (frames : ℕ → Frame) : Prop :=
  Pulses p.framesPerMove.toNat (moveClkLevel s frames)

end Runs

/-- With no parameter does the piece fall every `frames_per_move` frames: up to 62 it takes two
more, and from 63 on it never falls. -/
theorem not_fallRate {s : State p} (hs : s.reset = false) (frames : ℕ → Frame) :
    ¬FallRate s frames ∧
      (p.framesPerMove.toNat ≤ 62 →
        Pulses (p.framesPerMove.toNat + 2) (moveClkLevel s frames)) ∧
      (63 ≤ p.framesPerMove.toNat → ∀ n, ¬Rises (moveClkLevel s frames) n) := by
  have hdivided (hfew : p.framesPerMove.toNat ≤ 62) :
      Pulses (p.framesPerMove.toNat + 2) (moveClkLevel s frames) :=
    (divides_frames hs frames hfew).pulses
  refine ⟨fun h => ?_, hdivided, never_rises hs frames⟩
  by_cases hfew : p.framesPerMove.toNat ≤ 62
  · have hperiod := h.period_unique (hdivided hfew)
    omega
  · obtain ⟨m, -, hm⟩ := h.recurs 0
    exact never_rises hs frames (by omega) m hm

/-- A frame in which nothing else happens. -/
def idleFrame : Frame where
  others := []
  seen := fun _ => false
  quiet := by simp

/-- The run from power-up without keys. -/
theorem powerUp_not_fallRate :
    ¬FallRate (powerUp ({} : Params) false 0) (fun _ => idleFrame) :=
  (not_fallRate rfl fun _ => idleFrame).1

/-- The default is 13, and the first two rises are 15 frames apart. -/
theorem fall_takes_fifteen :
    Rises (moveClkLevel (powerUp ({} : Params) false 0) fun _ => idleFrame) 14 ∧
      Rises (moveClkLevel (powerUp ({} : Params) false 0) fun _ => idleFrame) 29 ∧
      (∀ j, 14 < j → j < 29 →
        ¬Rises (moveClkLevel (powerUp ({} : Params) false 0) fun _ => idleFrame) j) ∧
      ¬FallRate (powerUp ({} : Params) false 0) fun _ => idleFrame := by
  have hrises : Rises (moveClkLevel (powerUp ({} : Params) false 0) fun _ => idleFrame) 14 ∧
      Rises (moveClkLevel (powerUp ({} : Params) false 0) fun _ => idleFrame) 29 := by
    decide +kernel
  have hnone : ∀ j < 29, 14 < j →
      ¬Rises (moveClkLevel (powerUp ({} : Params) false 0) fun _ => idleFrame) j := by
    decide +kernel
  refine ⟨hrises.1, hrises.2, fun j h1 h2 => hnone j h2 h1, fun h => ?_⟩
  exact absurd (h.spaced 14 29 (by decide) hrises.1 hrises.2 fun j h1 h2 => hnone j h2 h1)
    (by decide)

end TetrisFpga.Game
