import Mathlib.Data.Fintype.Pi
import Mathlib.Order.OrderIsoNat
import TetrisFpga.Game.Fall
import TetrisFpga.Game.Overlap

/-!
# A game without an end

While `Reset` is low a piece lands again and again, and not later than it takes to fall past all
rows. No landing takes a cell away, so from some frame on the board stays as it is: the landings
that follow set no cell, and the module has no state in which they end.

## Main results

- `lands_within`: how soon the next piece lands
- `board_settles`: from some frame on the board is the same for ever
-/

namespace TetrisFpga.Game
open Machine

variable {p : Params}

/-- The module before the edge of `frame_clk` that ends a frame. -/
def beforeEdge (s : State p) (frames : ℕ → Frame) (n : ℕ) : State p :=
  run next (follow frame s frames n) (frames n).others

/-- The piece is locked at the end of this frame. -/
def LandsAt (s : State p) (frames : ℕ → Frame) (n : ℕ) : Prop :=
  Locks (beforeEdge s frames n) (frames n).seen

theorem follow_succ (s : State p) (frames : ℕ → Frame) (n : ℕ) :
    follow frame s frames (n + 1) = frameStep (beforeEdge s frames n) (frames n).seen := rfl

/-! ## What a frame does to the piece -/

/-- Nothing but an edge of `frame_clk` changes the board and the rows, and `blockYMotion` stays 1.
-/
theorem others_cells {s : State p} (hm : s.blockYMotion = 1) {others : List Edge}
    (hq : ∀ e ∈ others, e.Quiet) : (run next s others).board = s.board ∧
      (run next s others).blockY = s.blockY ∧ (run next s others).blockYMotion = 1 := by
  induction others generalizing s with
  | nil => exact ⟨rfl, rfl, hm⟩
  | cons e es ih =>
    have hframe : ∀ seen, e ≠ .frameClk seen := by
      rintro seen rfl
      exact hq _ List.mem_cons_self
    obtain ⟨hboard, hrows, -⟩ := next_cells (s := s) hframe
    have hmotion : (next s e).blockYMotion = 1 := by
      cases e with
      | clk => rfl
      | frameClk seen => exact absurd rfl (hframe seen)
      | reset level =>
        obtain rfl : level = false := hq _ List.mem_cons_self
        exact hm
      | keycode code => exact hm
    obtain ⟨hboard', hrows', hmotion'⟩ :=
      ih hmotion fun e' he' => hq e' (List.mem_cons_of_mem e he')
    exact ⟨hboard'.trans hboard, hrows'.trans hrows, hmotion'⟩

/-- `move_clk` rises if it is low and the count has passed the parameter. -/
theorem moveEdge_iff {s : State p} (hs : s.reset = false) :
    MoveEdge s ↔ s.moveClk = false ∧ p.framesPerMove.toNat < s.frameCount.toNat := by
  rw [MoveEdge, (frameBlock_count hs).1, decide_eq_true_iff]

/-- `frame_clk` leaves `blockYMotion` alone. -/
theorem frameStep_yMotion (s : State p) (seen : Fin 4 → Bool) :
    (frameStep s seen).blockYMotion = s.blockYMotion := by
  obtain ⟨-, hs⟩ | ⟨-, -, hs⟩ | ⟨-, -, hs⟩ := frameStep_cases s seen
  · rw [hs, frameBlock_eq]
  · rw [hs]
    rfl
  · rw [hs]
    rfl

/-- A piece that does not lock is above the floor where `move_clk` rises, and goes on by one row. -/
theorem row_frameStep {s : State p} (hm : s.blockYMotion = 1) {seen : Fin 4 → Bool}
    (hl : ¬Locks s seen) (i : Fin 4) :
    (MoveEdge s → (s.blockY i).toNat + 1 < p.boardHeight.toNat ∧
      ((frameStep s seen).blockY i).toNat = (s.blockY i).toNat + 1) ∧
      (¬MoveEdge s → ((frameStep s seen).blockY i).toNat = (s.blockY i).toNat) := by
  have hrow := (frameStep_cell s seen hl i).2.1
  have hbelow : (rowBelow s i).toNat = (s.blockY i).toNat + 1 := by
    have hbits := (s.blockY i).isLt
    unfold rowBelow
    rw [hm]
    bv_omega
  refine ⟨fun he => ?_, fun he => ?_⟩
  · rw [rowAfter, if_pos he, hbelow] at hrow
    refine ⟨?_, hrow⟩
    by_contra hlow
    refine hl ⟨he, i, .inr ?_⟩
    rw [BitVec.le_def, BitVec.toNat_setWidth_of_le (by decide), hbelow]
    omega
  · rwa [rowAfter, if_neg he] at hrow

/-- A whole frame does so where it begins with `move_clk` low and the count behind the parameter. -/
theorem row_frame {s : State p} (hs : s.reset = false) (hm : s.blockYMotion = 1) {f : Frame}
    (hl : ¬Locks (run next s f.others) f.seen) (i : Fin 4) :
    if s.moveClk = false ∧ p.framesPerMove.toNat < s.frameCount.toNat then
      (s.blockY i).toNat + 1 < p.boardHeight.toNat ∧
        ((frame s f).blockY i).toNat = (s.blockY i).toNat + 1
    else ((frame s f).blockY i).toNat = (s.blockY i).toNat := by
  obtain ⟨hreset, hclk, hcount⟩ := counting_run hs f.quiet
  obtain ⟨-, hrows, hmotion⟩ := others_cells hm f.quiet
  have hstep := row_frameStep hmotion hl i
  rw [moveEdge_iff hreset, hclk, hcount, hrows] at hstep
  split
  · rename_i he
    exact hstep.1 he
  · rename_i he
    exact hstep.2 he

/-! ## Landings -/

section Runs

variable {s : State p} (hs : s.reset = false) (hm : s.blockYMotion = 1) (frames : ℕ → Frame)

include hm in
theorem follow_yMotion (n : ℕ) : (follow frame s frames n).blockYMotion = 1 := by
  induction n with
  | zero => exact hm
  | succ n ih =>
    rw [follow_succ, frameStep_yMotion]
    exact (others_cells ih (frames n).quiet).2.2

/-- The frames that the piece still needs: the rows below it, and what is left of this row. -/
def framesLeft (p : Params) (row : BitVec 7) (count : BitVec 6) : ℕ :=
  (p.boardHeight.toNat - row.toNat) * (p.framesPerMove.toNat + 2) +
    (p.framesPerMove.toNat + 1 - count.toNat)

theorem framesLeft_lt (row : BitVec 7) (count : BitVec 6) :
    framesLeft p row count < (p.boardHeight.toNat + 1) * (p.framesPerMove.toNat + 2) := by
  have hrows : (p.boardHeight.toNat - row.toNat) * (p.framesPerMove.toNat + 2) ≤
      p.boardHeight.toNat * (p.framesPerMove.toNat + 2) :=
    Nat.mul_le_mul_right _ (Nat.sub_le _ _)
  unfold framesLeft
  rw [Nat.add_mul]
  omega

include hs in
/-- Behind the first frame a count that has passed the parameter finds `move_clk` low. -/
theorem moveClk_low (hfew : p.framesPerMove.toNat ≤ 62) {n : ℕ} (hn : 1 ≤ n)
    (hcount : p.framesPerMove.toNat < (follow frame s frames n).frameCount.toNat) :
    (follow frame s frames n).moveClk = false := by
  obtain ⟨n, rfl⟩ := Nat.exists_eq_add_of_le' hn
  have hdivides := divides_frames hs frames hfew
  rcases Nat.lt_or_ge p.framesPerMove.toNat (frameCounts s frames n) with hlt | hle
  · have hzero : (follow frame s frames (n + 1)).frameCount.toNat = 0 :=
      (hdivides.restart n hlt).1
    omega
  · exact (hdivides.advance n hle).2

include hs hm in
/-- A frame that does not end with a landing brings it nearer. -/
theorem framesLeft_succ (hfew : p.framesPerMove.toNat ≤ 62) {n : ℕ} (hn : 1 ≤ n)
    (hl : ¬LandsAt s frames n) :
    framesLeft p ((follow frame s frames (n + 1)).blockY 0)
        (follow frame s frames (n + 1)).frameCount <
      framesLeft p ((follow frame s frames n).blockY 0) (follow frame s frames n).frameCount := by
  have hreset := follow_reset hs frames n
  have hrow := row_frame hreset (follow_yMotion hm frames n) hl 0
  have hnext := (frame_count hreset (frames n)).2
  unfold framesLeft
  show (_ - ((frame (follow frame s frames n) (frames n)).blockY 0).toNat) * _ +
    (_ - (frame (follow frame s frames n) (frames n)).frameCount.toNat) < _
  rw [hnext]
  by_cases hpassed : p.framesPerMove.toNat < (follow frame s frames n).frameCount.toNat
  · rw [if_pos ⟨moveClk_low hs frames hfew hn hpassed, hpassed⟩] at hrow
    obtain ⟨hfloor, hrow⟩ := hrow
    rw [if_pos hpassed, hrow]
    obtain ⟨k, hk⟩ := Nat.exists_eq_add_of_lt hfloor
    have hbefore : p.boardHeight.toNat - ((follow frame s frames n).blockY 0).toNat = k + 2 := by
      omega
    have hafter : p.boardHeight.toNat - (((follow frame s frames n).blockY 0).toNat + 1) =
        k + 1 := by
      omega
    rw [hbefore, hafter, Nat.succ_mul (k + 1)]
    show _ + (_ - 0) < _
    omega
  · rw [if_neg fun he => hpassed he.2] at hrow
    have hbits : (follow frame s frames n).frameCount.toNat + 1 < 64 := by omega
    rw [if_neg hpassed, hrow, BitVec.toNat_add]
    show _ + (_ - (_ + 1) % 64) < _
    rw [Nat.mod_eq_of_lt hbits]
    omega

include hs hm in
theorem lands_within (hfew : p.framesPerMove.toNat ≤ 62) (n : ℕ) :
    ∃ k, n ≤ k ∧ k ≤ n + (p.boardHeight.toNat + 1) * (p.framesPerMove.toNat + 2) ∧
      LandsAt s frames k := by
  have hrank (n : ℕ) (hn : 1 ≤ n) (hl : ¬LandsAt s frames n) :=
    framesLeft_succ hs hm frames hfew hn hl
  -- the frames that are left go down behind the first frame
  obtain ⟨k, hk, hsoon, hlands⟩ :=
    within_of_rank (fun n => framesLeft p ((follow frame s frames n).blockY 0)
      (follow frame s frames n).frameCount) hrank (Nat.le_max_right n 1)
  have hfew := framesLeft_lt (p := p) ((follow frame s frames (max n 1)).blockY 0)
    (follow frame s frames (max n 1)).frameCount
  exact ⟨k, by omega, by omega, hlands⟩

end Runs

/-! ## The board -/

/-- No event takes a cell away. -/
theorem boardBit_next (s : State p) (e : Edge) {row col : ℕ}
    (h : boardBit s.board row col = true) : boardBit (next s e).board row col = true := by
  by_cases he : ∃ seen, e = .frameClk seen
  · obtain ⟨seen, rfl⟩ := he
    show boardBit (frameStep s seen).board row col = true
    obtain ⟨-, hs⟩ | ⟨-, -, hs⟩ | ⟨-, -, hs⟩ := frameStep_cases s seen
    · rw [hs, frameBlock_eq]
      exact h
    · rw [hs]
      exact (boardBit_lockPiece s _ row col).mpr (.inl h)
    · rw [hs]
      exact h
  · rw [(next_cells (s := s) fun seen h => he ⟨seen, h⟩).1]
    exact h

theorem boardBit_frame (s : State p) (f : Frame) {row col : ℕ}
    (h : boardBit s.board row col = true) : boardBit (frame s f).board row col = true :=
  boardBit_next _ (.frameClk f.seen) (run_invariant (fun s e => boardBit_next s e) h f.others)

/-- The cells that the board can hold. -/
def cells (board : Board p) (row : Fin (p.boardHeight.toNat + 1)) (col : Fin 16) : Bool :=
  boardBit board row col

theorem cells_injective : Function.Injective (cells (p := p)) := by
  intro b b' h
  ext row hrow col hcol
  have hbit := congrFun (congrFun h ⟨row, hrow⟩) ⟨col, hcol⟩
  simpa [cells, boardBit, hrow, BitVec.getLsbD_eq_getElem hcol] using hbit

theorem board_settles (s : State p) (frames : ℕ → Frame) :
    ∃ N, ∀ n, N ≤ n → (follow frame s frames n).board = (follow frame s frames N).board := by
  have hmono : Monotone fun n => cells (follow frame s frames n).board := by
    refine monotone_nat_of_le_succ fun n row col => ?_
    exact fun h => boardBit_frame _ (frames n) h
  obtain ⟨N, hN⟩ := WellFoundedGT.monotone_chain_condition ⟨_, hmono⟩
  exact ⟨N, fun n hn => (cells_injective (hN n hn)).symm⟩

/-- While `Reset` is low, and `Clk` has ticked once, there is no end of the game: from every frame
on a piece lands within the time it takes to fall past all rows, and from some frame on no landing
changes the board any more. -/
theorem no_game_over {s : State p} (hs : s.reset = false) (hm : s.blockYMotion = 1)
    (hfew : p.framesPerMove.toNat ≤ 62) (frames : ℕ → Frame) :
    (∀ n, ∃ k, n ≤ k ∧
      k ≤ n + (p.boardHeight.toNat + 1) * (p.framesPerMove.toNat + 2) ∧ LandsAt s frames k) ∧
    ∃ N, ∀ n, N ≤ n → (follow frame s frames n).board = (follow frame s frames N).board :=
  ⟨lands_within hs hm frames hfew, board_settles s frames⟩

theorem no_game_over_idle :
    ∃ k, 1 ≤ k ∧ k ≤ 1 + (18 + 1) * (13 + 2) ∧
      LandsAt (inputBlock (powerUp ({} : Params) false 0)) (fun _ => idleFrame) k :=
  (no_game_over (p := {}) (s := inputBlock (powerUp {} false 0)) rfl rfl (by decide)
    fun _ => idleFrame).1 1

end TetrisFpga.Game
