import TetrisFpga.Game.Logic

/-!
# The falling piece stays on the board

Every run with the default parameters in which `Clk` ticks between any two edges of
`frame_clk` keeps the piece within columns 0..11 and rows 0..17. The registered motion
was guarded by the columns at the last edge of `Clk`; `Fits` says that it is still good
for the present columns as long as no edge of `frame_clk` has used it (`fresh`).
-/

namespace TetrisFpga.Game
open Machine

/-- `Game_Logic` as instantiated without parameter overrides. -/
abbrev defaults : Params := {}

/-- Has `Clk` ticked since the last edge of `frame_clk`? -/
def watchClk (fresh : Bool) : Edge → Bool
  | .clk => true
  | .frameClk _ => false
  | _ => fresh

/-- An edge of `frame_clk` is allowed when `Clk` has ticked. -/
def ClkFirst (fresh : Bool) : Edge → Prop
  | .frameClk _ => fresh = true
  | _ => True

/-- At least one edge of `Clk` falls between any two consecutive edges of `frame_clk`. -/
def ClkBetweenFrames (edges : List Edge) : Prop := Along watchClk ClkFirst true edges

/-- The motion register moves no column over the edge of the board. -/
def MotionFits (s : State defaults) : Prop :=
  s.blockXMotion = 0 ∨ (s.blockXMotion = -1 ∧ ∀ i, 0 < s.blockX i) ∨
    (s.blockXMotion = 1 ∧ ∀ i, s.blockX i < defaults.boardWidth)

/-- The run invariant, with `fresh` the monitor's flag. -/
structure Fits (fresh : Bool) (s : State defaults) : Prop where
  columns : ∀ i, s.blockX i ≤ 11
  rows : ∀ i, s.blockY i ≤ 17
  yMotion : s.blockYMotion ≤ 1
  count : s.pieceCount ≤ 2
  motion : fresh = true → MotionFits s
  cells : ∀ row col, boardBit s.board row col = true → row ≤ 17 ∧ col ≤ 11

theorem fits_powerUp (reset : Bool) (keycode : BitVec 8) :
    Fits true (powerUp defaults reset keycode) where
  columns := fun _ => Nat.zero_le _
  rows := fun _ => Nat.zero_le _
  yMotion := Nat.zero_le _
  count := Nat.zero_le _
  motion := fun _ => .inl rfl
  cells := fun row col hb =>
    absurd (hb.symm.trans (boardBit_replicate row col)) (by decide)

theorem rowBelow_toNat {s : State defaults} (hr : ∀ i, s.blockY i ≤ 17)
    (hm : s.blockYMotion ≤ 1) (i : Fin 4) :
    (rowBelow s i).toNat = (s.blockY i).toNat + s.blockYMotion.toNat := by
  have h1 := hr i
  unfold rowBelow
  bv_omega

/-- `Input_Block` makes the motion fit the columns it has just looked at. -/
theorem motionFits_inputBlock (s : State defaults) : MotionFits (inputBlock s) := by
  unfold MotionFits inputBlock
  dsimp only
  split_ifs with ha hl hd hr
  · exact .inr (.inl ⟨rfl, hl⟩)
  · exact .inl rfl
  · exact .inr (.inr ⟨rfl, hr⟩)
  · exact .inl rfl
  · exact .inl rfl

theorem Fits.inputBlock {fresh : Bool} {s : State defaults} (h : Fits fresh s) (fresh' : Bool) :
    Fits fresh' (inputBlock s) where
  columns := h.columns
  rows := h.rows
  yMotion := BitVec.le_refl _
  count := h.count
  motion := fun _ => motionFits_inputBlock s
  cells := h.cells

theorem Fits.frameBlock {fresh : Bool} {s : State defaults} (h : Fits fresh s) :
    Fits fresh (frameBlock s) := by
  rw [frameBlock_eq]
  exact ⟨h.columns, h.rows, h.yMotion, h.count, h.motion, h.cells⟩

/-- A fresh motion takes every column to a column of the board. -/
theorem Fits.moveX_columns {s : State defaults} (h : Fits true s) (i : Fin 4) :
    (moveXBlock s).blockX i ≤ 11 := by
  have hc := h.columns i
  rw [moveXBlock_blockX]
  rcases h.motion rfl with hm | ⟨hm, hg⟩ | ⟨hm, hg⟩
  · rw [hm]
    bv_omega
  · have hi := hg i
    rw [hm]
    bv_omega
  · have hi : s.blockX i < 11 := hg i
    rw [hm]
    bv_omega

theorem Fits.seen_columns {s : State defaults} (h : Fits true s) (seen : Fin 4 → Bool)
    (i : Fin 4) : seenColumns s seen i ≤ 11 := by
  unfold seenColumns
  split
  · exact h.moveX_columns i
  · exact h.columns i

theorem pieceY_le (k : ℕ) (i : Fin 4) : (pieceY k i).setWidth 7 ≤ 17 := by
  have := (pieceY k i).isLt
  bv_omega

/-- Locking keeps the new cells, the next rows and the count in range. -/
theorem Fits.lockPiece {s : State defaults} (h : Fits true s) (cols : Fin 4 → BitVec 6)
    (hcols : ∀ i, cols i ≤ 11) : Fits false (lockPiece s cols) where
  columns := h.columns
  rows := fun i => pieceY_le s.pieceCount.toNat i
  yMotion := h.yMotion
  count := by
    have hc := h.count
    simp only [TetrisFpga.Game.lockPiece]
    split <;> bv_omega
  motion := by simp
  cells := by
    intro row col hb
    rcases (boardBit_lockPiece s cols row col).mp hb with hb | ⟨i, hrow, hcol, -, -⟩
    · exact h.cells row col hb
    · have hr := h.rows i
      have hc := hcols i
      constructor <;> bv_omega

/-- A piece that does not collide has, at the row below, still a row of the board. -/
theorem Fits.fall {s : State defaults} (h : Fits true s) (cols : Fin 4 → BitVec 6)
    (hfree : ¬Collides s cols) : Fits false (fall s) where
  columns := h.columns
  rows := by
    intro i
    have hb : ¬(18 : BitVec 8) ≤ rowBelow s i := fun hb => hfree ⟨i, .inr hb⟩
    change (rowBelow s i).setWidth 7 ≤ 17
    bv_omega
  yMotion := h.yMotion
  count := h.count
  motion := by simp
  cells := h.cells

theorem Fits.frameStep {s : State defaults} (h : Fits true s) (seen : Fin 4 → Bool) :
    Fits false (frameStep s seen) := by
  have hx := h.moveX_columns
  rcases frameStep_cases s seen with ⟨-, hs⟩ | ⟨-, -, hs⟩ | ⟨-, hfree, hs⟩
  · have hf := h.frameBlock
    rw [hs]
    exact ⟨hx, hf.rows, hf.yMotion, hf.count, by simp, hf.cells⟩
  · have hl := h.lockPiece _ (h.seen_columns seen)
    rw [hs]
    exact ⟨hx, hl.rows, hl.yMotion, hl.count, by simp, hl.cells⟩
  · have hl := h.fall _ hfree
    rw [hs]
    exact ⟨hx, hl.rows, hl.yMotion, hl.count, by simp, hl.cells⟩

theorem Fits.next {fresh : Bool} {s : State defaults} (e : Edge) (h : Fits fresh s)
    (hg : ClkFirst fresh e) : Fits (watchClk fresh e) (next s e) := by
  cases e with
  | clk => exact h.inputBlock _
  | frameClk seen =>
    change fresh = true at hg
    subst hg
    exact h.frameStep seen
  | reset level =>
    have hl : Fits fresh { s with reset := level } :=
      ⟨h.columns, h.rows, h.yMotion, h.count, h.motion, h.cells⟩
    simp only [TetrisFpga.Game.next]
    split
    · exact hl.frameBlock.inputBlock _
    · exact hl
  | keycode code => exact ⟨h.columns, h.rows, h.yMotion, h.count, h.motion, h.cells⟩

theorem fits_run {reset : Bool} {keycode : BitVec 8} {edges : List Edge}
    (h : ClkBetweenFrames edges) :
    Fits (run watchClk true edges) (run next (powerUp defaults reset keycode) edges) :=
  Along.invariant (fun _ _ e hi hg => hi.next e hg) (fits_powerUp reset keycode) h

/-- The columns and rows of the piece, the rows that the collision test and the lock index
and the cells that are set all lie on the board. -/
structure OnBoard (s : State defaults) : Prop where
  columns : ∀ i, s.blockX i ≤ defaults.boardWidth
  rows : ∀ i, s.blockY i ≤ defaults.boardHeight - 1
  count : s.pieceCount = 0 ∨ s.pieceCount = 1 ∨ s.pieceCount = 2
  testRows : ∀ i, (rowBelow s i).toNat ≤ defaults.boardHeight.toNat
  lockRows : ∀ i, (s.blockY i).toNat ≤ defaults.boardHeight.toNat
  cells : ∀ row col, boardBit s.board row col = true → row ≤ 17 ∧ col ≤ 11

theorem Fits.onBoard {fresh : Bool} {s : State defaults} (h : Fits fresh s) : OnBoard s where
  columns := h.columns
  rows := h.rows
  count := by
    have := h.count
    bv_omega
  testRows := by
    intro i
    have hr := h.rows i
    have hm := h.yMotion
    rw [rowBelow_toNat h.rows h.yMotion]
    change _ ≤ 18
    bv_omega
  lockRows := by
    intro i
    have hr := h.rows i
    change _ ≤ 18
    bv_omega
  cells := h.cells

/-- Every state reached with `Clk` ticking between the frames is on the board. -/
theorem onBoard_run (reset : Bool) (keycode : BitVec 8) (edges : List Edge)
    (h : ClkBetweenFrames edges) : OnBoard (run next (powerUp defaults reset keycode) edges) :=
  (fits_run h).onBoard

theorem onBoard_run_two_frames :
    OnBoard (run next (powerUp defaults false 0x07)
      [.frameClk fun _ => false, .clk, .frameClk fun _ => true]) :=
  onBoard_run false 0x07 _ ⟨rfl, trivial, rfl, trivial⟩

end TetrisFpga.Game
