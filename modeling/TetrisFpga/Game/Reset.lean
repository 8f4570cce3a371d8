import TetrisFpga.Game.Overlap

/-!
# What `Reset` and a spawn leave undone

`MoveX_Block` overwrites the columns its `Reset` branch assigns, and no spawn assigns
columns at all: from power-up the four columns stay equal. `MoveY_Block` is clocked by
`move_clk`, which does not rise while `Reset` is high, so its `Reset` branch never runs.
Hence no reachable piece has the shape of an entry of `Pieces`, and a held `Reset` leaves
the rows, the board, the count and the colour of the game it should erase.
-/

namespace TetrisFpga.Game
open Machine

variable {p : Params}

/-! ## The columns -/

/-- The four columns hold one value. -/
def OneColumn (s : State p) : Prop := ∀ i, s.blockX i = s.blockX 0

theorem frameStep_blockX (s : State p) (seen : Fin 4 → Bool) :
    (frameStep s seen).blockX = (moveXBlock s).blockX := by
  rw [frameStep_eq]

theorem OneColumn.next {s : State p} (h : OneColumn s) (e : Edge) : OneColumn (next s e) := by
  by_cases he : ∃ seen, e = .frameClk seen
  · obtain ⟨seen, rfl⟩ := he
    intro i
    change (frameStep s seen).blockX i = (frameStep s seen).blockX 0
    rw [frameStep_blockX, moveXBlock_blockX, moveXBlock_blockX, h i]
  · obtain ⟨-, -, hx⟩ := next_cells (s := s) fun seen h => he ⟨seen, h⟩
    intro i
    rw [hx]
    exact h i

theorem oneColumn_run (reset : Bool) (keycode : BitVec 8) (edges : List Edge) :
    OneColumn (run next (powerUp p reset keycode) edges) :=
  run_invariant (fun _ e h => h.next e) (fun _ => rfl) edges

/-- The four cells are those of piece `k` moved to the origin `(ox, oy)`. -/
def HasShape (s : State p) (k : Fin 3) (ox oy : ℤ) : Prop :=
  ∀ i, ((s.blockX i).toNat : ℤ) = ox + (pieceX k i).toNat ∧
    ((s.blockY i).toNat : ℤ) = oy + (pieceY k i).toNat

/-- Every piece has two blocks in different columns. -/
theorem pieceX_differ (k : Fin 3) : ∃ i, pieceX k i ≠ pieceX k 0 := by
  revert k
  decide

theorem OneColumn.not_hasShape {s : State p} (h : OneColumn s) (k : Fin 3) (ox oy : ℤ) :
    ¬HasShape s k ox oy := by
  intro hs
  obtain ⟨i, hi⟩ := pieceX_differ k
  have h0 := (hs 0).1
  have hx := (hs i).1
  rw [h i] at hx
  apply hi
  apply BitVec.eq_of_toNat_eq
  omega

/-- In no state of any run is the falling piece a piece: its four blocks stand in one
column, whatever keys, locks and resets came before. -/
theorem not_hasShape_run (reset : Bool) (keycode : BitVec 8) (edges : List Edge) :
    ¬∃ k ox oy, HasShape (run next (powerUp p reset keycode) edges) k ox oy := by
  rintro ⟨k, ox, oy, hs⟩
  exact (oneColumn_run reset keycode edges).not_hasShape k ox oy hs

/-- After the first lock the piece with rows 0, 1, 1, 2 stands in column 0 alone. -/
theorem spawned_without_columns :
    let s := run next (powerUp defaults false 0) (frames 270)
    (∀ i, s.blockX i = 0) ∧ (∀ i, s.blockY i = (pieceY 0 i).setWidth 7) ∧
      ¬∃ k ox oy, HasShape s k ox oy := by
  refine ⟨by decide +kernel, by decide +kernel, ?_⟩
  rintro ⟨k, ox, oy, hs⟩
  exact (oneColumn_run false 0 (frames 270)).not_hasShape k ox oy hs

/-! ## Held reset -/

/-- The state the `Reset` branches of the four blocks describe. -/
structure ResetState (s : State p) : Prop where
  columns : ∀ i, s.blockX i = (pieceX 0 i).setWidth 6 + (p.boardWidth >>> 1)
  rows : ∀ i, s.blockY i = (pieceY 0 i).setWidth 7
  board : s.board = Vector.replicate _ 0
  count : s.pieceCount = 0
  color : s.color = 1
  frameCount : s.frameCount = 0

theorem OneColumn.not_resetState {s : State p} (h : OneColumn s) : ¬ResetState s := by
  intro hr
  have h0 := hr.columns 0
  have h2 := hr.columns 2
  have heq := h2.symm.trans ((h 2).trans h0)
  have hne : (pieceX 0 2).setWidth 6 ≠ (pieceX 0 0).setWidth 6 := by decide
  apply hne
  bv_omega

/-- `Reset` stays high: no event of the run lowers it. -/
def StaysHigh : Edge → Prop
  | .reset level => level = true
  | _ => True

/-- What the `Reset` branch of `MoveY_Block` was meant to clear. -/
def game (s : State p) : Board p × (Fin 4 → BitVec 7) × BitVec 3 × BitVec 4 :=
  (s.board, s.blockY, s.pieceCount, s.color)

theorem game_frameBlock (s : State p) : game (frameBlock s) = game s := by
  rw [frameBlock_eq]
  rfl

theorem game_next_of_high {s : State p} {e : Edge} (hs : s.reset = true)
    (he : StaysHigh e) : (next s e).reset = true ∧ game (next s e) = game s := by
  cases e with
  | clk => exact ⟨hs, rfl⟩
  | frameClk seen =>
    have hm : ¬MoveEdge s := fun hm => absurd hs (by simp [hm.reset_low])
    have hstep : next s (.frameClk seen) =
        { frameBlock s with blockX := (moveXBlock s).blockX } := if_neg hm
    rw [hstep]
    refine ⟨?_, game_frameBlock s⟩
    rw [frameBlock_eq]
    exact hs
  | reset level =>
    change level = true at he
    subst he
    simp [next, hs, game]
  | keycode code => exact ⟨hs, rfl⟩

/-- While `Reset` is held the game stands still, whatever it was. -/
theorem game_run_of_high {s : State p} {hold : List Edge} (hs : s.reset = true)
    (hg : ∀ e ∈ hold, StaysHigh e) : game (run next s hold) = game s := by
  induction hold generalizing s with
  | nil => rfl
  | cons e es ih =>
    obtain ⟨hr, he⟩ := game_next_of_high hs (hg e (by simp))
    exact (ih hr fun e' he' => hg e' (by simp [he'])).trans he

/-- The state after the history `before` and a `Reset` held through `hold`. -/
def afterReset (p : Params) (reset : Bool) (keycode : BitVec 8) (before hold : List Edge) :
    State p :=
  run next (powerUp p reset keycode) (before ++ .reset true :: hold)

theorem game_afterReset (reset : Bool) (keycode : BitVec 8) (before hold : List Edge)
    (hg : ∀ e ∈ hold, StaysHigh e) :
    game (afterReset p reset keycode before hold) =
      game (run next (powerUp p reset keycode) before) := by
  let s := run next (powerUp p reset keycode) before
  have hraise : (next s (.reset true)).reset = true ∧ game (next s (.reset true)) = game s := by
    simp only [next]
    split
    · rw [frameBlock_eq]
      exact ⟨rfl, rfl⟩
    · exact ⟨rfl, rfl⟩
  rw [afterReset, run_append, run_cons, game_run_of_high hraise.1 hg]
  exact hraise.2

/-- However long `Reset` is held, two copies never end together in the state the `Reset`
branches describe: each keeps the game of its own history. -/
theorem reset_keeps_history (reset : Bool) (keycode : BitVec 8) (before₁ before₂ hold : List Edge)
    (hg : ∀ e ∈ hold, StaysHigh e) :
    let s₁ : State p := afterReset p reset keycode before₁ hold
    let s₂ : State p := afterReset p reset keycode before₂ hold
    ¬(s₁ = s₂ ∧ ResetState s₁) ∧
      game s₁ = game (run next (powerUp p reset keycode) before₁) ∧
      game s₂ = game (run next (powerUp p reset keycode) before₂) :=
  ⟨fun h => (oneColumn_run reset keycode _).not_resetState h.2,
    game_afterReset reset keycode before₁ hold hg, game_afterReset reset keycode before₂ hold hg⟩

theorem staysHigh_frames (n : ℕ) : ∀ e ∈ frames n, StaysHigh e := by
  intro e he
  simp only [frames, List.mem_flatten, List.mem_replicate] at he
  obtain ⟨es, ⟨-, rfl⟩, he⟩ := he
  simp only [List.mem_cons, List.not_mem_nil, or_false] at he
  rcases he with rfl | rfl <;> trivial

theorem reset_keeps_history_frames :
    game (afterReset defaults false 0 (frames 15) (frames 16)) =
      game (run next (powerUp defaults false 0) (frames 15)) :=
  (reset_keeps_history false 0 (frames 15) [] (frames 16) (staysHigh_frames 16)).2.1

/-- `Reset` held over 16 frames after one fall and after none: the piece is still one row
lower in the first copy, and neither copy has the columns of the first piece. -/
theorem reset_remembers_fall :
    let s₁ : State defaults := afterReset defaults false 0 (frames 15) (frames 16)
    let s₂ : State defaults := afterReset defaults false 0 [] (frames 16)
    s₁ ≠ s₂ ∧ ¬ResetState s₁ ∧ ¬ResetState s₂ := by
  have hy : (afterReset defaults false 0 (frames 15) (frames 16)).blockY 0 ≠
      (afterReset defaults false 0 [] (frames 16)).blockY 0 := by decide +kernel
  exact ⟨fun h => hy (congrFun (congrArg State.blockY h) 0),
    (oneColumn_run false 0 _).not_resetState, (oneColumn_run false 0 _).not_resetState⟩

end TetrisFpga.Game
