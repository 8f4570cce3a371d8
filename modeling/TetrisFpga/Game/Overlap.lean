import TetrisFpga.Game.Bounds

/-!
# The falling piece and the cells already set

`MoveY_Block` tests the board before it lets the piece fall; `MoveX_Block` applies the
registered motion without a test of its own. As long as no sideways step goes untested, the piece
stays off the set cells.
-/

namespace TetrisFpga.Game
open Machine

variable {p : Params}

/-- None of the four falling cells is set in the board. -/
def NoOverlap (s : State p) : Prop :=
  ∀ i, boardBit s.board (s.blockY i).toNat (s.blockX i).toNat = false

instance (s : State p) : Decidable (NoOverlap s) := inferInstanceAs (Decidable (∀ _, _))

/-- The coming edge of `frame_clk` locks the piece and spawns the next one. -/
def Locks (s : State p) (seen : Fin 4 → Bool) : Prop :=
  MoveEdge s ∧ Collides s (seenColumns s seen)

instance (s : State p) (seen : Fin 4 → Bool) : Decidable (Locks s seen) :=
  inferInstanceAs (Decidable (_ ∧ _))

/-- The row of block `i` after a step that does not lock. -/
def rowAfter (s : State p) (i : Fin 4) : ℕ :=
  if MoveEdge s then (rowBelow s i).toNat else (s.blockY i).toNat

/-- The sideways step is tested for every block: none is registered, or `MoveY_Block` makes its
test in this very step and sees the shifted column. -/
def SideTested (s : State p) (seen : Fin 4 → Bool) : Prop :=
  ∀ i, s.blockXMotion = 0 ∨ (MoveEdge s ∧ seen i = true)

instance (s : State p) (seen : Fin 4 → Bool) : Decidable (SideTested s seen) :=
  inferInstanceAs (Decidable (∀ _, _ ∨ (_ ∧ _)))

/-- A step that does not lock leaves the board alone and takes block `i` to row `rowAfter`
and to the shifted column. -/
theorem frameStep_cell (s : State p) (seen : Fin 4 → Bool) (hl : ¬Locks s seen) (i : Fin 4) :
    (frameStep s seen).board = s.board ∧
      ((frameStep s seen).blockY i).toNat = rowAfter s i ∧
      (frameStep s seen).blockX i = s.blockX i + s.blockXMotion.setWidth 6 := by
  rcases frameStep_cases s seen with ⟨hm, hs⟩ | ⟨hm, hc, -⟩ | ⟨hm, hfree, hs⟩
  · rw [hs, frameBlock_eq, rowAfter, if_neg hm]
    exact ⟨rfl, rfl, moveXBlock_blockX s i⟩
  · exact absurd ⟨hm, hc⟩ hl
  · have hb : ¬p.boardHeight.setWidth 8 ≤ rowBelow s i := fun hb => hfree ⟨i, .inr hb⟩
    rw [hs, rowAfter, if_pos hm]
    refine ⟨rfl, ?_, moveXBlock_blockX s i⟩
    change ((rowBelow s i).setWidth 7).toNat = _
    bv_omega

/-- The cell straight below, in the column `MoveY_Block` sees, is free when the piece
falls; without an edge of `move_clk` the piece still stands on its own free cells. -/
theorem seen_cell_free (s : State p) (seen : Fin 4 → Bool) (hfree : NoOverlap s)
    (hl : ¬Locks s seen) (i : Fin 4) :
    boardBit s.board (rowAfter s i)
      (if MoveEdge s then seenColumns s seen i else s.blockX i).toNat = false := by
  by_cases hm : MoveEdge s
  · rw [rowAfter, if_pos hm, if_pos hm]
    by_contra hb
    exact hl ⟨hm, i, .inl (by simpa using hb)⟩
  · rw [rowAfter, if_neg hm, if_neg hm]
    exact hfree i

/-- A step that does not lock and is tested keeps the piece on free cells, whatever the board. -/
theorem NoOverlap.frameStep {s : State p} {seen : Fin 4 → Bool} (hfree : NoOverlap s)
    (hl : ¬Locks s seen) (htested : SideTested s seen) : NoOverlap (frameStep s seen) := by
  intro i
  obtain ⟨hboard, hrow, hcol⟩ := frameStep_cell s seen hl i
  have hseen := seen_cell_free s seen hfree hl i
  rw [hboard, hrow, hcol]
  obtain hstill | ⟨hm, hi⟩ := htested i
  · have hstay : s.blockX i + s.blockXMotion.setWidth 6 = s.blockX i := by simp [hstill]
    have hx : (if MoveEdge s then seenColumns s seen i else s.blockX i) = s.blockX i := by
      simp [seenColumns, hstay]
    rw [hx] at hseen
    rw [hstay]
    exact hseen
  -- the column that the test has seen is the one the block is moved to
  · rwa [if_pos hm, seenColumns, if_pos hi, moveXBlock_blockX] at hseen

/-- Edges other than those of `frame_clk` move no block and set no cell. -/
theorem next_cells {s : State p} {e : Edge} (h : ∀ seen, e ≠ .frameClk seen) :
    (next s e).board = s.board ∧ (next s e).blockY = s.blockY ∧
      (next s e).blockX = s.blockX := by
  cases e with
  | clk => exact ⟨rfl, rfl, rfl⟩
  | frameClk seen => exact absurd rfl (h seen)
  | reset level =>
    simp only [next]
    split
    · rw [frameBlock_eq]
      exact ⟨rfl, rfl, rfl⟩
    · exact ⟨rfl, rfl, rfl⟩
  | keycode code => exact ⟨rfl, rfl, rfl⟩

/-- The guard of a run between two spawns: no edge of `frame_clk` locks the piece, and the
sideways step of each is tested. -/
def TestedStep (s : State p) : Edge → Prop
  | .frameClk seen => ¬Locks s seen ∧ SideTested s seen
  | _ => True

instance (s : State p) : ∀ e, Decidable (TestedStep s e)
  | .frameClk _ => inferInstanceAs (Decidable (_ ∧ _))
  | .clk | .reset _ | .keycode _ => .isTrue trivial

theorem NoOverlap.next {s : State p} {e : Edge} (h : NoOverlap s) (hg : TestedStep s e) :
    NoOverlap (next s e) := by
  by_cases he : ∃ seen, e = .frameClk seen
  · obtain ⟨seen, rfl⟩ := he
    exact h.frameStep hg.1 hg.2
  · obtain ⟨hb, hy, hx⟩ := next_cells (s := s) fun seen h => he ⟨seen, h⟩
    intro i
    rw [hb, hy, hx]
    exact h i

/-- From any state with a free piece, and over any stack, a run whose sideways steps are all tested
keeps the piece on free cells until it locks. -/
theorem noOverlap_of_sideTested (s : State p) (h : NoOverlap s) (edges : List Edge)
    (hg : Along next TestedStep s edges) : NoOverlap (run next s edges) :=
  Along.invariant_self (fun _ _ hi hge => hi.next hge) h hg

/-- `n` frames with one edge of `Clk` each. -/
def frames (n : ℕ) : List Edge :=
  (List.replicate n [Edge.clk, .frameClk fun _ => false]).flatten

/-- A step to the right that is registered when the piece falls, in a frame in which the test sees
the new columns. -/
theorem noOverlap_of_sideTested_step :
    NoOverlap (run next (powerUp defaults false 0)
      (frames 14 ++ [.keycode 0x07, .clk, .frameClk fun _ => true, .keycode 0x00] ++ frames 5)) :=
  noOverlap_of_sideTested (powerUp defaults false 0) (by decide) _ (by decide +kernel)

/-- The first piece lands in column 0; the second one steps to column 1, falls to the
bottom and is then asked to step back. -/
def besideTheStack : List Edge :=
  frames 270 ++ [.keycode 0x07, .clk, .frameClk fun _ => false, .keycode 0x00] ++ frames 224 ++
    [.keycode 0x04, .clk]

/-- The piece stands free beside the landed one, and the next edge of `frame_clk`, which
does not lock it, moves it into the set cell. -/
theorem sideways_into_stack :
    NoOverlap (run next (powerUp defaults false 0) besideTheStack) ∧
      ¬Locks (run next (powerUp defaults false 0) besideTheStack) (fun _ => false) ∧
      ¬NoOverlap (next (run next (powerUp defaults false 0) besideTheStack)
        (.frameClk fun _ => false)) := by
  decide +kernel

end TetrisFpga.Game
