import TetrisFpga.Game.Fall
import TetrisFpga.Game.Reset
import TetrisFpga.Machine.History

/-!
# The stack

The board as the history of the pieces that were locked. No event takes a cell away, so the set
cells are those of the locked pieces; a piece locks where it stands on the floor or on one of the
pieces before it; and the pieces come in the order of `Pieces`, behind a first one that has never
been loaded.

## Main results

- `stacked_run`: the board and the history of every run
-/

namespace TetrisFpga.Game
open Machine

/-! ## Histories of pieces -/

/-- The rows and the columns of the four blocks of a locked piece. -/
structure Landed where
  row : Fin 4 → ℕ
  col : Fin 4 → ℕ

/-- The cell belongs to one of the pieces. -/
def Covered (log : List Landed) (row col : ℕ) : Prop :=
  ∃ l ∈ log, ∃ i, row = l.row i ∧ col = l.col i

theorem covered_nil (row col : ℕ) : ¬Covered [] row col := by
  simp [Covered]

theorem covered_cons (l : Landed) (log : List Landed) (row col : ℕ) :
    Covered (l :: log) row col ↔ (∃ i, row = l.row i ∧ col = l.col i) ∨ Covered log row col := by
  simp [Covered]

/-- The rows of the piece that falls when `n` pieces were locked, against its origin. -/
def profile : ℕ → Fin 4 → ℕ
  | 0, _ => 0
  | n + 1, i => (pieceY (n % 3) i).toNat

/-- A piece on a board of `height` rows, and the pieces that were locked before it. -/
structure Lands (height : ℕ) (l : Landed) (earlier : List Landed) : Prop where
  rests : ∃ i, Covered earlier (l.row i + 1) (l.col i) ∨ height ≤ l.row i + 1
  shape : ∃ y, ∀ i, l.row i = y + profile earlier.length i
  columns : ∃ x x' : BitVec 6, (x' = x ∨ x' = x + 1 ∨ x' = x - 1) ∧
    ∀ i, l.col i = x.toNat ∨ l.col i = x'.toNat

/-! ## The history of a run -/

variable {p : Params}

/-- The piece that an event locks. -/
def landed (s : State p) : Edge → Option Landed
  | .frameClk seen =>
    if Locks s seen then
      some ⟨fun i => (s.blockY i).toNat, fun i => (seenColumns s seen i).toNat⟩
    else none
  | _ => none

/-- The module, and the pieces that it has locked, the newest first. -/
def logged (x : State p × List Landed) (e : Edge) : State p × List Landed :=
  (next x.1 e, (landed x.1 e).toList ++ x.2)

theorem run_logged (x : State p × List Landed) (edges : List Edge) :
    (run logged x edges).1 = run next x.1 edges := by
  induction edges generalizing x with
  | nil => rfl
  | cons e es ih => exact ih (logged x e)

/-- The registers, after the pieces of the log were locked. Before the first edge of `Clk` the
piece does not fall, and nothing can have been locked. -/
structure Stacked (s : State p) (log : List Landed) : Prop where
  lands : History.Always (Lands p.boardHeight.toNat) log
  board : ∀ row col, boardBit s.board row col = true ↔
    Covered log row col ∧ row < p.boardHeight.toNat + 1 ∧ col < 16
  yMotion : s.blockYMotion = 1 ∨ s.blockYMotion = 0 ∧ log = [] ∧ ∀ i, s.blockY i = 0
  xMotion : s.blockXMotion = 0 ∨ s.blockXMotion = 1 ∨ s.blockXMotion = -1
  oneColumn : OneColumn s
  rows : ∃ y, ∀ i, (s.blockY i).toNat = y + profile log.length i
  count : s.pieceCount.toNat = log.length % 3
  color : s.color = BitVec.ofNat 4 log.length

theorem stacked_powerUp (reset : Bool) (keycode : BitVec 8) :
    Stacked (powerUp p reset keycode) [] where
  lands := trivial
  board row col := by
    show boardBit (Vector.replicate _ 0) row col = true ↔ _
    rw [boardBit_replicate]
    simp [covered_nil]
  yMotion := .inr ⟨rfl, rfl, fun _ => rfl⟩
  xMotion := .inl rfl
  oneColumn _ := rfl
  rows := ⟨0, fun _ => rfl⟩
  count := rfl
  color := rfl

theorem Stacked.inputBlock {s : State p} {log : List Landed} (h : Stacked s log) :
    Stacked (inputBlock s) log where
  lands := h.lands
  board := h.board
  yMotion := .inl rfl
  xMotion := by
    unfold TetrisFpga.Game.inputBlock
    dsimp only
    split_ifs <;> simp
  oneColumn := h.oneColumn
  rows := h.rows
  count := h.count
  color := h.color

theorem Stacked.frameBlock {s : State p} {log : List Landed} (h : Stacked s log) :
    Stacked (frameBlock s) log := by
  rw [frameBlock_eq]
  exact ⟨h.lands, h.board, h.yMotion, h.xMotion, h.oneColumn, h.rows, h.count, h.color⟩

/-- The sum of `MoveY_Block` does not wrap. -/
theorem rowBelow_eq {s : State p} (h : s.blockYMotion = 1) (i : Fin 4) :
    (rowBelow s i).toNat = (s.blockY i).toNat + 1 := by
  have hbits := (s.blockY i).isLt
  unfold rowBelow
  rw [h]
  bv_omega

theorem heightLe_iff {s : State p} (i : Fin 4) :
    p.boardHeight.setWidth 8 ≤ rowBelow s i ↔ p.boardHeight.toNat ≤ (rowBelow s i).toNat := by
  rw [BitVec.le_def, BitVec.toNat_setWidth_of_le (by decide)]

/-- Where nothing has been locked, a piece that does not fall does not lock either. -/
theorem Stacked.yMotion_of_collides {s : State p} {log : List Landed} (h : Stacked s log)
    (hp : 0 < p.boardHeight.toNat) {cols : Fin 4 → BitVec 6} (hc : Collides s cols) :
    s.blockYMotion = 1 := by
  obtain hm | ⟨hm, rfl, hy⟩ := h.yMotion
  · exact hm
  · have hrow (i : Fin 4) : (rowBelow s i).toNat = 0 := by
      rw [rowBelow, hm, hy]
      rfl
    obtain ⟨i, hi | hi⟩ := hc
    · exact absurd ((h.board _ _).mp hi).1 (covered_nil _ _)
    · rw [heightLe_iff, hrow] at hi
      omega

/-- The columns that `MoveY_Block` sees are those of before or those of behind the step. -/
theorem Stacked.seen_columns {s : State p} {log : List Landed} (h : Stacked s log)
    (seen : Fin 4 → Bool) : ∃ x x' : BitVec 6, (x' = x ∨ x' = x + 1 ∨ x' = x - 1) ∧
      ∀ i, (seenColumns s seen i).toNat = x.toNat ∨ (seenColumns s seen i).toNat = x'.toNat := by
  refine ⟨s.blockX 0, s.blockX 0 + s.blockXMotion.setWidth 6, ?_, fun i => ?_⟩
  · obtain hm | hm | hm := h.xMotion
    · exact .inl (by simp [hm])
    · exact .inr (.inl (by simp [hm]))
    · refine .inr (.inr ?_)
      rw [hm]
      bv_omega
  · unfold seenColumns
    split
    · rw [moveXBlock_blockX, h.oneColumn i]
      exact .inr rfl
    · rw [h.oneColumn i]
      exact .inl rfl

/-- The piece that is locked lands. -/
theorem Stacked.lands_lock {s : State p} {log : List Landed} (h : Stacked s log)
    (hp : 0 < p.boardHeight.toNat) {seen : Fin 4 → Bool}
    (hc : Collides s (seenColumns s seen)) :
    Lands p.boardHeight.toNat
      ⟨fun i => (s.blockY i).toNat, fun i => (seenColumns s seen i).toNat⟩ log where
  rests := by
    have hm := h.yMotion_of_collides hp hc
    obtain ⟨i, hi | hi⟩ := hc
    · refine ⟨i, .inl ?_⟩
      rw [rowBelow_eq hm] at hi
      exact ((h.board _ _).mp hi).1
    · refine ⟨i, .inr ?_⟩
      rwa [heightLe_iff, rowBelow_eq hm] at hi
  shape := h.rows
  columns := h.seen_columns seen

/-- The next piece of the queue is loaded. -/
theorem Stacked.lockPiece {s : State p} {log : List Landed} (h : Stacked s log)
    (hp : 0 < p.boardHeight.toNat) {seen : Fin 4 → Bool}
    (hc : Collides s (seenColumns s seen)) :
    Stacked (lockPiece s (seenColumns s seen))
      (⟨fun i => (s.blockY i).toNat, fun i => (seenColumns s seen i).toNat⟩ :: log) where
  lands := ⟨h.lands_lock hp hc, h.lands⟩
  board row col := by
    rw [boardBit_lockPiece, h.board, covered_cons]
    -- a cell is covered by an earlier piece or by the one that locks
    constructor
    · rintro (⟨hcov, hin⟩ | ⟨i, rfl, rfl, hrow, hcol⟩)
      · exact ⟨.inr hcov, hin⟩
      · exact ⟨.inl ⟨i, rfl, rfl⟩, hrow, hcol⟩
    · rintro ⟨⟨i, rfl, rfl⟩ | hcov, hrow, hcol⟩
      · exact .inr ⟨i, rfl, rfl, hrow, hcol⟩
      · exact .inl ⟨hcov, hrow, hcol⟩
  yMotion := .inl (h.yMotion_of_collides hp hc)
  xMotion := h.xMotion
  oneColumn := h.oneColumn
  rows := by
    refine ⟨0, fun i => ?_⟩
    have hbits := (pieceY s.pieceCount.toNat i).isLt
    show ((pieceY s.pieceCount.toNat i).setWidth 7).toNat = 0 + (pieceY (log.length % 3) i).toNat
    rw [h.count] at hbits ⊢
    rw [BitVec.toNat_setWidth, Nat.zero_add]
    omega
  count := by
    have hcount := h.count
    show (if s.pieceCount = 2 then 0 else s.pieceCount + 1 : BitVec 3).toNat = (log.length + 1) % 3
    split
    · rename_i htwo
      rw [htwo] at hcount
      have hlast : log.length % 3 = 2 := hcount.symm
      show 0 = _
      omega
    · rename_i hne
      have hlast : log.length % 3 ≠ 2 := fun heq =>
        hne (BitVec.eq_of_toNat_eq (hcount.trans heq))
      bv_omega
  color := by
    show s.color + 1 = BitVec.ofNat 4 (log.length + 1)
    rw [h.color, BitVec.ofNat_add]
    rfl

/-- A piece that falls takes its shape along. -/
theorem Stacked.fall {s : State p} {log : List Landed} (h : Stacked s log)
    {cols : Fin 4 → BitVec 6} (hfree : ¬Collides s cols) : Stacked (fall s) log where
  lands := h.lands
  board := h.board
  yMotion := by
    obtain hm | ⟨hm, hlog, hy⟩ := h.yMotion
    · exact .inl hm
    · refine .inr ⟨hm, hlog, fun i => ?_⟩
      show (rowBelow s i).setWidth 7 = 0
      rw [rowBelow, hm, hy]
      rfl
  xMotion := h.xMotion
  oneColumn := h.oneColumn
  rows := by
    obtain ⟨y, hy⟩ := h.rows
    have hlow (i : Fin 4) : (rowBelow s i).toNat < 128 := by
      have hheight := p.boardHeight.isLt
      have hb : ¬p.boardHeight.setWidth 8 ≤ rowBelow s i := fun hb => hfree ⟨i, .inr hb⟩
      rw [heightLe_iff] at hb
      omega
    have hrow (i : Fin 4) : ((TetrisFpga.Game.fall s).blockY i).toNat = (rowBelow s i).toNat := by
      show ((rowBelow s i).setWidth 7).toNat = _
      rw [BitVec.toNat_setWidth, Nat.mod_eq_of_lt (hlow i)]
    obtain hm | ⟨hm, -, -⟩ := h.yMotion
    · refine ⟨y + 1, fun i => ?_⟩
      rw [hrow, rowBelow_eq hm, hy]
      omega
    · refine ⟨y, fun i => ?_⟩
      have hbits := (s.blockY i).isLt
      rw [hrow, ← hy, rowBelow, hm]
      bv_omega
  count := h.count
  color := h.color

theorem Stacked.frameStep {s : State p} {log : List Landed} (h : Stacked s log)
    (hp : 0 < p.boardHeight.toNat) (seen : Fin 4 → Bool) :
    Stacked (frameStep s seen) ((landed s (.frameClk seen)).toList ++ log) := by
  have hx (i : Fin 4) : (moveXBlock s).blockX i = (moveXBlock s).blockX 0 := by
    rw [moveXBlock_blockX, moveXBlock_blockX, h.oneColumn i]
  have hlanded : landed s (.frameClk seen) = if Locks s seen then
      some ⟨fun i => (s.blockY i).toNat, fun i => (seenColumns s seen i).toNat⟩ else none := rfl
  rw [hlanded]
  obtain ⟨hm, hs⟩ | ⟨hm, hc, hs⟩ | ⟨hm, hfree, hs⟩ := frameStep_cases s seen
  · rw [if_neg fun hl : Locks s seen => hm hl.1, hs]
    have hf := h.frameBlock
    exact ⟨hf.lands, hf.board, hf.yMotion, hf.xMotion, hx, hf.rows, hf.count, hf.color⟩
  · rw [if_pos (show Locks s seen from ⟨hm, hc⟩), hs]
    have hl := h.lockPiece hp hc
    exact ⟨hl.lands, hl.board, hl.yMotion, hl.xMotion, hx, hl.rows, hl.count, hl.color⟩
  · rw [if_neg fun hl : Locks s seen => hfree hl.2, hs]
    have hl := h.fall hfree
    exact ⟨hl.lands, hl.board, hl.yMotion, hl.xMotion, hx, hl.rows, hl.count, hl.color⟩

theorem Stacked.logged {x : State p × List Landed} (h : Stacked x.1 x.2)
    (hp : 0 < p.boardHeight.toNat) (e : Edge) : Stacked (logged x e).1 (logged x e).2 := by
  cases e with
  | clk => exact h.inputBlock
  | frameClk seen => exact h.frameStep hp seen
  | reset level =>
    have hl : Stacked { x.1 with reset := level } x.2 :=
      ⟨h.lands, h.board, h.yMotion, h.xMotion, h.oneColumn, h.rows, h.count, h.color⟩
    show Stacked (next x.1 (.reset level)) x.2
    rw [next]
    split
    · exact hl.frameBlock.inputBlock
    · exact hl
  | keycode code =>
    exact ⟨h.lands, h.board, h.yMotion, h.xMotion, h.oneColumn, h.rows, h.count, h.color⟩

/-- The pieces that a run from power-up locks, the newest first. -/
def stack (p : Params) (reset : Bool) (keycode : BitVec 8) (edges : List Edge) : List Landed :=
  (run logged (powerUp p reset keycode, []) edges).2

theorem stacked_powerUp_run (hp : 0 < p.boardHeight.toNat) (reset : Bool) (keycode : BitVec 8)
    (edges : List Edge) :
    Stacked (run next (powerUp p reset keycode) edges) (stack p reset keycode edges) := by
  have hrun : Stacked (run logged (powerUp p reset keycode, []) edges).1
      (run logged (powerUp p reset keycode, []) edges).2 :=
    run_invariant (fun (x : State p × List Landed) e (h : Stacked x.1 x.2) => h.logged hp e)
      (stacked_powerUp reset keycode) edges
  rwa [run_logged] at hrun

/-- In every run the board holds the cells of the pieces that were locked and no others; every
piece stood on the floor or on an earlier piece when it was locked, and had the shape of its place
in the queue; and the count and the colour are those of the pieces that were locked. -/
theorem stacked_run (hp : 0 < p.boardHeight) (reset : Bool) (keycode : BitVec 8)
    (edges : List Edge) :
    let s := run next (powerUp p reset keycode) edges
    let log := stack p reset keycode edges
    History.Always (Lands p.boardHeight.toNat) log ∧
      (∀ row col, boardBit s.board row col = true ↔
        Covered log row col ∧ row < p.boardHeight.toNat + 1 ∧ col < 16) ∧
      (∃ y, ∀ i, (s.blockY i).toNat = y + profile log.length i) ∧
      s.pieceCount.toNat = log.length % 3 ∧ s.color = BitVec.ofNat 4 log.length := by
  have h := stacked_powerUp_run (p := p) hp reset keycode edges
  exact ⟨h.lands, h.board, h.rows, h.count, h.color⟩

/-- A board of three rows, on which the piece falls every second frame. -/
def lowBoard : Params := { boardHeight := 3, framesPerMove := 0 }

/-- Eight pieces in twenty frames. -/
theorem stacked_run_lowBoard :
    History.Always (Lands lowBoard.boardHeight.toNat) (stack lowBoard false 0 (frames 20)) ∧
      (stack lowBoard false 0 (frames 20)).length = 8 :=
  ⟨(stacked_run (p := lowBoard) (by decide) false 0 (frames 20)).1, by decide +kernel⟩

end TetrisFpga.Game
