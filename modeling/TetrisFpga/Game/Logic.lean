import Mathlib.Data.Fin.VecNotation
import TetrisFpga.Machine.Run

/-!
# The module `Game_Logic`

Register-level model of `Game_Logic.sv`. The four blocks of the falling piece are
indexed by `Fin 4`, so `blockX 0` is the register `blockX1`. Each `always_ff` block is
one function on the registers; `next` says which of them an edge of `Clk`, `frame_clk`
or `Reset` wakes up.

`move_clk` is a register of the module itself, written on `frame_clk`. Its rising edge
wakes `MoveY_Block` in the instant in which `MoveX_Block` writes the columns, so which
of the four new columns `MoveY_Block` already sees is left open (`seen`).
-/

namespace TetrisFpga.Game
open Machine

/-- The module's parameters, with the source's defaults. -/
structure Params where
  boardWidth : BitVec 6 := 11
  boardHeight : BitVec 7 := 18
  framesPerMove : BitVec 8 := 13

/-- `Pieces[k][r][i]`: the block's offset from the piece's origin, `[5:3]` its row and
`[2:0]` its column. Indices outside the declared `[3][2][4]` read as zero. -/
def pieces (k r : ℕ) (i : Fin 4) : BitVec 6 :=
  match k, r with
  | 0, 0 => ![0b000000, 0b001000, 0b001001, 0b010001] i
  | 0, 1 => ![0b001000, 0b001001, 0b000001, 0b000010] i
  | 1, 0 => ![0b000000, 0b000001, 0b001000, 0b001001] i
  | 1, 1 => ![0b000000, 0b000001, 0b001000, 0b001001] i
  | 2, 0 => ![0b000000, 0b001000, 0b001001, 0b010001] i
  | 2, 1 => ![0b001000, 0b001001, 0b000001, 0b000010] i
  | _, _ => 0

/-- `Pieces[k][0][i][2:0]`. -/
def pieceX (k : ℕ) (i : Fin 4) : BitVec 3 := (pieces k 0 i).extractLsb' 0 3

/-- `Pieces[k][0][i][5:3]`. -/
def pieceY (k : ℕ) (i : Fin 4) : BitVec 3 := (pieces k 0 i).extractLsb' 3 3

/-- `logic [15:0] Board[board_height+1]`: one word a row. -/
abbrev Board (p : Params) := Vector (BitVec 16) (p.boardHeight.toNat + 1)

/-- `Board[row][col] == 1'b1`. A bit outside the declared rows and columns is unknown,
so the comparison fails. -/
def boardBit {p : Params} (board : Board p) (row col : ℕ) : Bool :=
  (board[row]?.getD 0).getLsbD col

/-- `Board[row][col] <= 1'b1`. A write outside the declared rows and columns is lost. -/
def setBit {p : Params} (board : Board p) (row col : ℕ) : Board p :=
  board.setIfInBounds row (board[row]?.getD 0 ||| 1#16 <<< col)

/-- The inputs `Reset` and `keycode` at their present levels, and the registers. -/
structure State (p : Params) where
  reset : Bool
  keycode : BitVec 8
  board : Board p
  blockX : Fin 4 → BitVec 6
  blockY : Fin 4 → BitVec 7
  blockXMotion : BitVec 7
  blockYMotion : BitVec 8
  color : BitVec 4
  pieceCount : BitVec 3
  pieceRotation : Bool
  moveClk : Bool
  frameCount : BitVec 6

variable {p : Params}

/-- All registers 0, the inputs at any level. -/
def powerUp (p : Params) (reset : Bool) (keycode : BitVec 8) : State p where
  reset := reset
  keycode := keycode
  board := Vector.replicate _ 0
  blockX := fun _ => 0
  blockY := fun _ => 0
  blockXMotion := 0
  blockYMotion := 0
  color := 0
  pieceCount := 0
  pieceRotation := false
  moveClk := false
  frameCount := 0

/-- The first block: `frame_count` and `move_clk`, on `frame_clk` or `Reset` rising. -/
def frameBlock (s : State p) : State p :=
  if s.reset then { s with frameCount := 0 }
  else if p.framesPerMove < s.frameCount.setWidth 8 then
    { s with frameCount := 0, moveClk := true }
  else { s with frameCount := s.frameCount + 1, moveClk := false }

/-- The column the `Reset` branch of `MoveX_Block` assigns. -/
def resetColumn (p : Params) (i : Fin 4) : BitVec 6 :=
  (pieceX 0 i).setWidth 6 + (p.boardWidth >>> 1)

/-- `MoveX_Block`. The assignments after the `if` have no `else`: they follow those of
the `Reset` branch and, nonblocking and to the same registers, replace them. -/
def moveXBlock (s : State p) : State p :=
  let s₁ := if s.reset then { s with blockX := resetColumn p } else s
  { s₁ with blockX := fun i => ((s.blockX i).setWidth 7 + s.blockXMotion).setWidth 6 }

/-- `blockYi+blockYMotion`, evaluated at the eight bits of the wider operand. -/
def rowBelow (s : State p) (i : Fin 4) : BitVec 8 :=
  (s.blockY i).setWidth 8 + s.blockYMotion

/-- The test of `MoveY_Block`: some block has a set cell or the bottom below it. -/
def Collides (s : State p) (cols : Fin 4 → BitVec 6) : Prop :=
  ∃ i, boardBit s.board (rowBelow s i).toNat (cols i).toNat = true ∨
    p.boardHeight.setWidth 8 ≤ rowBelow s i

instance (s : State p) (cols : Fin 4 → BitVec 6) : Decidable (Collides s cols) :=
  inferInstanceAs (Decidable (∃ _, _))

/-- The branch of `MoveY_Block` for a piece that has landed: its cells are set in the
board and the rows of the next piece are loaded. -/
def lockPiece (s : State p) (cols : Fin 4 → BitVec 6) : State p :=
  { s with
    board := (List.finRange 4).foldl
      (fun b i => setBit b (s.blockY i).toNat (cols i).toNat) s.board
    blockY := fun i => (pieceY s.pieceCount.toNat i).setWidth 7
    color := s.color + 1
    pieceCount := if s.pieceCount = 2 then 0 else s.pieceCount + 1 }

/-- The branch of `MoveY_Block` for a piece with free cells below it. -/
def fall (s : State p) : State p :=
  { s with blockY := fun i => (rowBelow s i).setWidth 7 }

/-- `MoveY_Block`, on `move_clk` rising; `cols` are the columns it sees. -/
def moveYBlock (s : State p) (cols : Fin 4 → BitVec 6) : State p :=
  -- no edge of `frame_clk` comes here: `move_clk` does not rise under `Reset`
  if s.reset then
    { s with
      blockY := fun i => (pieceY 0 i).setWidth 7
      pieceCount := 0
      pieceRotation := false
      color := 1
      board := Vector.replicate _ 0 }
  else if Collides s cols then lockPiece s cols
  else fall s

/-- `Input_Block`, on `Clk` or `Reset` rising; it has no `Reset` branch. -/
def inputBlock (s : State p) : State p :=
  { s with
    blockYMotion := 1
    blockXMotion :=
      -- the walls are tested, the stack is not
      if s.keycode = 0x04 then (if ∀ i, 0 < s.blockX i then -1 else 0)
      else if s.keycode = 0x07 then (if ∀ i, s.blockX i < p.boardWidth then 1 else 0)
      else 0 }

/-- An edge of one of the module's inputs, or a change of the key code. -/
inductive Edge where
  | clk
  | frameClk (seen : Fin 4 → Bool)
  | reset (level : Bool)
  | keycode (code : BitVec 8)

/-- Does the coming edge of `frame_clk` raise `move_clk`? -/
def MoveEdge (s : State p) : Prop := s.moveClk = false ∧ (frameBlock s).moveClk = true

instance (s : State p) : Decidable (MoveEdge s) := inferInstanceAs (Decidable (_ ∧ _))

/-- The columns `MoveY_Block` sees when `move_clk` rises with this edge of `frame_clk`. -/
def seenColumns (s : State p) (seen : Fin 4 → Bool) (i : Fin 4) : BitVec 6 :=
  if seen i then (moveXBlock s).blockX i else s.blockX i

/-- Everything an edge of `frame_clk` does, with the edge of `move_clk` it may raise. -/
def frameStep (s : State p) (seen : Fin 4 → Bool) : State p :=
  let s₁ := { frameBlock s with blockX := (moveXBlock s).blockX }
  -- the new `frame_count` and columns are written in the same instant
  if MoveEdge s then moveYBlock s₁ (seenColumns s seen) else s₁

/-- One event. `Reset` wakes its blocks on the rising edge only. -/
def next (s : State p) : Edge → State p
  | .clk => inputBlock s
  | .frameClk seen => frameStep s seen
  | .reset level =>
    let s₁ := { s with reset := level }
    if level && !s.reset then inputBlock (frameBlock s₁) else s₁
  | .keycode code => { s with keycode := code }

/-- The states the module can reach from power-up, its edges coming in any order. -/
def Reachable (s : State p) : Prop :=
  ∃ reset keycode edges, s = run next (powerUp p reset keycode) edges

/-! ## What a step does -/

@[simp] theorem boardBit_replicate (row col : ℕ) :
    boardBit (Vector.replicate _ 0 : Board p) row col = false := by
  unfold boardBit
  by_cases h : row < p.boardHeight.toNat + 1 <;> simp [h]

theorem boardBit_setBit (board : Board p) (r c row col : ℕ) :
    boardBit (setBit board r c) row col = true ↔
      boardBit board row col = true ∨
        (row = r ∧ col = c ∧ r < p.boardHeight.toNat + 1 ∧ c < 16) := by
  unfold boardBit setBit
  rw [Vector.getElem?_setIfInBounds]
  by_cases hr : r = row
  · subst hr
    by_cases hin : r < p.boardHeight.toNat + 1
    · have hbit : (col < 16 ∧ c ≤ col) ∧ col - c = 0 ↔ col = c ∧ c < 16 := by omega
      simp [hin, hbit]
    · simp [hin]
  · simp [hr, Ne.symm hr]

theorem boardBit_foldl_setBit (rows cols : Fin 4 → ℕ) (is : List (Fin 4)) (board : Board p)
    (row col : ℕ) :
    boardBit (is.foldl (fun b i => setBit b (rows i) (cols i)) board) row col = true ↔
      boardBit board row col = true ∨
        ∃ i ∈ is, row = rows i ∧ col = cols i ∧ rows i < p.boardHeight.toNat + 1 ∧
          cols i < 16 := by
  induction is generalizing board with
  | nil => simp
  | cons i is ih =>
    rw [List.foldl_cons, ih, boardBit_setBit]
    simp only [List.mem_cons, or_and_right, exists_or, exists_eq_left, or_assoc]

/-- Locking adds the four cells of the piece to the board and no others. -/
theorem boardBit_lockPiece (s : State p) (cols : Fin 4 → BitVec 6) (row col : ℕ) :
    boardBit (lockPiece s cols).board row col = true ↔
      boardBit s.board row col = true ∨
        ∃ i, row = (s.blockY i).toNat ∧ col = (cols i).toNat ∧
          (s.blockY i).toNat < p.boardHeight.toNat + 1 ∧ (cols i).toNat < 16 := by
  simp only [lockPiece]
  rw [boardBit_foldl_setBit (fun i => (s.blockY i).toNat) (fun i => (cols i).toNat)]
  simp only [List.mem_finRange, true_and]

@[simp] theorem moveXBlock_blockX (s : State p) (i : Fin 4) :
    (moveXBlock s).blockX i = s.blockX i + s.blockXMotion.setWidth 6 := by
  unfold moveXBlock
  apply BitVec.eq_of_toNat_eq
  simp only [BitVec.toNat_setWidth, BitVec.toNat_add]
  omega

/-- `frameBlock` writes nothing but `frame_count` and `move_clk`. -/
theorem frameBlock_eq (s : State p) :
    frameBlock s = { s with
      frameCount := (frameBlock s).frameCount, moveClk := (frameBlock s).moveClk } := by
  unfold frameBlock
  split_ifs <;> rfl

/-- A rising `move_clk` means that `Reset` is low: under `Reset` the register holds. -/
theorem MoveEdge.reset_low {s : State p} (h : MoveEdge s) : s.reset = false := by
  by_contra hr
  have hr' : s.reset = true := by simpa using hr
  have hm := h.2
  rw [frameBlock, if_pos hr'] at hm
  exact absurd (h.1.symm.trans hm) (by decide)

/-- Three things can happen on an edge of `frame_clk`: the rows stay, the piece locks, or
the piece falls. The columns take the sideways step each time. -/
theorem frameStep_cases (s : State p) (seen : Fin 4 → Bool) :
    (¬MoveEdge s ∧ frameStep s seen = { frameBlock s with blockX := (moveXBlock s).blockX }) ∨
    (MoveEdge s ∧ Collides s (seenColumns s seen) ∧
      frameStep s seen = { lockPiece s (seenColumns s seen) with
        frameCount := (frameBlock s).frameCount, moveClk := (frameBlock s).moveClk
        blockX := (moveXBlock s).blockX }) ∨
    (MoveEdge s ∧ ¬Collides s (seenColumns s seen) ∧
      frameStep s seen = { fall s with
        frameCount := (frameBlock s).frameCount, moveClk := (frameBlock s).moveClk
        blockX := (moveXBlock s).blockX }) := by
  by_cases hm : MoveEdge s
  · right
    have hr := hm.reset_low
    have hs : frameStep s seen = moveYBlock
        { frameBlock s with blockX := (moveXBlock s).blockX } (seenColumns s seen) :=
      if_pos hm
    rw [frameBlock_eq] at hs
    by_cases hc : Collides s (seenColumns s seen)
    · refine .inl ⟨hm, hc, ?_⟩
      rw [hs, moveYBlock, if_neg (by simp [hr])]
      exact if_pos hc
    · refine .inr ⟨hm, hc, ?_⟩
      rw [hs, moveYBlock, if_neg (by simp [hr])]
      exact if_neg hc
  · exact .inl ⟨hm, if_neg hm⟩

/-- What an edge of `frame_clk` does to the registers that `MoveY_Block` does not write. -/
theorem frameStep_eq (s : State p) (seen : Fin 4 → Bool) :
    frameStep s seen = { frameStep s seen with
      reset := s.reset
      blockX := (moveXBlock s).blockX
      blockXMotion := s.blockXMotion
      frameCount := (frameBlock s).frameCount, moveClk := (frameBlock s).moveClk } := by
  obtain ⟨-, hs⟩ | ⟨-, -, hs⟩ | ⟨-, -, hs⟩ := frameStep_cases s seen
  · rw [hs, frameBlock_eq]
  · rw [hs]
    rfl
  · rw [hs]
    rfl

end TetrisFpga.Game
