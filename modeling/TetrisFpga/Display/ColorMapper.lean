import Mathlib.Tactic.Linarith

/-!
# The module `color_mapper`

Combinational model of `Color_Mapper.sv`. `Ball_on_proc` decides whether the pixel lies in
one of four discs or in a side border, at the source's widths; `ballOn_iff` gives its
meaning over the integers. `RGB_Display` chooses the colour and looks at `DrawX` only.
-/

namespace TetrisFpga.Display

/-- `parameter squareSize = (640/2)/12`, a 32-bit `int`. -/
def squareSize : BitVec 32 := (640 / 2) / 12

/-- `BallX[i]`: the product and the sum are 32 bits wide, the net is ten. -/
def ballX (blockx : BitVec 10) : BitVec 10 :=
  (blockx.setWidth 32 * squareSize + 640 / 4).setWidth 10

/-- `BallY[i]`. -/
def ballY (blocky : BitVec 10) : BitVec 10 := (blocky.setWidth 32 * squareSize).setWidth 10

/-- `DistXi` and `DistYi`: the unsigned operands are extended to the 32 bits of the `int`
before they are subtracted. -/
def dist (draw ball : BitVec 10) : BitVec 32 := draw.setWidth 32 - ball.setWidth 32

/-- `Size`. -/
def size : BitVec 32 := squareSize / 2

/-- `(DistX*DistX + DistY*DistY) <= (Size*Size)` on signed 32-bit operands. -/
def inBall (blockx blocky drawX drawY : BitVec 10) : Bool :=
  let distX := dist drawX (ballX blockx)
  let distY := dist drawY (ballY blocky)
  (distX * distX + distY * distY).sle (size * size)

/-- `Ball_on_proc`. -/
def ballOn (blockx blocky : Fin 4 → BitVec 10) (drawX drawY : BitVec 10) : Bool :=
  (List.finRange 4).any (fun i => inBall (blockx i) (blocky i) drawX drawY) ||
    decide (drawX.setWidth 32 ≤ 640 / 4 - squareSize / 2) ||
    decide (3 * 640 / 4 + squareSize / 2 ≤ drawX.setWidth 32)

/-- `Red`, `Green` and `Blue`. -/
structure Rgb where
  red : BitVec 8
  green : BitVec 8
  blue : BitVec 8
  deriving DecidableEq

/-- The colour of the blocks and of the side borders. -/
def blockColor : Rgb := ⟨0xff, 0x55, 0x00⟩

/-- The colour of the other branch of `RGB_Display`. -/
def backgroundColor : Rgb := ⟨0x00, 0x55, 0xff⟩

/-- `RGB_Display`: the test of `ball_on` is commented out, a test of `DrawX` stands in its
place. -/
def rgbDisplay (drawX : BitVec 10) : Rgb :=
  if 300 < drawX.setWidth 32 then blockColor else backgroundColor

/-- The outputs of `color_mapper`. They do not depend on the blocks: nothing reads
`ball_on`. -/
def colorMapper (_blockx _blocky : Fin 4 → BitVec 10) (drawX _drawY : BitVec 10) : Rgb :=
  rgbDisplay drawX

/-- The disc of radius 13 about the centre of the cell `(x, y)`. -/
def InDisc (x y drawX drawY : ℤ) : Prop :=
  (drawX - (26 * x + 160)) ^ 2 + (drawY - 26 * y) ^ 2 ≤ 13 ^ 2

/-- The two side borders. -/
def InBorder (drawX : ℤ) : Prop := drawX ≤ 147 ∨ 493 ≤ drawX

/-- The `int` distance is the integer distance: ten-bit operands cannot overflow. -/
theorem dist_toInt (draw ball : BitVec 10) :
    (dist draw ball).toInt = (draw.toNat : ℤ) - ball.toNat := by
  have hd := draw.isLt
  have hb := ball.isLt
  rw [dist, BitVec.toInt_sub, BitVec.toInt_setWidth, BitVec.toInt_setWidth]
  simp only [Int.bmod_def]
  omega

theorem dist_bounds (draw ball : BitVec 10) :
    -1024 < (dist draw ball).toInt ∧ (dist draw ball).toInt < 1024 := by
  have hd := draw.isLt
  have hb := ball.isLt
  rw [dist_toInt]
  omega

/-- The squares stay within 32 bits, so the comparison is the one over the integers. -/
theorem inBall_iff (blockx blocky drawX drawY : BitVec 10) :
    inBall blockx blocky drawX drawY = true ↔
      ((drawX.toNat : ℤ) - (ballX blockx).toNat) ^ 2 +
        ((drawY.toNat : ℤ) - (ballY blocky).toNat) ^ 2 ≤ 13 ^ 2 := by
  obtain ⟨hx₁, hx₂⟩ := dist_bounds drawX (ballX blockx)
  obtain ⟨hy₁, hy₂⟩ := dist_bounds drawY (ballY blocky)
  rw [← dist_toInt, ← dist_toInt, inBall, BitVec.sle_iff_toInt_le]
  generalize (dist drawX (ballX blockx)) = dx at *
  generalize (dist drawY (ballY blocky)) = dy at *
  have hdx : dx.toInt * dx.toInt < 2 ^ 20 := by nlinarith
  have hdy : dy.toInt * dy.toInt < 2 ^ 20 := by nlinarith
  have hdx₀ : 0 ≤ dx.toInt * dx.toInt := mul_self_nonneg _
  have hdy₀ : 0 ≤ dy.toInt * dy.toInt := mul_self_nonneg _
  have hsum : (dx * dx + dy * dy).toInt = dx.toInt * dx.toInt + dy.toInt * dy.toInt := by
    rw [BitVec.toInt_add, BitVec.toInt_mul, BitVec.toInt_mul]
    simp only [Int.bmod_def]
    omega
  have hsize : (size * size).toInt = 13 ^ 2 := by decide
  rw [hsum, hsize, pow_two dx.toInt, pow_two dy.toInt]

/-- On positions whose centre fits the ten-bit nets, `Ball_on_proc` draws the four discs
and the two borders. -/
theorem ballOn_iff (blockx blocky : Fin 4 → BitVec 10) (drawX drawY : BitVec 10)
    (hx : ∀ i, (blockx i).toNat ≤ 33) (hy : ∀ i, (blocky i).toNat ≤ 39) :
    ballOn blockx blocky drawX drawY = true ↔
      (∃ i, InDisc (blockx i).toNat (blocky i).toNat drawX.toNat drawY.toNat) ∨
        InBorder drawX.toNat := by
  have hcx : ∀ i, ((ballX (blockx i)).toNat : ℤ) = 26 * (blockx i).toNat + 160 := by
    intro i
    have := hx i
    have hsq : squareSize = 26 := by decide
    have hoff : (640 / 4 : BitVec 32) = 160 := by decide
    rw [ballX, hsq, hoff]
    bv_omega
  have hcy : ∀ i, ((ballY (blocky i)).toNat : ℤ) = 26 * (blocky i).toNat := by
    intro i
    have := hy i
    have hsq : squareSize = 26 := by decide
    rw [ballY, hsq]
    bv_omega
  have hborder : ((drawX.setWidth 32 ≤ 640 / 4 - squareSize / 2) ∨
      (3 * 640 / 4 + squareSize / 2 ≤ drawX.setWidth 32)) ↔ InBorder drawX.toNat := by
    have hl : (640 / 4 - squareSize / 2 : BitVec 32) = 147 := by decide
    have hr : (3 * 640 / 4 + squareSize / 2 : BitVec 32) = 493 := by decide
    rw [hl, hr, InBorder]
    bv_omega
  rw [ballOn, Bool.or_assoc, Bool.or_eq_true, ← Bool.decide_or, decide_eq_true_iff, hborder]
  simp only [List.any_eq_true, List.mem_finRange, true_and, inBall_iff, hcx, hcy, InDisc]

end TetrisFpga.Display
