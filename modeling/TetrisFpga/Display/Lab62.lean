import Mathlib.Algebra.Order.Ring.Abs
import TetrisFpga.Display.ColorMapper
import TetrisFpga.Game.Logic

/-!
# `Game_Logic` and `color_mapper` as wired in `lab62`

`lab62.sv` connects the position outputs of `game` to the inputs of `colormap` through the
names `blockx1sig` .. `blocky4sig`, which it never declares: each is an implicit net of one
bit. The port `Clk` of `game` is not connected, so no edge of `Clk` ever comes.

## Main results

- `showsGame_iff`: the pixels that show the game
- `discsOn_iff`, `discsOn_corner`: what `ball_on`, which the colours do not read, would show
-/

namespace TetrisFpga.Lab62
open Machine Game Display

/-- An undeclared net: one bit of the output that drives it, zero-extended at the ten-bit
port that reads it. -/
def implicitNet {n : ℕ} (output : BitVec n) : BitVec 10 := (output.setWidth 1).setWidth 10

/-- The edges the instance `game` can see. -/
def Wired : Edge → Prop
  | .clk => False
  | _ => True

/-- The states the instance `game` can reach from power-up. -/
def Reachable (s : State ({} : Params)) : Prop :=
  ∃ reset keycode edges, (∀ e ∈ edges, Wired e) ∧ s = run next (powerUp _ reset keycode) edges

variable {p : Params}

/-- The colour `colormap` outputs for a pixel while `game` is in the state `s`. -/
def display (s : State p) (drawX drawY : BitVec 10) : Rgb :=
  colorMapper (fun i => implicitNet (s.blockX i)) (fun i => implicitNet (s.blockY i)) drawX drawY

/-- The pixel lies in the disc of one of the cells on the outputs of `game`. -/
def InSomeDisc (s : State p) (drawX drawY : BitVec 10) : Prop :=
  ∃ i, InDisc (s.blockX i).toNat (s.blockY i).toNat drawX.toNat drawY.toNat

/-- The pixel shows the game: the block colour in the discs and the borders, the background
everywhere else. -/
def ShowsGame (s : State p) (drawX drawY : BitVec 10) : Prop :=
  (display s drawX drawY = blockColor ↔ InSomeDisc s drawX drawY ∨ InBorder drawX.toNat) ∧
    (¬(InSomeDisc s drawX drawY ∨ InBorder drawX.toNat) →
      display s drawX drawY = backgroundColor)

theorem display_eq_blockColor_iff (s : State p) (drawX drawY : BitVec 10) :
    display s drawX drawY = blockColor ↔ 300 < drawX.toNat := by
  have hne : backgroundColor ≠ blockColor := by decide
  unfold display colorMapper rgbDisplay
  split
  · exact ⟨fun _ => by bv_omega, fun _ => rfl⟩
  · exact ⟨fun h => absurd h hne, fun _ => by bv_omega⟩

theorem display_eq_backgroundColor (s : State p) (drawX drawY : BitVec 10)
    (h : drawX.toNat ≤ 300) : display s drawX drawY = backgroundColor := by
  unfold display colorMapper rgbDisplay
  rw [if_neg (by bv_omega)]

/-- Where the picture and the game agree: on the right border, right of column 300 inside a
disc, and between the left border and column 300 outside the discs. -/
theorem showsGame_iff (s : State p) (drawX drawY : BitVec 10) :
    ShowsGame s drawX drawY ↔
      493 ≤ drawX.toNat ∨ (300 < drawX.toNat ∧ InSomeDisc s drawX drawY) ∨
        (147 < drawX.toNat ∧ drawX.toNat ≤ 300 ∧ ¬InSomeDisc s drawX drawY) := by
  unfold ShowsGame
  rw [display_eq_blockColor_iff]
  have hborder : InBorder drawX.toNat ↔ drawX.toNat ≤ 147 ∨ 493 ≤ drawX.toNat := by
    rw [InBorder]
    omega
  rw [hborder]
  by_cases hd : InSomeDisc s drawX drawY
  · simp only [hd, true_or, not_true, iff_true, false_implies, and_true, and_false, or_false]
    omega
  · simp only [hd, false_or, not_false_iff, and_true, and_false]
    constructor
    · omega
    · intro h
      refine ⟨by omega, fun hn => display_eq_backgroundColor s drawX drawY (by omega)⟩

/-- At power-up the pixel (0, 100), in the left border, shows the background. -/
theorem left_border_shows_background :
    Reachable (powerUp {} false 0) ∧ ¬ShowsGame (powerUp ({} : Params) false 0) 0 100 := by
  refine ⟨⟨false, 0, [], by simp, rfl⟩, fun h => ?_⟩
  have hb := h.1.mpr (.inr (.inl (by decide)))
  exact absurd hb (by decide)

/-! ## The net `ball_on` -/

/-- `ball_on` in `lab62`. -/
def discsOn (s : State p) (drawX drawY : BitVec 10) : Bool :=
  ballOn (fun i => implicitNet (s.blockX i)) (fun i => implicitNet (s.blockY i)) drawX drawY

theorem implicitNet_toNat {n : ℕ} (output : BitVec n) :
    (implicitNet output).toNat = output.toNat % 2 := by
  rw [implicitNet, BitVec.toNat_setWidth, BitVec.toNat_setWidth]
  exact Nat.mod_eq_of_lt (by omega)

/-- The discs stand on the parities of the positions. -/
theorem discsOn_iff (s : State p) (drawX drawY : BitVec 10) :
    discsOn s drawX drawY = true ↔
      (∃ i, InDisc ((s.blockX i).toNat % 2 : ℕ) ((s.blockY i).toNat % 2 : ℕ) drawX.toNat
        drawY.toNat) ∨ InBorder drawX.toNat := by
  have hsmall {n : ℕ} (output : BitVec n) : (implicitNet output).toNat ≤ 33 := by
    rw [implicitNet_toNat]
    omega
  have hiff := ballOn_iff (fun i => implicitNet (s.blockX i)) (fun i => implicitNet (s.blockY i))
    drawX drawY (fun i => hsmall _) fun i => (hsmall _).trans (by decide)
  simp only [implicitNet_toNat] at hiff
  exact hiff

/-- With the test of `ball_on` in place the whole game would be shown in the corner of four
cells. -/
theorem discsOn_corner {s : State p} {drawX drawY : BitVec 10} (h : discsOn s drawX drawY = true)
    (hborder : ¬InBorder drawX.toNat) : drawX.toNat ≤ 199 ∧ drawY.toNat ≤ 39 := by
  obtain ⟨i, hdisc⟩ | hin := (discsOn_iff s drawX drawY).mp h
  · rw [InDisc] at hdisc
    have hx := Nat.mod_lt (s.blockX i).toNat Nat.two_pos
    have hy := Nat.mod_lt (s.blockY i).toNat Nat.two_pos
    -- either distance is at most the radius
    have hdx := (abs_le_of_sq_le_sq' (le_trans (le_add_of_nonneg_right (sq_nonneg _)) hdisc)
      (by decide)).2
    have hdy := (abs_le_of_sq_le_sq' (le_trans (le_add_of_nonneg_left (sq_nonneg _)) hdisc)
      (by decide)).2
    omega
  · exact absurd hin hborder

end TetrisFpga.Lab62
