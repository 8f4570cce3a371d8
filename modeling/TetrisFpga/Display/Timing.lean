import Mathlib.Logic.Function.Iterate
import TetrisFpga.Display.VgaController

/-!
# The sync pulses of the picture

Both syncs are registered and computed from a counter plus one. The horizontal counter moves with
every pixel, so the two offsets cancel. The vertical counter moves once a line: its sync is a line
early and a pixel late.
-/

namespace TetrisFpga.Display.Vga

/-- `display`. -/
def display (s : Vga) : Bool := !decide (0b1010000000 ≤ s.hc ∨ 0b0111100000 ≤ s.vc)

/-- `blank`, which is active low. -/
def blank (s : Vga) : Bool := s.display

/-- The pixel-clock edges among the next `k` edges of `Clk`. -/
def pixelEdges (s : Vga) : ℕ → ℕ
  | 0 => 0
  | k + 1 => pixelEdges s k + if (clk^[k] s).PixelEdge then 1 else 0

/-- The outputs after `n` pixel-clock edges as functions of the pixel: the syncs are low where the
comments of the source put the pulses. -/
structure ClosedForm (s : Vga) (n : ℕ) : Prop where
  drawX : s.drawX.toNat = n % 800
  drawY : s.drawY.toNat = n / 800 % 525
  hs : s.hs = false ↔ 656 ≤ s.drawX.toNat ∧ s.drawX.toNat < 752
  vs : s.vs = false ↔ s.drawY.toNat = 490 ∨ s.drawY.toNat = 491
  blank : s.blank = true ↔ s.drawX.toNat < 640 ∧ s.drawY.toNat < 480

/-! ## The run from power-up -/

theorem blank_iff (s : Vga) : s.blank = true ↔ s.drawX.toNat < 640 ∧ s.drawY.toNat < 480 := by
  have hx : 0b1010000000 ≤ s.hc ↔ 640 ≤ s.hc.toNat := Iff.rfl
  have hy : 0b0111100000 ≤ s.vc ↔ 480 ≤ s.vc.toNat := Iff.rfl
  rw [blank, display, Bool.not_eq_true', decide_eq_false_iff_not, hx, hy, drawX, drawY]
  omega

/-- The horizontal sync does not depend on the pixel clock's level. -/
theorem clk_hs_of_not_edge {s : Vga} (h : ¬s.PixelEdge) : s.clk.hs = s.hs := by
  rw [clk, if_neg h]

/-- The counter has moved on by the one that `hsync_proc` adds. -/
theorem Timed.clk_hs {s : Vga} {n : ℕ} (h : s.Timed n) (hp : s.PixelEdge) :
    s.clk.hs = false ↔ 656 ≤ (n + 1) % 800 ∧ (n + 1) % 800 < 752 := by
  have hclk : s.clk.hs = hsyncProc s := by
    rw [Vga.clk, if_pos hp]
    rfl
  rw [hclk, hsyncProc, if_neg (by simp [h.reset]), h.hc, Bool.not_eq_false', decide_eq_true_iff]
  omega

/-- The horizontal sync after `n` pixel-clock edges; the register starts low. -/
def HsTimed (s : Vga) (n : ℕ) : Prop :=
  s.hs = false ↔ n = 0 ∨ 656 ≤ n % 800 ∧ n % 800 < 752

/-- The counters and both syncs after any number of edges of `Clk`. -/
theorem timed_iterate (k : ℕ) :
    (clk^[k] {}).Timed (pixelEdges {} k) ∧ (clk^[k] {}).HsTimed (pixelEdges {} k) := by
  induction k with
  | zero => exact ⟨timed_powerUp, iff_of_true rfl (.inl rfl)⟩
  | succ k ih =>
    obtain ⟨ht, hhs⟩ := ih
    rw [Function.iterate_succ_apply', pixelEdges]
    obtain ⟨hp, ht'⟩ | ⟨hp, ht', -⟩ := ht.clk
    · rw [if_pos hp]
      refine ⟨ht', (ht.clk_hs hp).trans ?_⟩
      rw [or_iff_right (Nat.succ_ne_zero _)]
    · rw [if_neg hp]
      refine ⟨ht', ?_⟩
      rwa [HsTimed, clk_hs_of_not_edge hp]

theorem counterProc_clkdiv (s : Vga) : (counterProc s).clkdiv = s.clkdiv := by
  unfold counterProc
  split
  · rfl
  · split <;> rfl

theorem clk_clkdiv {s : Vga} (h : s.reset = false) : s.clk.clkdiv = !s.clkdiv := by
  have hlevel : (if s.reset then false else !s.clkdiv) = !s.clkdiv := if_neg (by simp [h])
  rw [clk]
  split
  · exact (counterProc_clkdiv _).trans hlevel
  · exact hlevel

/-- The pixel clock has half the rate of `Clk`, and rises with the first edge. -/
theorem clkdiv_iterate (k : ℕ) :
    (clk^[k] {}).clkdiv = decide (k % 2 = 1) ∧ pixelEdges {} k = (k + 1) / 2 := by
  induction k with
  | zero => exact ⟨by decide, rfl⟩
  | succ k ih =>
    obtain ⟨hlevel, hcount⟩ := ih
    have hreset := (timed_iterate k).1.reset
    have hedge : (clk^[k] {}).PixelEdge ↔ k % 2 = 0 := by
      rw [PixelEdge, hlevel, decide_eq_false_iff_not, and_iff_right hreset]
      omega
    rw [Function.iterate_succ_apply', clk_clkdiv hreset, hlevel, pixelEdges, hcount]
    by_cases heven : k % 2 = 0
    · have hodd : (k + 1) % 2 = 1 := by omega
      rw [if_pos (hedge.mpr heven), heven, hodd]
      exact ⟨rfl, by omega⟩
    · have hodd : (k + 1) % 2 = 0 := by omega
      have hone : k % 2 = 1 := by omega
      rw [if_neg fun h => heven (hedge.mp h), hone, hodd]
      exact ⟨rfl, by omega⟩

theorem pixelEdges_succ (s : Vga) (k : ℕ) :
    s.pixelEdges (k + 1) = (if s.PixelEdge then 1 else 0) + s.clk.pixelEdges k := by
  induction k with
  | zero => exact Nat.add_comm ..
  | succ k ih =>
    rw [pixelEdges, ih, pixelEdges, Function.iterate_succ_apply, Nat.add_assoc]

/-! ## The closed form -/

/-- The vertical sync is a line early and a pixel late, so it is right on its first pixel of the
lines at either end of the pulse. -/
theorem closedForm_of_timed {s : Vga} {n : ℕ} (hn : 1 ≤ n) (ht : s.Timed n) (hhs : s.HsTimed n) :
    s.ClosedForm n ↔ n % 800 = 0 ∨ n / 800 % 525 ≠ 489 ∧ n / 800 % 525 ≠ 491 := by
  have hx : s.drawX.toNat = n % 800 := ht.hc
  have hy : s.drawY.toNat = n / 800 % 525 := ht.vc
  have hlow : s.vs = false ↔ 489 ≤ (n - 1) / 800 % 525 ∧ (n - 1) / 800 % 525 ≤ 490 := by
    rw [← Bool.not_eq_true, ht.vs, and_iff_right hn, not_not]
  have hpulse : (s.vs = false ↔ s.drawY.toNat = 490 ∨ s.drawY.toNat = 491) ↔
      n % 800 = 0 ∨ n / 800 % 525 ≠ 489 ∧ n / 800 % 525 ≠ 491 := by
    rw [hlow, hy]
    omega
  refine ⟨fun h => hpulse.mp h.vs, fun h => ⟨hx, hy, ?_, hpulse.mpr h, blank_iff s⟩⟩
  rw [hx]
  exact hhs.trans (or_iff_right (by omega))

/-- After every number of pixel-clock edges the outputs have the closed form, but on the lines 489
and 491 in the first pixel only. -/
theorem closedForm_iff (n : ℕ) (hn : 1 ≤ n) :
    (∃ k, pixelEdges {} k = n) ∧ ∀ k, pixelEdges {} k = n →
      ((clk^[k] {}).ClosedForm n ↔
        n % 800 = 0 ∨ n / 800 % 525 ≠ 489 ∧ n / 800 % 525 ≠ 491) := by
  refine ⟨⟨2 * n, ?_⟩, fun k hk => ?_⟩
  · rw [(clkdiv_iterate (2 * n)).2]
    omega
  · obtain ⟨ht, hhs⟩ := timed_iterate k
    rw [hk] at ht hhs
    exact closedForm_of_timed hn ht hhs

/-- After the first edge. -/
theorem closedForm_one : (clk^[1] {}).ClosedForm 1 :=
  ((closedForm_iff 1 (Nat.le_refl 1)).2 1 rfl).mpr (by decide)

/-- On line 489, one pixel from its left end, the pulse has begun. -/
theorem vs_low_on_489 :
    pixelEdges {} (2 * 391201) = 391201 ∧ ¬(clk^[2 * 391201] {}).ClosedForm 391201 := by
  have hcount : pixelEdges {} (2 * 391201) = 391201 := (clkdiv_iterate _).2
  obtain ⟨ht, hhs⟩ := timed_iterate (2 * 391201)
  rw [hcount] at ht hhs
  refine ⟨hcount, ?_⟩
  rw [closedForm_of_timed (by decide) ht hhs]
  decide

end TetrisFpga.Display.Vga
