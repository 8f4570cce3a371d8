import Mathlib.Data.Nat.Notation

/-!
# The module `vga_controller`

Register-level model of `VGA_controller.sv`. The counters and the two sync registers are clocked by
`clkdiv`, which the module derives from `Clk`. The vertical sync is registered, so it is low one
pixel after the lines for which it is computed.
-/

namespace TetrisFpga.Display

/-- The input `Reset` at its present level, and the registers. -/
structure Vga where
  reset : Bool := false
  clkdiv : Bool := false
  hc : BitVec 10 := 0
  vc : BitVec 10 := 0
  hs : Bool := false
  vs : Bool := false
  deriving DecidableEq

namespace Vga

/-- `hpixels`, the last of 800 pixels. -/
def hpixels : BitVec 10 := 0b1100011111

/-- `vlines`, the last of 525 lines. -/
def vlines : BitVec 10 := 0b1000001100

/-- `counter_proc`. -/
def counterProc (s : Vga) : Vga :=
  if s.reset then { s with hc := 0, vc := 0 }
  else if s.hc = hpixels then { s with hc := 0, vc := if s.vc = vlines then 0 else s.vc + 1 }
  else { s with hc := s.hc + 1 }

/-- The value that `hsync_proc` writes. The sum has the 32 bits of its literal. -/
def hsyncProc (s : Vga) : Bool :=
  if s.reset then false
  else !decide (0b1010010000 ≤ s.hc.toNat + 1 ∧ s.hc.toNat + 1 < 0b1011110000)

/-- The value that `vsync_proc` writes. -/
def vsyncProc (s : Vga) : Bool :=
  if s.reset then false
  else !decide (s.vc.toNat + 1 = 0b111101010 ∨ s.vc.toNat + 1 = 0b111101011)

/-- What a rising `clkdiv` or `Reset` wakes: the assignments are nonblocking. -/
def pixelStep (s : Vga) : Vga := { counterProc s with hs := hsyncProc s, vs := vsyncProc s }

/-- Does the coming edge of `Clk` raise `clkdiv`, the pixel clock? -/
def PixelEdge (s : Vga) : Prop := s.reset = false ∧ s.clkdiv = false

instance (s : Vga) : Decidable s.PixelEdge := inferInstanceAs (Decidable (_ ∧ _))

/-- A rising edge of `Clk`. -/
def clk (s : Vga) : Vga :=
  let s₁ := { s with clkdiv := if s.reset then false else !s.clkdiv }
  if s.PixelEdge then pixelStep s₁ else s₁

def drawX (s : Vga) : BitVec 10 := s.hc

def drawY (s : Vga) : BitVec 10 := s.vc

/-! ## The timing -/

/-- The pixel-clock edges of a frame. -/
def frame : ℕ := 800 * 525

/-- The registers after `n` pixel-clock edges without `Reset`. -/
structure Timed (s : Vga) (n : ℕ) : Prop where
  reset : s.reset = false
  hc : s.hc.toNat = n % 800
  vc : s.vc.toNat = n / 800 % 525
  vs : s.vs = true ↔ 1 ≤ n ∧ ¬(489 ≤ (n - 1) / 800 % 525 ∧ (n - 1) / 800 % 525 ≤ 490)

theorem timed_powerUp : Timed {} 0 := ⟨rfl, rfl, rfl, by decide⟩

/-- Whatever the module does, the counters do not depend on the pixel clock's level. -/
theorem Timed.setClkdiv {s : Vga} {n : ℕ} (h : s.Timed n) (level : Bool) :
    Timed { s with clkdiv := level } n := ⟨h.reset, h.hc, h.vc, h.vs⟩

theorem pixelStep_vs {s : Vga} {n : ℕ} (h : s.Timed n) :
    (pixelStep s).vs = true ↔ ¬(489 ≤ n / 800 % 525 ∧ n / 800 % 525 ≤ 490) := by
  show vsyncProc s = true ↔ _
  rw [vsyncProc, if_neg (by simp [h.reset]), h.vc, Bool.not_eq_true', decide_eq_false_iff_not]
  omega

theorem Timed.pixelStep {s : Vga} {n : ℕ} (h : s.Timed n) : (pixelStep s).Timed (n + 1) := by
  have hreset : ¬s.reset = true := by simp [h.reset]
  have hcount : (counterProc s).reset = false ∧ (counterProc s).hc.toNat = (n + 1) % 800 ∧
      (counterProc s).vc.toNat = (n + 1) / 800 % 525 := by
    have hhc := h.hc
    have hvc := h.vc
    rw [counterProc, if_neg hreset]
    by_cases hpix : s.hc = hpixels
    · rw [if_pos hpix]
      rw [hpix] at hhc
      have hlast : n % 800 = 799 := hhc.symm
      refine ⟨h.reset, by show 0 = _; omega, ?_⟩
      by_cases hline : s.vc = vlines
      · rw [hline] at hvc
        have hend : n / 800 % 525 = 524 := hvc.symm
        show (if s.vc = vlines then 0 else s.vc + 1 : BitVec 10).toNat = _
        rw [if_pos hline]
        show 0 = _
        omega
      · have hnot : s.vc.toNat ≠ 524 := fun heq => hline (BitVec.eq_of_toNat_eq heq)
        show (if s.vc = vlines then 0 else s.vc + 1 : BitVec 10).toNat = _
        rw [if_neg hline, BitVec.toNat_add]
        show (s.vc.toNat + 1) % 1024 = _
        omega
    · rw [if_neg hpix]
      have hnot : s.hc.toNat ≠ 799 := fun heq => hpix (BitVec.eq_of_toNat_eq heq)
      refine ⟨h.reset, ?_, by show s.vc.toNat = _; omega⟩
      show (s.hc + 1).toNat = _
      rw [BitVec.toNat_add]
      show (s.hc.toNat + 1) % 1024 = _
      omega
  refine ⟨hcount.1, hcount.2.1, hcount.2.2, (pixelStep_vs h).trans ?_⟩
  rw [Nat.add_sub_cancel]
  exact (and_iff_right (Nat.le_add_left 1 n)).symm

/-- An edge of `Clk` is an edge of the pixel clock or changes nothing of the picture. -/
theorem Timed.clk {s : Vga} {n : ℕ} (h : s.Timed n) :
    s.PixelEdge ∧ s.clk.Timed (n + 1) ∨ ¬s.PixelEdge ∧ s.clk.Timed n ∧ s.clk.vs = s.vs := by
  by_cases hp : s.PixelEdge
  · refine .inl ⟨hp, ?_⟩
    rw [Vga.clk, if_pos hp]
    exact (h.setClkdiv _).pixelStep
  · refine .inr ⟨hp, ?_⟩
    rw [Vga.clk, if_neg hp]
    exact ⟨h.setClkdiv _, rfl⟩

/-- The vertical sync falls once a frame, on line 489. -/
theorem Timed.vs_falls_iff {s : Vga} {n : ℕ} (h : s.Timed n) (h' : s.clk.Timed (n + 1)) :
    s.vs = true ∧ s.clk.vs = false ↔ (n + 1) % frame = 391201 := by
  have hframe : frame = 420000 := rfl
  rw [h.vs, ← Bool.not_eq_true, h'.vs, hframe, Nat.add_sub_cancel]
  omega

end Vga

end TetrisFpga.Display
