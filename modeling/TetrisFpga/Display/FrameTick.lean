import Mathlib.Data.List.Chain
import TetrisFpga.Display.Timing
import TetrisFpga.Game.Logic

/-!
# The clock of the game as wired in `lab62`

`lab62.sv` clocks `game` with the vertical sync of `vga_ctrl`: `frame_clk` is `~VGA_VS`. The port
`Clk` of `game` is not connected, and the `Reset` of `vga_ctrl` is 0. So the game moves on line 489
and the picture ends on line 479.
-/

namespace TetrisFpga.Lab62
open Machine Display

/-- The two instances. -/
structure Top where
  vga : Vga
  game : Game.State {}

/-- A rising edge of the clock, or a change of `KEY` or of the key code. If the game moves,
`seen` says which new columns `MoveY_Block` sees. -/
inductive Input
  | clk (seen : Fin 4 → Bool)
  | key (value : BitVec 2)
  | keycode (code : BitVec 8)

namespace Top

/-- All registers 0, the inputs at any level. -/
def powerUp (key : BitVec 2) (keycode : BitVec 8) : Top where
  vga := {}
  game := Game.powerUp {} (!key.getLsbD 0) keycode

/-- `frame_clk` rises with the coming edge of the clock: `VGA_VS` falls. -/
def FrameEdge (s : Top) : Prop := s.vga.vs = true ∧ s.vga.clk.vs = false

instance (s : Top) : Decidable s.FrameEdge := inferInstanceAs (Decidable (_ ∧ _))

def next (s : Top) : Input → Top
  | .clk seen =>
    { vga := s.vga.clk
      game := if s.FrameEdge then Game.next s.game (.frameClk seen) else s.game }
  | .key value => { s with game := Game.next s.game (.reset (!value.getLsbD 0)) }
  | .keycode code => { s with game := Game.next s.game (.keycode code) }

/-- `blockX1Pos` .. `blockX4Pos` and `blockY1Pos` .. `blockY4Pos`. -/
def positions (s : Top) : (Fin 4 → BitVec 6) × (Fin 4 → BitVec 7) :=
  (s.game.blockX, s.game.blockY)

/-- Does this input raise the pixel clock? -/
def RaisesPixel (s : Top) : Input → Prop
  | .clk _ => s.vga.PixelEdge
  | _ => False

instance (s : Top) : ∀ i, Decidable (s.RaisesPixel i)
  | .clk _ => inferInstanceAs (Decidable s.vga.PixelEdge)
  | .key _ => .isFalse id
  | .keycode _ => .isFalse id

/-- Does this input raise `frame_clk`? -/
def RaisesFrame (s : Top) : Input → Prop
  | .clk _ => s.FrameEdge
  | _ => False

instance (s : Top) : ∀ i, Decidable (s.RaisesFrame i)
  | .clk _ => inferInstanceAs (Decidable s.FrameEdge)
  | .key _ => .isFalse id
  | .keycode _ => .isFalse id

/-- The number of pixel-clock edges after this input, of which `n` came before it. -/
def pixels (s : Top) (n : ℕ) (i : Input) : ℕ := if s.RaisesPixel i then n + 1 else n

/-- The number of pixel-clock edges, `n` before the run, at each rising edge of `frame_clk`. -/
def frameEdges (s : Top) (n : ℕ) : List Input → List ℕ
  | [] => []
  | i :: is =>
    if s.RaisesFrame i then s.pixels n i :: frameEdges (s.next i) (s.pixels n i) is
    else frameEdges (s.next i) (s.pixels n i) is

/-! ## When the game moves -/

/-- The picture is at its `n`-th pixel-clock edge. -/
theorem timed_next {s : Top} {n : ℕ} (h : s.vga.Timed n) (i : Input) :
    (s.next i).vga.Timed (s.pixels n i) := by
  cases i with
  | clk seen =>
    show s.vga.clk.Timed (if s.vga.PixelEdge then n + 1 else n)
    obtain ⟨hp, ht⟩ | ⟨hp, ht, -⟩ := h.clk
    · rwa [if_pos hp]
    · rwa [if_neg hp]
  | key value => exact h
  | keycode code => exact h

/-- `frame_clk` rises at one pixel-clock edge of a frame. -/
theorem raisesFrame_iff {s : Top} {n : ℕ} (h : s.vga.Timed n) (i : Input) :
    s.RaisesFrame i ↔ s.RaisesPixel i ∧ (n + 1) % Vga.frame = 391201 := by
  cases i with
  | clk seen =>
    obtain ⟨hp, ht⟩ | ⟨hp, -, hvs⟩ := h.clk
    · exact (h.vs_falls_iff ht).trans (and_iff_right hp).symm
    · refine iff_of_false (fun hf => ?_) fun hf => hp hf.1
      exact absurd ((hvs.trans hf.1).symm.trans hf.2) (by decide)
  | key value => exact (and_iff_left_of_imp False.elim).symm
  | keycode code => exact (and_iff_left_of_imp False.elim).symm

/-- The edges of a run come at the same pixel of a frame, the first within a frame, and each a
frame behind the one before. -/
theorem frameEdges_spaced {s : Top} {n : ℕ} (h : s.vga.Timed n) (is : List Input) :
    (frameEdges s n is).IsChain (fun a b => b = a + Vga.frame) ∧
      ∀ r ∈ (frameEdges s n is).head?, r % Vga.frame = 391201 ∧ n < r ∧ r ≤ n + Vga.frame := by
  have hframe : Vga.frame = 420000 := rfl
  induction is generalizing s n with
  | nil => exact ⟨.nil, nofun⟩
  | cons i is ih =>
    obtain ⟨hchain, hhead⟩ := ih (timed_next h i)
    have hrises := raisesFrame_iff h i
    rw [hframe] at hhead hrises ⊢
    rw [frameEdges]
    by_cases hr : s.RaisesFrame i
    · obtain ⟨hp, hmod⟩ := hrises.mp hr
      have hpixels : s.pixels n i = n + 1 := if_pos hp
      rw [hpixels] at hchain hhead
      rw [if_pos hr, hpixels]
      refine ⟨List.isChain_cons.mpr ⟨fun r hmem => ?_, hchain⟩, fun r hmem => ?_⟩
      · have hnext := hhead r hmem
        omega
      · obtain rfl : n + 1 = r := by simpa using hmem
        exact ⟨hmod, by omega, by omega⟩
    · rw [if_neg hr]
      refine ⟨hchain, fun r hmem => ?_⟩
      have hnext := hhead r hmem
      by_cases hp : s.RaisesPixel i
      · have hpixels : s.pixels n i = n + 1 := if_pos hp
        have hmod : (n + 1) % 420000 ≠ 391201 := fun heq => hr (hrises.mpr ⟨hp, heq⟩)
        omega
      · have hpixels : s.pixels n i = n := if_neg hp
        omega

/-- The number of pixel-clock edges after a run. -/
def pixelsAfter (s : Top) (n : ℕ) : List Input → ℕ
  | [] => n
  | i :: is => pixelsAfter (s.next i) (s.pixels n i) is

theorem le_pixelsAfter (s : Top) (n : ℕ) (is : List Input) : n ≤ pixelsAfter s n is := by
  induction is generalizing s n with
  | nil => exact Nat.le_refl n
  | cons i is ih =>
    refine Nat.le_trans ?_ (ih (s.next i) (s.pixels n i))
    unfold pixels
    split <;> omega

/-- No frame is left out: there is an edge at that pixel of every frame. -/
theorem mem_frameEdges_iff {s : Top} {n : ℕ} (h : s.vga.Timed n) (is : List Input) (r : ℕ) :
    r ∈ frameEdges s n is ↔ n < r ∧ r ≤ pixelsAfter s n is ∧ r % Vga.frame = 391201 := by
  induction is generalizing s n with
  | nil => exact iff_of_false nofun fun hr => absurd hr.1 (Nat.not_lt.mpr hr.2.1)
  | cons i is ih =>
    have hrest := ih (timed_next h i)
    have hrises := raisesFrame_iff h i
    have hle := le_pixelsAfter (s.next i) (s.pixels n i) is
    rw [frameEdges, pixelsAfter]
    by_cases hp : s.RaisesPixel i
    · have hpixels : s.pixels n i = n + 1 := if_pos hp
      rw [hpixels] at hrest hle ⊢
      by_cases hmod : (n + 1) % Vga.frame = 391201
      · rw [if_pos (hrises.mpr ⟨hp, hmod⟩), List.mem_cons, hrest]
        constructor
        · rintro (rfl | hr)
          · exact ⟨Nat.lt_succ_self n, hle, hmod⟩
          · exact ⟨by omega, hr.2⟩
        · rintro ⟨hlt, hr⟩
          by_cases heq : r = n + 1
          · exact .inl heq
          · exact .inr ⟨by omega, hr⟩
      · rw [if_neg fun hr => hmod (hrises.mp hr).2, hrest]
        refine ⟨fun hr => ⟨by omega, hr.2⟩, fun ⟨hlt, hr⟩ => ⟨?_, hr⟩⟩
        have hne : r ≠ n + 1 := fun heq => hmod (heq ▸ hr.2)
        omega
    · have hpixels : s.pixels n i = n := if_neg hp
      rw [if_neg fun hr => hp (hrises.mp hr).1, hpixels]
      rw [hpixels] at hrest
      exact hrest

/-! ## The clock -/

/-- The edges of the clock in a run. -/
def clocks : List Input → ℕ
  | [] => 0
  | .clk _ :: is => clocks is + 1
  | _ :: is => clocks is

theorem clocks_replicate (n : ℕ) (seen : Fin 4 → Bool) :
    clocks (List.replicate n (.clk seen)) = n := by
  induction n with
  | zero => rfl
  | succ n ih => exact congrArg (· + 1) ih

/-- The design runs with the clock. -/
theorem vga_run (s : Top) (is : List Input) :
    (run next s is).vga = Vga.clk^[clocks is] s.vga := by
  induction is generalizing s with
  | nil => rfl
  | cons i is ih =>
    rw [run_cons, ih]
    cases i <;> rfl

theorem pixelsAfter_eq (s : Top) (n : ℕ) (is : List Input) :
    pixelsAfter s n is = n + s.vga.pixelEdges (clocks is) := by
  induction is generalizing s n with
  | nil => rfl
  | cons i is ih =>
    rw [pixelsAfter, ih]
    cases i with
    | clk seen =>
      have hpixels : s.pixels n (.clk seen) = n + if s.vga.PixelEdge then 1 else 0 := by
        by_cases hp : s.vga.PixelEdge
        · rw [if_pos hp]
          exact if_pos hp
        · rw [if_neg hp]
          exact if_neg hp
      rw [hpixels, clocks, Vga.pixelEdges_succ, Nat.add_assoc]
      rfl
    | key value => rfl
    | keycode code => rfl

/-- The pixel clock has half the rate of the clock. -/
theorem pixelsAfter_powerUp (key : BitVec 2) (keycode : BitVec 8) (is : List Input) :
    pixelsAfter (powerUp key keycode) 0 is = (clocks is + 1) / 2 := by
  rw [pixelsAfter_eq, Nat.zero_add]
  exact (Vga.clkdiv_iterate (clocks is)).2

/-! ## When the positions change -/

/-- `Reset` alone moves nothing: its blocks write other registers. -/
theorem positions_reset (g : Game.State {}) (level : Bool) :
    (Game.next g (.reset level)).blockX = g.blockX ∧
      (Game.next g (.reset level)).blockY = g.blockY := by
  have hframe (g : Game.State {}) :
      (Game.frameBlock g).blockX = g.blockX ∧ (Game.frameBlock g).blockY = g.blockY := by
    rw [Game.frameBlock_eq]
    exact ⟨rfl, rfl⟩
  rw [Game.next]
  split
  · exact hframe { g with reset := level }
  · exact ⟨rfl, rfl⟩

/-- Only an edge of `frame_clk` changes the positions. -/
theorem positions_eq {s : Top} {i : Input} (h : ¬s.RaisesFrame i) :
    (s.next i).positions = s.positions := by
  cases i with
  | clk seen =>
    have hgame : (s.next (.clk seen)).game = s.game := if_neg h
    rw [positions, positions, hgame]
  | key value =>
    obtain ⟨hx, hy⟩ := positions_reset s.game (!value.getLsbD 0)
    exact Prod.ext hx hy
  | keycode code => rfl

/-- The positions change below the picture. -/
theorem positions_change {s : Top} {n : ℕ} (h : s.vga.Timed n) {i : Input}
    (hne : (s.next i).positions ≠ s.positions) :
    480 ≤ s.vga.drawY.toNat ∧ 480 ≤ (s.next i).vga.drawY.toNat := by
  have hr : s.RaisesFrame i := by
    by_contra hr
    exact hne (positions_eq hr)
  obtain ⟨hp, hmod⟩ := (raisesFrame_iff h i).mp hr
  have hnext := timed_next h i
  rw [pixels, if_pos hp] at hnext
  have hframe : Vga.frame = 420000 := rfl
  rw [Vga.drawY, Vga.drawY, h.vc, hnext.vc]
  rw [hframe] at hmod
  omega

/-- A run that stays in the picture shows one position of the blocks. -/
theorem positions_run {s : Top} {n : ℕ} (h : s.vga.Timed n) {is : List Input}
    (hpic : Along next (fun s _ => s.vga.drawY.toNat < 480) s is) :
    (run next s is).positions = s.positions := by
  -- an edge that changes a position is below the picture, which the run never leaves
  induction is generalizing s n with
  | nil => rfl
  | cons i is ih =>
    refine (ih (timed_next h i) hpic.2).trans ?_
    by_contra hne
    have hbelow := (positions_change h hne).1
    exact absurd hpic.1 (Nat.not_lt.mpr hbelow)

/-- After a run from power-up the picture is at some pixel-clock edge. -/
theorem timed_run (key : BitVec 2) (keycode : BitVec 8) (is : List Input) :
    ∃ n, (run next (powerUp key keycode) is).vga.Timed n := by
  have hstep (s : Top) (i : Input) : (∃ n, s.vga.Timed n) → ∃ n, (s.next i).vga.Timed n :=
    fun ⟨n, h⟩ => ⟨_, timed_next h i⟩
  exact run_invariant hstep ⟨0, Vga.timed_powerUp⟩ is

/-- The game has one tick a frame, and none while the picture is shown: the edges of `frame_clk`
are a frame of pixels apart and no frame is without one, the positions change below the picture
only, and so they are the same all over a picture. -/
theorem one_tick_a_frame (key : BitVec 2) (keycode : BitVec 8) (is : List Input) :
    (frameEdges (powerUp key keycode) 0 is).IsChain (fun a b => b = a + 800 * 525) ∧
    (∀ r, r ∈ frameEdges (powerUp key keycode) 0 is ↔
      0 < r ∧ r ≤ (clocks is + 1) / 2 ∧ r % (800 * 525) = 391201) ∧
    (∀ i, (next (run next (powerUp key keycode) is) i).positions ≠
        (run next (powerUp key keycode) is).positions →
      480 ≤ (run next (powerUp key keycode) is).vga.drawY.toNat ∧
        480 ≤ (next (run next (powerUp key keycode) is) i).vga.drawY.toNat) ∧
    ∀ js, Along next (fun s _ => s.vga.drawY.toNat < 480)
        (run next (powerUp key keycode) is) js →
      (run next (powerUp key keycode) (is ++ js)).positions =
        (run next (powerUp key keycode) is).positions := by
  obtain ⟨n, hn⟩ := timed_run key keycode is
  refine ⟨(frameEdges_spaced Vga.timed_powerUp is).1, fun r => ?_,
    fun i hne => positions_change hn hne, fun js hpic => ?_⟩
  · rw [← pixelsAfter_powerUp key keycode is]
    exact mem_frameEdges_iff Vga.timed_powerUp is r
  · rw [run_append]
    exact positions_run hn hpic

/-- The first two ticks. -/
theorem one_tick_a_frame_twice :
    391201 ∈ frameEdges (powerUp 3 0) 0 (List.replicate 1622402 (.clk fun _ => false)) ∧
      811201 ∈ frameEdges (powerUp 3 0) 0 (List.replicate 1622402 (.clk fun _ => false)) := by
  -- the number is kept as a variable, so that no list of that length is built
  have hall : ∀ n r, 2 * r ≤ n → 0 < r → r % (800 * 525) = 391201 →
      r ∈ frameEdges (powerUp 3 0) 0 (List.replicate n (.clk fun _ => false)) := by
    intro n r hn hpos hmod
    refine ((one_tick_a_frame 3 0 _).2.1 r).mpr ⟨hpos, ?_, hmod⟩
    rw [clocks_replicate]
    omega
  exact ⟨hall _ _ (by decide) (by decide) rfl, hall _ _ (by decide) (by decide) rfl⟩

end Top

end TetrisFpga.Lab62
