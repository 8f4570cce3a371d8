import TetrisFpga.Display.Keyboard
import TetrisFpga.Display.Lab62

/-!
# `lab62` between two presses of `Reset`

The port `Clk` of `game` is not connected, so a key is looked at only while `Reset` is pressed. Up
to the next press the game runs on its own: the key codes have no effect, and the columns go on with
every frame by the step that was latched, off the board and round their six bits. The monitor sees
nothing of it: its picture depends on the clock alone.

## Main results

- `Top.keys_ignored`: a run without its key codes
- `Top.columns_drift`: the columns as a function of the number of clock edges
- `Top.monitor_run`: the picture as a function of the number of clock edges
-/

namespace TetrisFpga.Lab62
open Machine Display Game

namespace Top

/-- No input of the run presses `Reset`. -/
abbrev NoPress (s : Top) (is : List Input) : Prop := Along next (fun s i => ¬s.PressesReset i) s is

/-! ## Without the key codes -/

/-- A game that has not seen a key. -/
def blind {p : Params} (s : State p) : State p := { s with keycode := 0 }

/-- Two designs that differ in the key code at most. -/
structure SameButKey (s t : Top) : Prop where
  vga : t.vga = s.vga
  game : blind t.game = blind s.game

theorem frameBlock_blind {p : Params} (s : State p) :
    frameBlock (blind s) = blind (frameBlock s) := by
  unfold frameBlock blind
  split_ifs <;> rfl

theorem moveYBlock_blind {p : Params} (s : State p) (cols : Fin 4 → BitVec 6) :
    moveYBlock (blind s) cols = blind (moveYBlock s cols) := by
  have hcollides : Collides (blind s) cols ↔ Collides s cols := Iff.rfl
  have hreset : (blind s).reset = s.reset := rfl
  unfold moveYBlock
  by_cases hr : s.reset = true
  · rw [if_pos (hreset.trans hr), if_pos hr]
    rfl
  · rw [if_neg hr, if_neg (by rwa [hreset])]
    by_cases hc : Collides s cols
    · rw [if_pos (hcollides.mpr hc), if_pos hc]
      rfl
    · rw [if_neg (mt hcollides.mp hc), if_neg hc]
      rfl

/-- `frame_clk` wakes no block that reads the key code. -/
theorem frameStep_blind {p : Params} (s : State p) (seen : Fin 4 → Bool) :
    frameStep (blind s) seen = blind (frameStep s seen) := by
  have hmove : MoveEdge (blind s) ↔ MoveEdge s := by
    rw [MoveEdge, MoveEdge, frameBlock_blind]
    rfl
  unfold frameStep
  dsimp only
  rw [frameBlock_blind]
  by_cases hm : MoveEdge s
  · rw [if_pos (hmove.mpr hm), if_pos hm]
    exact moveYBlock_blind { frameBlock s with blockX := (moveXBlock s).blockX } _
  · rw [if_neg (mt hmove.mp hm), if_neg hm]
    rfl

theorem SameButKey.reset {s t : Top} (h : SameButKey s t) : t.game.reset = s.game.reset := by
  have hreset := congrArg State.reset h.game
  exact hreset

/-- A level of `Reset` that is no press reaches nothing but the register of the input. -/
theorem reset_of_not_press {s : Top} {value : BitVec 2} (hno : ¬s.PressesReset (.key value)) :
    (s.next (.key value)).game = { s.game with reset := !value.getLsbD 0 } := by
  refine if_neg fun hrise => hno ?_
  rw [Bool.and_eq_true, Bool.not_eq_true', Bool.not_eq_true'] at hrise
  exact ⟨hrise.2, hrise.1⟩

theorem SameButKey.next {s t : Top} (h : SameButKey s t) {i : Input} (hs : ¬s.PressesReset i)
    (ht : ¬t.PressesReset i) : SameButKey (s.next i) (t.next i) := by
  cases i with
  | clk seen =>
    have hvga : t.vga = s.vga := h.vga
    have hedge : t.FrameEdge ↔ s.FrameEdge := by rw [FrameEdge, FrameEdge, hvga]
    refine ⟨congrArg Vga.clk hvga, ?_⟩
    show blind (if t.FrameEdge then frameStep t.game seen else t.game) =
      blind (if s.FrameEdge then frameStep s.game seen else s.game)
    by_cases he : s.FrameEdge
    · rw [if_pos he, if_pos (hedge.mpr he), ← frameStep_blind, ← frameStep_blind, h.game]
    · rw [if_neg he, if_neg (mt hedge.mp he)]
      exact h.game
  | key value =>
    refine ⟨h.vga, ?_⟩
    rw [reset_of_not_press hs, reset_of_not_press ht]
    exact congrArg (fun g : State {} => { g with reset := !value.getLsbD 0 }) h.game
  | keycode code => exact ⟨h.vga, h.game⟩

/-- The inputs other than the key codes. -/
def silent (is : List Input) : List Input :=
  is.filter fun
    | .keycode _ => false
    | _ => true

theorem sameButKey_silent {s t : Top} (h : SameButKey s t) {is : List Input} (hno : NoPress s is) :
    SameButKey (run next s is) (run next t (silent is)) := by
  induction is generalizing s t with
  | nil => exact h
  | cons i is ih =>
    obtain ⟨hs, hrest⟩ := hno
    have ht : ¬t.PressesReset i := by
      cases i with
      | key value =>
        show ¬(t.game.reset = false ∧ _)
        rw [h.reset]
        exact hs
      | clk seen => exact id
      | keycode code => exact id
    cases i with
    | clk seen => exact ih (h.next hs ht) hrest
    | key value => exact ih (h.next hs ht) hrest
    | keycode code =>
      have hblind : SameButKey (s.next (.keycode code)) t := ⟨h.vga, h.game⟩
      exact ih hblind hrest

/-- Up to the next press of `Reset` the key codes have no effect: without them the picture, the
piece, the board and the counters are the same. -/
theorem keys_ignored (s : Top) (is : List Input) (hno : NoPress s is) :
    (run next s (silent is)).vga = (run next s is).vga ∧
      blind (run next s (silent is)).game = blind (run next s is).game := by
  have h := sameButKey_silent ⟨rfl, rfl⟩ hno
  exact ⟨h.vga, h.game⟩

theorem noPress_clk (s : Top) (is : List Input) (h : ∀ i ∈ is, ∃ seen, i = .clk seen) :
    NoPress s is := by
  refine along_of_forall_mem (fun i hi s => ?_) s
  obtain ⟨seen, rfl⟩ := h i hi
  exact id

/-- A key for the right, and a frame. -/
theorem keys_ignored_right :
    391201 ∈ frameEdges (powerUp 3 0) 0
        (.keycode 0x07 :: List.replicate 782402 (.clk fun _ => false)) ∧
      blind (run next (powerUp 3 0)
          (silent (.keycode 0x07 :: List.replicate 782402 (.clk fun _ => false)))).game =
        blind (run next (powerUp 3 0)
          (.keycode 0x07 :: List.replicate 782402 (.clk fun _ => false))).game := by
  -- as before, no list of that length is built
  have hall : ∀ n, 782402 ≤ n →
      391201 ∈ frameEdges (powerUp 3 0) 0
          (.keycode 0x07 :: List.replicate n (.clk fun _ => false)) ∧
        blind (run next (powerUp 3 0)
            (silent (.keycode 0x07 :: List.replicate n (.clk fun _ => false)))).game =
          blind (run next (powerUp 3 0)
            (.keycode 0x07 :: List.replicate n (.clk fun _ => false))).game := by
    intro n hn
    constructor
    · refine (mem_frameEdges_iff Vga.timed_powerUp _ _).mpr ⟨by decide, ?_, rfl⟩
      rw [pixelsAfter_powerUp]
      show _ ≤ (clocks (List.replicate n (.clk fun _ => false)) + 1) / 2
      rw [clocks_replicate]
      omega
    · have hclk : ∀ i ∈ List.replicate n (Input.clk fun _ => false), ∃ seen, i = .clk seen :=
        fun i hi => ⟨_, List.eq_of_mem_replicate hi⟩
      have hno : NoPress (powerUp 3 0) (.keycode 0x07 :: List.replicate n (.clk fun _ => false)) :=
        ⟨id, noPress_clk _ _ hclk⟩
      exact (keys_ignored (powerUp 3 0) _ hno).2
  exact hall _ (Nat.le_refl _)

/-! ## The columns -/

/-- The frames that have ended after `n` pixel-clock edges. -/
def framesEnded (n : ℕ) : ℕ := (n + 28799) / 420000

theorem frameEdges_length {s : Top} {n : ℕ} (h : s.vga.Timed n) (is : List Input) :
    framesEnded n + (frameEdges s n is).length = framesEnded (pixelsAfter s n is) := by
  induction is generalizing s n with
  | nil => exact Nat.add_zero (framesEnded n)
  | cons i is ih =>
    have hrest := ih (timed_next h i)
    have hrises := raisesFrame_iff h i
    have hframe : Vga.frame = 420000 := rfl
    rw [hframe] at hrises
    rw [frameEdges, pixelsAfter, ← hrest]
    unfold framesEnded
    by_cases hp : s.RaisesPixel i
    · have hpixels : s.pixels n i = n + 1 := if_pos hp
      rw [hpixels]
      by_cases hmod : (n + 1) % 420000 = 391201
      · rw [if_pos (hrises.mpr ⟨hp, hmod⟩), List.length_cons]
        omega
      · rw [if_neg fun hr => hmod (hrises.mp hr).2]
        omega
    · have hpixels : s.pixels n i = n := if_neg hp
      rw [if_neg fun hr => hp (hrises.mp hr).1, hpixels]

/-- The columns go on by the motion register with every frame. -/
theorem columns_run {s : Top} (n : ℕ) {m : ℤ} (hm : m = -1 ∨ m = 0 ∨ m = 1)
    (hmotion : s.game.blockXMotion = BitVec.ofInt 7 m) {is : List Input} (hno : NoPress s is)
    (i : Fin 4) : (((run next s is).game.blockX i).toNat : ℤ) =
      ((s.game.blockX i).toNat + m * (frameEdges s n is).length) % 64 := by
  induction is generalizing s n with
  | nil =>
    have hbits := (s.game.blockX i).isLt
    show ((s.game.blockX i).toNat : ℤ) = ((s.game.blockX i).toNat + m * (0 : ℕ)) % 64
    omega
  | cons j is ih =>
    obtain ⟨hj, hrest⟩ := hno
    have hnext : (s.next j).game.blockXMotion = BitVec.ofInt 7 m := by
      rw [motion_next, if_neg hj, hmotion]
    rw [run_cons, ih (s.pixels n j) hnext hrest, frameEdges]
    by_cases hr : s.RaisesFrame j
    · cases j with
      | clk seen =>
        rw [if_pos hr, List.length_cons, frameEdge_columns hr, hmotion, toNat_add_motion hm]
        push_cast
        rw [Int.emod_add_emod, mul_add, mul_one]
        congr 1
        omega
      | key value => exact hr.elim
      | keycode code => exact hr.elim
    · rw [if_neg hr]
      have hx : (s.next j).game.blockX = s.game.blockX := congrArg Prod.fst (positions_eq hr)
      rw [hx]

/-! ## The clock -/

theorem pixelsAfter_append (s : Top) (n : ℕ) (is js : List Input) :
    pixelsAfter s n (is ++ js) = pixelsAfter (run next s is) (pixelsAfter s n is) js := by
  induction is generalizing s n with
  | nil => rfl
  | cons i is ih => exact ih (s.next i) (s.pixels n i)

theorem timed_powerUp_run (key : BitVec 2) (keycode : BitVec 8) (is : List Input) :
    (run next (powerUp key keycode) is).vga.Timed ((clocks is + 1) / 2) ∧
      (run next (powerUp key keycode) is).vga.HsTimed ((clocks is + 1) / 2) := by
  rw [vga_run, ← (Vga.clkdiv_iterate (clocks is)).2]
  exact Vga.timed_iterate (clocks is)

/-- Up to the next press of `Reset` the columns depend on the clock alone: they go on with every
frame by what the key asked for at the last press, off the board and round their six bits. -/
theorem columns_drift (key : BitVec 2) (keycode : BitVec 8) (is js : List Input)
    (hno : NoPress (run next (powerUp key keycode) is) js) (i : Fin 4) :
    (((run next (powerUp key keycode) (is ++ js)).game.blockX i).toNat : ℤ) =
      (((run next (powerUp key keycode) is).game.blockX i).toNat +
        latched (powerUp key keycode) 0 is *
          (framesEnded ((clocks (is ++ js) + 1) / 2) - framesEnded ((clocks is + 1) / 2))) %
        64 := by
  have hmotion := motion_run (s := powerUp key keycode) (m := 0) rfl is
  have hcolumns := columns_run ((clocks is + 1) / 2) (latched_mem (.inr (.inl rfl)) _ is) hmotion
    hno i
  have hframes := frameEdges_length (timed_powerUp_run key keycode is).1 js
  have hpixels := pixelsAfter_append (powerUp key keycode) 0 is js
  rw [pixelsAfter_powerUp, pixelsAfter_powerUp] at hpixels
  rw [← hpixels] at hframes
  rw [run_append, hcolumns, ← hframes]
  push_cast
  rw [add_sub_cancel_left]

/-- `Reset` is pressed with the key for the right, and the first frame ends. -/
theorem columns_drift_right :
    (((run next (powerUp 1 0x07)
      ([.key 0] ++ List.replicate 782401 (.clk fun _ => false))).game.blockX 0).toNat : ℤ) = 1 := by
  -- the number is kept as a variable, so that no list of that length is built
  have hall : ∀ n, n = 782401 → (((run next (powerUp 1 0x07)
      ([.key 0] ++ List.replicate n (.clk fun _ => false))).game.blockX 0).toNat : ℤ) = 1 := by
    intro n hn
    have hno := noPress_clk (run next (powerUp 1 0x07) [.key 0])
      (List.replicate n (.clk fun _ => false)) fun i hi => ⟨_, List.eq_of_mem_replicate hi⟩
    have hclocks : clocks ([.key 0] ++ List.replicate n (.clk fun _ => false)) = n :=
      clocks_replicate n _
    have hlatched : latched (powerUp 1 0x07) 0 [.key 0] = 1 := by decide
    have hframes : framesEnded ((n + 1) / 2) = 1 := by
      rw [hn]
      rfl
    have hcolumn : ((run next (powerUp 1 0x07) [.key 0]).game.blockX 0).toNat = 0 := by decide
    rw [columns_drift 1 0x07 [.key 0] _ hno 0, hclocks, hlatched, hframes, hcolumn]
    rfl
  exact hall _ rfl

/-! ## The monitor -/

/-- What the monitor is sent. -/
structure Signal where
  red : BitVec 4
  green : BitVec 4
  blue : BitVec 4
  hs : Bool
  vs : Bool
  deriving DecidableEq

/-- `VGA_R`, `VGA_G` and `VGA_B` are the upper halves of the colours. -/
def sent (c : Rgb) (hs vs : Bool) : Signal where
  red := c.red.extractLsb' 4 4
  green := c.green.extractLsb' 4 4
  blue := c.blue.extractLsb' 4 4
  hs := hs
  vs := vs

def signal (s : Top) : Signal :=
  sent (Lab62.display s.game s.vga.drawX s.vga.drawY) s.vga.hs s.vga.vs

/-- Two stripes, after `n` edges of the pixel clock. -/
def picture (n : ℕ) : Signal :=
  sent (if 300 < n % 800 then blockColor else backgroundColor)
    (!decide (n = 0 ∨ 656 ≤ n % 800 ∧ n % 800 < 752))
    (decide (1 ≤ n ∧ ¬(489 ≤ (n - 1) / 800 % 525 ∧ (n - 1) / 800 % 525 ≤ 490)))

/-- What the monitor is sent depends on the clock alone: in every run the picture is two stripes,
whatever the keys and `Reset` do and wherever the blocks are. -/
theorem monitor_run (key : BitVec 2) (keycode : BitVec 8) (is : List Input) :
    signal (run next (powerUp key keycode) is) = picture ((clocks is + 1) / 2) := by
  obtain ⟨htimed, hhs⟩ := timed_powerUp_run key keycode is
  generalize run next (powerUp key keycode) is = s at *
  generalize (clocks is + 1) / 2 = n at *
  have hx : s.vga.drawX.toNat = n % 800 := htimed.hc
  have hcolor : Lab62.display s.game s.vga.drawX s.vga.drawY =
      if 300 < n % 800 then blockColor else backgroundColor := by
    split
    · rename_i hright
      exact (display_eq_blockColor_iff _ _ _).mpr (by omega)
    · rename_i hleft
      exact display_eq_backgroundColor _ _ _ (by omega)
  have hhs' : s.vga.hs = !decide (n = 0 ∨ 656 ≤ n % 800 ∧ n % 800 < 752) := by
    by_cases hpulse : n = 0 ∨ 656 ≤ n % 800 ∧ n % 800 < 752
    · rw [decide_eq_true hpulse, hhs.mpr hpulse]
      rfl
    · rw [decide_eq_false hpulse]
      exact Bool.eq_true_of_not_eq_false fun hlow => hpulse (hhs.mp hlow)
  have hvs' : s.vga.vs =
      decide (1 ≤ n ∧ ¬(489 ≤ (n - 1) / 800 % 525 ∧ (n - 1) / 800 % 525 ≤ 490)) :=
    Bool.eq_iff_iff.mpr (htimed.vs.trans decide_eq_true_iff.symm)
  rw [signal, picture, hcolor, hhs', hvs']

end Top

end TetrisFpga.Lab62
