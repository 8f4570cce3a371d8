import TetrisFpga.Display.FrameTick
import TetrisFpga.Display.Timing

/-!
# The keyboard and the columns in `lab62`

`Input_Block` samples the key code on `Clk` or a rising `Reset`, and `lab62.sv` leaves `Clk`
unconnected. So the motion register holds what the key asked for when `Reset` was last pressed, and
the columns follow the key only where it asks for the same now.
-/

namespace TetrisFpga.Lab62
open Machine Display Game

/-- How far the key moves the piece. -/
def keyMotion {p : Params} (s : State p) : ℤ :=
  if s.keycode = 0x04 ∧ ∀ i, 0 < s.blockX i then -1
  else if s.keycode = 0x07 ∧ ∀ i, s.blockX i < p.boardWidth then 1
  else 0

namespace Top

/-- The columns take the step that the key asks for. -/
def MovesByKey (before after : Top) : Prop :=
  ∀ i, ((after.game.blockX i).toNat : ℤ) = (before.game.blockX i).toNat + keyMotion before.game

/-- No edge of `frame_clk`, no change of the key code, and `Reset` low. -/
def InFrame (s : Top) : Input → Prop
  | .clk _ => ¬s.FrameEdge
  | .key value => value.getLsbD 0 = true
  | .keycode code => code = s.game.keycode

/-- Does this input raise `Reset`? -/
def PressesReset (s : Top) : Input → Prop
  | .key value => s.game.reset = false ∧ value.getLsbD 0 = false
  | _ => False

instance (s : Top) : ∀ i, Decidable (s.PressesReset i)
  | .clk _ => .isFalse id
  | .key _ => inferInstanceAs (Decidable (_ ∧ _))
  | .keycode _ => .isFalse id

/-- What the key asked for when `Reset` was last pressed in a run; `m` before the first press. -/
def latched (s : Top) (m : ℤ) : List Input → ℤ
  | [] => m
  | i :: is => latched (s.next i) (if s.PressesReset i then keyMotion s.game else m) is

/-! ## The motion register -/

theorem keyMotion_mem {p : Params} (s : State p) :
    keyMotion s = -1 ∨ keyMotion s = 0 ∨ keyMotion s = 1 := by
  unfold keyMotion
  split
  · exact .inl rfl
  · split
    · exact .inr (.inr rfl)
    · exact .inr (.inl rfl)

/-- `Input_Block` loads what the key asks for. -/
theorem inputBlock_motion {p : Params} (s : State p) :
    (inputBlock s).blockXMotion = BitVec.ofInt 7 (keyMotion s) := by
  have hleft : BitVec.ofInt 7 (-1) = -1 := by decide
  have hright : BitVec.ofInt 7 1 = 1 := by decide
  have hne : (0x07 : BitVec 8) ≠ 0x04 := by decide
  unfold inputBlock keyMotion
  by_cases ha : s.keycode = 0x04
  · by_cases hl : ∀ i, 0 < s.blockX i
    · simp only [ha, hl, implies_true, and_self, if_true, hleft]
    · simp only [ha, hl, and_false, hne.symm, false_and, if_true, if_false]
      rfl
  · by_cases hd : s.keycode = 0x07
    · by_cases hr : ∀ i, s.blockX i < p.boardWidth
      · simp only [hd, hne, hr, false_and, implies_true, and_self, if_true, if_false, hright]
      · simp only [hd, hne, hr, false_and, and_false, if_true, if_false]
        rfl
    · simp only [ha, hd, false_and, if_false]
      rfl

/-- Nothing but a press of `Reset` loads the register. -/
theorem motion_next (s : Top) (i : Input) :
    (s.next i).game.blockXMotion =
      if s.PressesReset i then BitVec.ofInt 7 (keyMotion s.game) else s.game.blockXMotion := by
  cases i with
  | clk seen =>
    show (if s.FrameEdge then frameStep s.game seen else s.game).blockXMotion = _
    have hno : ¬s.PressesReset (.clk seen) := id
    rw [if_neg hno]
    split
    · rw [frameStep_eq]
    · rfl
  | key value =>
    by_cases hp : s.PressesReset (.key value)
    · rw [if_pos hp]
      obtain ⟨hlow, hpress⟩ := hp
      have hrise : (!value.getLsbD 0 && !s.game.reset) = true := by rw [hlow, hpress]; rfl
      show (Game.next s.game (.reset (!value.getLsbD 0))).blockXMotion = _
      rw [Game.next, if_pos hrise, inputBlock_motion, frameBlock_eq]
      rfl
    · rw [if_neg hp]
      have hno : ¬(!value.getLsbD 0 && !s.game.reset) = true := by
        intro h
        refine hp ⟨?_, ?_⟩ <;> simp_all
      show (Game.next s.game (.reset (!value.getLsbD 0))).blockXMotion = _
      rw [Game.next, if_neg hno]
  | keycode code => rfl

/-- The register holds what was latched. -/
theorem motion_run {s : Top} {m : ℤ} (h : s.game.blockXMotion = BitVec.ofInt 7 m)
    (is : List Input) :
    (run next s is).game.blockXMotion = BitVec.ofInt 7 (latched s m is) := by
  induction is generalizing s m with
  | nil => exact h
  | cons i is ih =>
    refine ih ?_
    rw [motion_next, h]
    split <;> rfl

theorem latched_mem {m : ℤ} (h : m = -1 ∨ m = 0 ∨ m = 1) (s : Top) (is : List Input) :
    latched s m is = -1 ∨ latched s m is = 0 ∨ latched s m is = 1 := by
  induction is generalizing s m with
  | nil => exact h
  | cons i is ih =>
    refine ih ?_ _
    split
    · exact keyMotion_mem s.game
    · exact h

/-! ## A frame -/

/-- Between the edges of `frame_clk` the game stands still. -/
theorem game_frame {s : Top} (hreset : s.game.reset = false) {js : List Input}
    (hframe : Along next InFrame s js) : (run next s js).game = s.game := by
  induction js generalizing s with
  | nil => rfl
  | cons j js ih =>
    obtain ⟨hj, hrest⟩ := hframe
    have hsame : (s.next j).game = s.game := by
      cases j with
      | clk seen => exact if_neg hj
      | key value =>
        have hlevel : (!value.getLsbD 0) = s.game.reset := by
          rw [hreset, show value.getLsbD 0 = true from hj]
          rfl
        show Game.next s.game (.reset (!value.getLsbD 0)) = s.game
        rw [hlevel, Game.next, if_neg (by simp)]
      | keycode code =>
        obtain rfl : code = s.game.keycode := hj
        rfl
    rw [run_cons, ih (hsame ▸ hreset) hrest, hsame]

/-- The edge of `frame_clk` adds the motion register to the columns. -/
theorem frameEdge_columns {s : Top} (h : s.FrameEdge) (seen : Fin 4 → Bool) (i : Fin 4) :
    (s.next (.clk seen)).game.blockX i =
      s.game.blockX i + s.game.blockXMotion.setWidth 6 := by
  have hgame : (s.next (.clk seen)).game = frameStep s.game seen := if_pos h
  rw [hgame, ← moveXBlock_blockX, frameStep_eq]

/-- What the key asks for keeps the columns within their six bits. -/
theorem column_add_keyMotion {p : Params} (s : State p) (i : Fin 4) :
    0 ≤ ((s.blockX i).toNat : ℤ) + keyMotion s ∧ ((s.blockX i).toNat : ℤ) + keyMotion s < 64 := by
  have hbits := (s.blockX i).isLt
  unfold keyMotion
  split
  · rename_i hleft
    have hpos : 0 < (s.blockX i).toNat := hleft.2 i
    omega
  · split
    · rename_i hright
      have hlt : (s.blockX i).toNat < p.boardWidth.toNat := hright.2 i
      have hwidth := p.boardWidth.isLt
      omega
    · omega

theorem toNat_add_motion {m : ℤ} (hm : m = -1 ∨ m = 0 ∨ m = 1) (x : BitVec 6) :
    ((x + (BitVec.ofInt 7 m).setWidth 6).toNat : ℤ) = (x.toNat + m) % 64 := by
  have hbits := x.isLt
  obtain rfl | rfl | rfl := hm
  · have hconst : ((BitVec.ofInt 7 (-1)).setWidth 6).toNat = 63 := by decide
    rw [BitVec.toNat_add, hconst]
    omega
  · have hconst : ((BitVec.ofInt 7 0).setWidth 6).toNat = 0 := by decide
    rw [BitVec.toNat_add, hconst]
    omega
  · have hconst : ((BitVec.ofInt 7 1).setWidth 6).toNat = 1 := by decide
    rw [BitVec.toNat_add, hconst]
    omega

/-- The columns take the step that the key asks for if and only if the register holds it. -/
theorem movesByKey_iff {s : Top} (h : s.FrameEdge) {m : ℤ} (hm : m = -1 ∨ m = 0 ∨ m = 1)
    (hmotion : s.game.blockXMotion = BitVec.ofInt 7 m) (seen : Fin 4 → Bool) :
    MovesByKey s (s.next (.clk seen)) ↔ m = keyMotion s.game := by
  have hcolumn (i : Fin 4) : (((s.next (.clk seen)).game.blockX i).toNat : ℤ) =
      ((s.game.blockX i).toNat + m) % 64 := by
    rw [frameEdge_columns h, hmotion, toNat_add_motion hm]
  constructor
  · intro hmoves
    have hfirst := (hcolumn 0).symm.trans (hmoves 0)
    have hfits := column_add_keyMotion s.game 0
    have hkey := keyMotion_mem s.game
    omega
  · rintro rfl i
    have hfits := column_add_keyMotion s.game i
    rw [hcolumn, Int.emod_eq_of_lt hfits.1 hfits.2]

/-- At the end of a frame of any run the piece follows the key if and only if the key asks for what
it asked for when `Reset` was last pressed. -/
theorem movesByKey_iff_latched (key : BitVec 2) (keycode : BitVec 8) (is js : List Input)
    (hreset : (run next (powerUp key keycode) is).game.reset = false)
    (hframe : Along next InFrame (run next (powerUp key keycode) is) js)
    (hedge : (run next (powerUp key keycode) (is ++ js)).FrameEdge) (seen : Fin 4 → Bool) :
    MovesByKey (run next (powerUp key keycode) (is ++ js))
        (next (run next (powerUp key keycode) (is ++ js)) (.clk seen)) ↔
      latched (powerUp key keycode) 0 is =
        keyMotion (run next (powerUp key keycode) is).game := by
  have hgame : (run next (powerUp key keycode) (is ++ js)).game =
      (run next (powerUp key keycode) is).game := by
    rw [run_append]
    exact game_frame hreset hframe
  have hmotion := motion_run (s := powerUp key keycode) (m := 0) rfl is
  rw [movesByKey_iff hedge (latched_mem (.inr (.inl rfl)) _ is) (hgame ▸ hmotion) seen, hgame]

/-! ## The first frame -/

/-- The edges of the clock before the first edge of `frame_clk`. -/
def firstFrame : List Input := List.replicate 782400 (.clk fun _ => false)

/-- Up to the first edge of `frame_clk` the picture runs on its own. -/
theorem run_clk (key : BitVec 2) (keycode : BitVec 8) {k : ℕ} (hk : k ≤ 782400) :
    run next (powerUp key keycode) (List.replicate k (.clk fun _ => false)) =
        { vga := Vga.clk^[k] {}, game := (powerUp key keycode).game } ∧
      Along next InFrame (powerUp key keycode) (List.replicate k (.clk fun _ => false)) := by
  induction k with
  | zero => exact ⟨rfl, trivial⟩
  | succ k ih =>
    obtain ⟨hrun, halong⟩ := ih (by omega)
    have htimed := (Vga.timed_iterate k).1
    obtain ⟨hlevel, hcount⟩ := Vga.clkdiv_iterate k
    have hquiet : ¬FrameEdge { vga := Vga.clk^[k] {}, game := (powerUp key keycode).game } := by
      intro hedge
      obtain ⟨hp, hmod⟩ := (raisesFrame_iff htimed (.clk fun _ => false)).mp hedge
      have heven := of_decide_eq_false (hlevel.symm.trans hp.2)
      have hframe : Vga.frame = 420000 := rfl
      rw [hcount, hframe] at hmod
      omega
    rw [List.replicate_succ', run_append, along_append, hrun]
    refine ⟨?_, halong, hquiet, trivial⟩
    rw [run_cons, run_nil, Function.iterate_succ_apply', next, if_neg hquiet]

theorem run_firstFrame (key : BitVec 2) (keycode : BitVec 8) :
    (run next (powerUp key keycode) firstFrame).game = (powerUp key keycode).game ∧
      Along next InFrame (powerUp key keycode) firstFrame := by
  obtain ⟨k, hk⟩ : ∃ k, k = 782400 := ⟨_, rfl⟩
  obtain ⟨hrun, halong⟩ := run_clk key keycode hk.le
  rw [firstFrame, ← hk, hrun]
  exact ⟨rfl, halong⟩

theorem frameEdge_firstFrame (key : BitVec 2) (keycode : BitVec 8) :
    (run next (powerUp key keycode) firstFrame).FrameEdge := by
  obtain ⟨k, hk⟩ : ∃ k, k = 782400 := ⟨_, rfl⟩
  obtain ⟨hlevel, hcount⟩ := Vga.clkdiv_iterate k
  have htimed := (Vga.timed_iterate k).1
  have heven : k % 2 = 0 := by omega
  rw [firstFrame, ← hk, (run_clk key keycode hk.le).1]
  refine (raisesFrame_iff htimed (.clk fun _ => false)).mpr ⟨⟨htimed.reset, ?_⟩, ?_⟩
  · rw [hlevel, heven]
    rfl
  · have hframe : Vga.frame = 420000 := rfl
    rw [hcount, hframe]
    omega

/-- Without a key the piece stays where it is. -/
theorem stays_without_key :
    MovesByKey (run next (powerUp 1 0) firstFrame)
      (next (run next (powerUp 1 0) firstFrame) (.clk fun _ => false)) :=
  (movesByKey_iff_latched 1 0 [] firstFrame rfl (run_firstFrame 1 0).2 (frameEdge_firstFrame 1 0)
    _).mpr rfl

/-- With the key for the right, it stays as well. -/
theorem stays_with_key :
    ¬MovesByKey (run next (powerUp 1 0x07) firstFrame)
      (next (run next (powerUp 1 0x07) firstFrame) (.clk fun _ => false)) := by
  have hgame := (run_firstFrame 1 0x07).1
  have hmotion := congrArg State.blockXMotion hgame
  rw [movesByKey_iff (frameEdge_firstFrame 1 0x07) (m := 0) (.inr (.inl rfl)) hmotion, hgame]
  decide

end Top

end TetrisFpga.Lab62
