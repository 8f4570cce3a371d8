import TetrisFpga.Usb.Main

/-!
# The display of two numbers

`printSignedHex0` and `printSignedHex1` share the LEDs and the hex digits: each has two LEDs and
one byte of the digits and keeps the rest. The value -128 is its own negation, so its digits are
negative; their upper bits are shifted out of the upper byte of the display, but into it from the
lower one.
-/

namespace TetrisFpga.Usb
open Program

variable {χ : Type}

/-! ## What a number shows -/

/-- A LED is switched. -/
def switched (on : Bool) (led : ℕ) (leds : BitVec 14) : BitVec 14 :=
  if on then leds ||| (0x001 : BitVec 14) <<< led else leds &&& ~~~((0x001 : BitVec 14) <<< led)

/-- The `signed char` that is left of the sign. -/
def unsigned (value : BitVec 8) : BitVec 8 := if value.toInt < 0 then -value else value

/-- The two digits that are OR-ed into the display. -/
def digits (tensShift onesShift : ℕ) (value : BitVec 8) : BitVec 16 :=
  let value := BitVec.ofInt 8 ((unsigned value).toInt.tmod 100)
  (BitVec.ofInt 8 (value.toInt.tdiv 10)).setWidth 16 <<< tensShift |||
    (BitVec.ofInt 8 (value.toInt.tmod 10)).setWidth 16 <<< onesShift

/-- The PIOs after a number is shown. -/
def shown (signLED hundredsLED : ℕ) (keep : BitVec 16) (tensShift onesShift : ℕ)
    (value : BitVec 8) (p : Pio) : Pio :=
  { p with
    leds := switched ((unsigned value).toInt.tdiv 100 ≠ 0) hundredsLED
      (switched (value.toInt < 0) signLED p.leds)
    hexDigits := p.hexDigits &&& keep ||| digits tensShift onesShift value }

theorem showLED_run (on : Bool) (led : ℕ) (w : World χ) :
    showLED on led w =
      .ok () { w with pio := { w.pio with leds := switched on led w.pio.leds } } := by
  cases on <;> rfl

theorem printSignedHex_run (signLED hundredsLED : ℕ) (keep : BitVec 16)
    (tensShift onesShift : ℕ) (value : BitVec 8) (w : World χ) :
    printSignedHex signLED hundredsLED keep tensShift onesShift value w =
      .ok () { w with
        pio := shown signLED hundredsLED keep tensShift onesShift value w.pio } := by
  have hget : (getPio : Prog χ Pio) w = .ok w.pio w := rfl
  rw [printSignedHex, bind_of_ok hget, bind_of_ok (showLED_run _ _ _),
    bind_of_ok (showLED_run _ _ _)]
  simp only [setPio, shown, digits, unsigned, BitVec.or_assoc]
  rfl

/-- The PIOs after `printSignedHex0` and after `printSignedHex1`. -/
def shown0 (value : BitVec 8) (p : Pio) : Pio := shown 11 13 0x00ff 12 8 value p

def shown1 (value : BitVec 8) (p : Pio) : Pio := shown 10 12 0xff00 4 0 value p

theorem printSignedHex0_run (value : BitVec 8) (w : World χ) :
    printSignedHex0 value w = .ok () { w with pio := shown0 value w.pio } :=
  printSignedHex_run ..

theorem printSignedHex1_run (value : BitVec 8) (w : World χ) :
    printSignedHex1 value w = .ok () { w with pio := shown1 value w.pio } :=
  printSignedHex_run ..

/-! ## The LEDs -/

theorem switched_getLsbD (on : Bool) {led : ℕ} (hled : led < 14) (leds : BitVec 14) (i : ℕ) :
    (switched on led leds).getLsbD i = if i = led then on else leds.getLsbD i := by
  have hbit : ((0x001 : BitVec 14) <<< led).getLsbD i = decide (i = led) := by
    rw [BitVec.getLsbD_shiftLeft]
    by_cases hi : i = led
    · subst hi
      simp [hled]
    · by_cases hlt : i < led
      · simp [hlt, hi]
      · simp [hlt, hi]
        omega
  cases on with
  | false =>
    rw [switched, if_neg (by decide), BitVec.getLsbD_and, BitVec.getLsbD_not, hbit]
    by_cases hi : i = led
    · simp [hi]
    · by_cases hin : i < 14
      · simp [hi, hin]
      · simp [hi, hin, BitVec.getLsbD_of_ge leds i (by omega)]
  | true =>
    rw [switched, if_pos rfl, BitVec.getLsbD_or, hbit]
    by_cases hi : i = led <;> simp [hi]

theorem hundreds_iff (value : BitVec 8) :
    (unsigned value).toInt.tdiv 100 ≠ 0 ↔ 100 ≤ value.toInt.natAbs := by
  revert value
  decide +kernel

/-! ## The digits -/

/-- The tens and the ones of the absolute value. -/
def bcd (value : BitVec 8) : BitVec 8 :=
  BitVec.ofNat 4 (value.toInt.natAbs % 100 / 10) ++ BitVec.ofNat 4 (value.toInt.natAbs % 10)

/-- In the upper byte no digit reaches the lower one. -/
theorem digits_upper (value : BitVec 8) :
    digits 12 8 value = (digits 12 8 value).extractLsb' 8 8 ++ 0#8 := by
  revert value
  decide +kernel

theorem digits_upper_eq {value : BitVec 8} (h : value ≠ 0x80) :
    digits 12 8 value = bcd value ++ 0#8 := by
  revert value
  decide +kernel

theorem digits_lower_eq {value : BitVec 8} (h : value ≠ 0x80) :
    digits 4 0 value = 0#8 ++ bcd value := by
  revert value
  decide +kernel

/-- What -128 shows for its tens is no digit. -/
theorem digits_extreme (value : BitVec 8) :
    digits 12 8 0x80 ||| digits 4 0 value ≠ bcd 0x80 ++ bcd value ∧
      digits 12 8 value ||| digits 4 0 0x80 ≠ bcd value ++ bcd 0x80 := by
  revert value
  decide +kernel

/-- The second number keeps the digits of the first. -/
theorem shown1_shown0_hexDigits (a b : BitVec 8) (p : Pio) :
    (shown1 b (shown0 a p)).hexDigits = digits 12 8 a ||| digits 4 0 b := by
  show (p.hexDigits &&& 0x00ff ||| digits 12 8 a) &&& 0xff00 ||| digits 4 0 b = _
  have hkeep : digits 12 8 a &&& 0xff00 = digits 12 8 a := by
    rw [digits_upper, show (0xff00 : BitVec 16) = BitVec.allOnes 8 ++ 0#8 from rfl,
      BitVec.and_append, BitVec.and_allOnes, BitVec.and_self]
  have hold : p.hexDigits &&& 0x00ff &&& 0xff00 = 0#16 := by
    rw [BitVec.and_assoc]
    exact BitVec.and_zero
  rw [BitVec.and_or_distrib_right, hkeep, hold, BitVec.zero_or]

theorem shown0_shown1_hexDigits (a : BitVec 8) {b : BitVec 8} (hb : b ≠ 0x80) (p : Pio) :
    (shown0 a (shown1 b p)).hexDigits = digits 12 8 a ||| digits 4 0 b := by
  show (p.hexDigits &&& 0xff00 ||| digits 4 0 b) &&& 0x00ff ||| digits 12 8 a = _
  have hkeep : digits 4 0 b &&& 0x00ff = digits 4 0 b := by
    rw [digits_lower_eq hb, show (0x00ff : BitVec 16) = 0#8 ++ BitVec.allOnes 8 from rfl,
      BitVec.and_append, BitVec.and_allOnes, BitVec.and_self]
  have hold : p.hexDigits &&& 0xff00 &&& 0x00ff = 0#16 := by
    rw [BitVec.and_assoc]
    exact BitVec.and_zero
  rw [BitVec.and_or_distrib_right, hkeep, hold, BitVec.zero_or, BitVec.or_comm]

/-! ## Both numbers -/

/-- The PIOs show `a` and `b`, and the LEDs of neither are as before. -/
structure ShowsPair (a b : BitVec 8) (p p' : Pio) : Prop where
  hexDigits : p'.hexDigits = bcd a ++ bcd b
  sign0 : p'.leds.getLsbD 11 = decide (a.toInt < 0)
  hundreds0 : p'.leds.getLsbD 13 = decide (100 ≤ a.toInt.natAbs)
  sign1 : p'.leds.getLsbD 10 = decide (b.toInt < 0)
  hundreds1 : p'.leds.getLsbD 12 = decide (100 ≤ b.toInt.natAbs)
  others : ∀ i, i < 10 ∨ 14 ≤ i → p'.leds.getLsbD i = p.leds.getLsbD i

/-- Both orders of the calls leave the same PIOs, and these show both numbers. -/
def Separable (a b : BitVec 8) (w : World χ) : Prop :=
  ∃ p', ShowsPair a b w.pio p' ∧
    (do printSignedHex0 a; printSignedHex1 b : Prog χ Unit) w = .ok () { w with pio := p' } ∧
    (do printSignedHex1 b; printSignedHex0 a : Prog χ Unit) w = .ok () { w with pio := p' }

theorem shown_run (a b : BitVec 8) (w : World χ) :
    (do printSignedHex0 a; printSignedHex1 b : Prog χ Unit) w =
        .ok () { w with pio := shown1 b (shown0 a w.pio) } ∧
      (do printSignedHex1 b; printSignedHex0 a : Prog χ Unit) w =
        .ok () { w with pio := shown0 a (shown1 b w.pio) } := by
  constructor
  · rw [bind_of_ok (printSignedHex0_run a w), printSignedHex1_run]
  · rw [bind_of_ok (printSignedHex1_run b w), printSignedHex0_run]

theorem shown0_leds (value : BitVec 8) (p : Pio) (i : ℕ) :
    (shown0 value p).leds.getLsbD i =
      if i = 13 then decide (100 ≤ value.toInt.natAbs)
      else if i = 11 then decide (value.toInt < 0) else p.leds.getLsbD i := by
  show (switched _ 13 (switched _ 11 p.leds)).getLsbD i = _
  rw [switched_getLsbD _ (by decide), switched_getLsbD _ (by decide)]
  simp only [hundreds_iff]

theorem shown1_leds (value : BitVec 8) (p : Pio) (i : ℕ) :
    (shown1 value p).leds.getLsbD i =
      if i = 12 then decide (100 ≤ value.toInt.natAbs)
      else if i = 10 then decide (value.toInt < 0) else p.leds.getLsbD i := by
  show (switched _ 12 (switched _ 10 p.leds)).getLsbD i = _
  rw [switched_getLsbD _ (by decide), switched_getLsbD _ (by decide)]
  simp only [hundreds_iff]

/-- The LEDs do not depend on the order. -/
theorem shown_leds_comm (a b : BitVec 8) (p : Pio) :
    (shown1 b (shown0 a p)).leds = (shown0 a (shown1 b p)).leds := by
  refine BitVec.eq_of_getLsbD_eq fun i _ => ?_
  rw [shown0_leds, shown1_leds, shown1_leds, shown0_leds]
  by_cases h13 : i = 13
  · subst h13
    rfl
  · by_cases h11 : i = 11
    · subst h11
      rfl
    · rw [if_neg h13, if_neg h11, if_neg h13, if_neg h11]

/-- Without -128 in the lower byte the order does not matter. -/
theorem shown_comm (a : BitVec 8) {b : BitVec 8} (hb : b ≠ 0x80) (p : Pio) :
    shown0 a (shown1 b p) = shown1 b (shown0 a p) := by
  have hpio {p q : Pio} (hleds : p.leds = q.leds) (hhex : p.hexDigits = q.hexDigits)
      (hkeycode : p.keycode = q.keycode) : p = q := by
    cases p
    cases q
    cases hleds
    cases hhex
    cases hkeycode
    rfl
  refine hpio (shown_leds_comm a b p).symm ?_ rfl
  rw [shown0_shown1_hexDigits a hb, shown1_shown0_hexDigits]

theorem showsPair_shown {a b : BitVec 8} (ha : a ≠ 0x80) (hb : b ≠ 0x80) (p : Pio) :
    ShowsPair a b p (shown1 b (shown0 a p)) where
  hexDigits := by
    rw [shown1_shown0_hexDigits, digits_upper_eq ha, digits_lower_eq hb, BitVec.or_append,
      BitVec.zero_or, BitVec.or_zero]
  sign0 := by rw [shown1_leds, shown0_leds]; rfl
  hundreds0 := by rw [shown1_leds, shown0_leds]; rfl
  sign1 := by rw [shown1_leds]; rfl
  hundreds1 := by rw [shown1_leds]; rfl
  others i hi := by
    rw [shown1_leds, if_neg (by omega), if_neg (by omega), shown0_leds, if_neg (by omega),
      if_neg (by omega)]

/-- The two displays are faithful and separable if and only if neither number is -128. -/
theorem separable_iff (a b : BitVec 8) (w : World χ) :
    Separable a b w ↔ a ≠ 0x80 ∧ b ≠ 0x80 := by
  obtain ⟨hfirst, hsecond⟩ := shown_run a b w
  rw [Separable, hfirst, hsecond]
  constructor
  · rintro ⟨p', hshows, hr, -⟩
    have hp' : shown1 b (shown0 a w.pio) = p' := by injection hr with _ hw; injection hw
    have hhex := hshows.hexDigits
    rw [← hp', shown1_shown0_hexDigits] at hhex
    constructor
    · rintro rfl
      exact (digits_extreme b).1 hhex
    · rintro rfl
      exact (digits_extreme a).2 hhex
  · rintro ⟨ha, hb⟩
    refine ⟨_, showsPair_shown ha hb w.pio, rfl, ?_⟩
    rw [shown_comm a hb]

/-- The display of 5 and -128 on PIOs that hold 0. -/
theorem extreme_spills : ¬Separable 5 0x80 (powerUp ({} : Script) 0 (fun _ _ => 0) {}) := by
  rw [Separable, (shown_run 5 0x80 _).1]
  rintro ⟨p', hshows, hr, -⟩
  have hp' : shown1 0x80 (shown0 5 {}) = p' := by injection hr with _ hw; injection hw
  have hhex := hshows.hexDigits
  rw [← hp'] at hhex
  exact absurd hhex (by decide)

end TetrisFpga.Usb
