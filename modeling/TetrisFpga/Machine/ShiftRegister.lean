import Mathlib.Data.List.GetD
import Mathlib.Data.List.Induction

/-!
# Shift registers

A register that takes a bit in at the bottom at every shift, and shows its top bit: what it
shows while the first bits go in, and what it holds when they are all in.

## Main results

- `msb_shifted`: a register of `n` bits shows its own bits first, from the top
- `msbFirst_shifted`: after `n` shifts it holds what was shifted in
-/

namespace Machine

variable {n : ℕ}

/-- The bits of a word in the order in which they are sent. -/
def msbFirst (b : BitVec n) : List Bool := List.ofFn fun i : Fin n => b.getMsbD i

@[simp] theorem length_msbFirst (b : BitVec n) : (msbFirst b).length = n := List.length_ofFn

/-- The register `b` after the bits `l` were shifted in. -/
def shifted (b : BitVec n) (l : List Bool) : BitVec n := l.foldl BitVec.shiftConcat b

theorem shifted_concat (b : BitVec n) (l : List Bool) (x : Bool) :
    shifted b (l ++ [x]) = (shifted b l).shiftConcat x := by
  rw [shifted, List.foldl_append]
  rfl

/-- The old bits go up, the last bit that was shifted in is at the bottom. -/
theorem getLsbD_shifted (b : BitVec n) (l : List Bool) {i : ℕ} (hi : i < n) :
    (shifted b l).getLsbD i =
      if i < l.length then l.reverse.getD i false else b.getLsbD (i - l.length) := by
  induction l using List.reverseRecOn generalizing i with
  | nil => rfl
  | append_singleton l x ih =>
    rw [shifted_concat, BitVec.getLsbD_shiftConcat_eq_decide]
    cases i with
    | zero => simp [hi]
    | succ i => simp [hi, ih (by omega : i < n), Nat.add_sub_add_right]

/-- What the register shows at its top while fewer than `n` bits are in. -/
theorem msb_shifted (b : BitVec n) {l : List Bool} (hl : l.length < n) :
    (msbFirst b)[l.length]? = some (shifted b l).msb := by
  rw [BitVec.msb_eq_getLsbD_last, getLsbD_shifted b l (by omega), if_neg (by omega), msbFirst,
    List.getElem?_ofFn, dif_pos hl, BitVec.getMsbD_eq_getLsbD]
  simp only [hl, decide_true, Bool.true_and]

/-- After `n` shifts the register holds the bits that were shifted in. -/
theorem msbFirst_shifted (b : BitVec n) {l : List Bool} (hl : l.length = n) :
    msbFirst (shifted b l) = l := by
  refine List.ext_getElem (by rw [length_msbFirst, hl]) fun i hi hil => ?_
  rw [length_msbFirst] at hi
  simp only [msbFirst, List.getElem_ofFn, BitVec.getMsbD_eq_getLsbD, hi, decide_true,
    Bool.true_and, getLsbD_shifted b l (by omega : n - 1 - i < n), hl,
    if_pos (by omega : n - 1 - i < n)]
  rw [List.getD_eq_getElem _ _ (by rw [List.length_reverse]; omega), List.getElem_reverse]
  congr 1
  omega

/-- What goes out of a list while `m` comes in, one element later. -/
theorem zip_concat {α β : Type} {l : List α} {m : List β} {a : α} (h : l[m.length]? = some a)
    (b : β) : l.zip (m ++ [b]) = l.zip m ++ [(a, b)] := by
  induction m generalizing l with
  | nil =>
    cases l with
    | nil => cases h
    | cons x l =>
      cases h
      simp
  | cons y m ih =>
    cases l with
    | nil => cases h
    | cons x l =>
      rw [List.cons_append, List.zip_cons_cons, List.zip_cons_cons, ih h, List.cons_append]

end Machine
