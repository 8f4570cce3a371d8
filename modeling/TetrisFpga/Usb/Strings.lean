import TetrisFpga.Usb.InTransfer
import TetrisFpga.Usb.Task

/-!
# The conversion of string descriptors

`ConvUTF8ToStr` moves every second byte of a buffer to its front. The byte that is read lies at
or behind the one that is written, so no byte is read after it was overwritten. `USB_Task`
computes the number of characters from `bLength` and passes it as a byte: where the descriptor is
shorter than its own header, the number wraps to 255.
-/

namespace TetrisFpga.Usb
open Program

/-- The address of an access to memory. -/
def Event.touches : Event → Option Ptr
  | .load p => some p
  | .store p _ => some p
  | _ => none

/-- The addresses that were read or written, the last one first. -/
def touched (log : List Event) : List Ptr := log.filterMap Event.touches

/-- The memory with every second byte from `p` on moved to the `n` bytes from `p` on. -/
def compacted (mem : Obj → ℤ → BYTE) (p : Ptr) (n : ℕ) (o : Obj) (k : ℤ) : BYTE :=
  if o = p.obj ∧ p.off ≤ k ∧ k < p.off + n then mem o (p.off + 2 * (k - p.off)) else mem o k

/-- The addresses that `n` rounds of the conversion access, the last one first. -/
def compactTouches (p : Ptr) : ℕ → List Ptr
  | 0 => []
  | n + 1 => p.add n :: p.add (2 * n) :: compactTouches p n

variable {χ : Type}

theorem compacted_zero (mem : Obj → ℤ → BYTE) (p : Ptr) : compacted mem p 0 = mem := by
  funext o k
  exact if_neg (by omega)

/-- What a round reads is still as it was. -/
theorem compacted_ahead (mem : Obj → ℤ → BYTE) (p : Ptr) (n : ℕ) :
    compacted mem p n p.obj (p.off + 2 * n) = mem p.obj (p.off + 2 * n) := if_neg (by omega)

theorem compacted_succ (mem : Obj → ℤ → BYTE) (p : Ptr) (n : ℕ) (o : Obj) (k : ℤ) :
    compacted mem p (n + 1) o k =
      if o = p.obj ∧ k = p.off + n then mem p.obj (p.off + 2 * n) else compacted mem p n o k := by
  by_cases hnew : o = p.obj ∧ k = p.off + n
  · obtain ⟨rfl, rfl⟩ := hnew
    rw [if_pos ⟨rfl, rfl⟩, compacted, if_pos ⟨rfl, by omega, by omega⟩]
    congr 1
    omega
  · rw [if_neg hnew, compacted, compacted]
    by_cases hdone : o = p.obj ∧ p.off ≤ k ∧ k < p.off + n
    · rw [if_pos hdone, if_pos ⟨hdone.1, hdone.2.1, by omega⟩]
    · rw [if_neg hdone, if_neg]
      rintro ⟨ho, hle, hlt⟩
      have hne : k ≠ p.off + n := fun hk => hnew ⟨ho, hk⟩
      exact hdone ⟨ho, hle, by omega⟩

/-- One round: the byte ahead is moved to the front. -/
theorem compactRound_run (p : Ptr) (i : ℕ) (w : World χ) :
    ∃ w', (do store (p.add i) (← load (p.add (2 * i))) : Prog χ Unit) w = .ok () w' ∧
      (∀ o k, w'.mem o k =
        if o = p.obj ∧ k = p.off + i then w.mem p.obj (p.off + 2 * i) else w.mem o k) ∧
      touched w'.log = p.add i :: p.add (2 * i) :: touched w.log :=
  ⟨_, rfl, fun _ _ => rfl, rfl⟩

/-- The loop never reads a byte that it has overwritten. -/
theorem compactLoop_run (p : Ptr) (n : ℕ) (w : World χ) :
    ∃ w', ((List.range n).forM fun i => do
        store (p.add i) (← load (p.add (2 * i))) : Prog χ Unit) w = .ok () w' ∧
      w'.mem = compacted w.mem p n ∧ touched w'.log = compactTouches p n ++ touched w.log := by
  induction n with
  | zero => exact ⟨w, rfl, (compacted_zero w.mem p).symm, rfl⟩
  | succ n ih =>
    obtain ⟨w₁, hr, hmem, htouched⟩ := ih
    obtain ⟨w₂, hr', hmem', htouched'⟩ := compactRound_run p n w₁
    refine ⟨w₂, ?_, ?_, ?_⟩
    · rw [List.range_succ, List.forM_eq_forM, List.forM_append]
      exact (bind_of_ok hr _).trans hr'
    · funext o k
      rw [hmem', hmem, compacted_ahead, compacted_succ]
    · rw [htouched', htouched]
      rfl

theorem convUTF8ToStr_run (p : Ptr) (length : BYTE) (w : World χ) :
    ∃ w', convUTF8ToStr p length w = .ok () w' ∧
      (∀ o k, w'.mem o k = if o = p.obj ∧ k = p.off + length.toNat then 0x00
        else compacted w.mem p length.toNat o k) ∧
      touched w'.log = p.add length.toNat :: compactTouches p length.toNat ++ touched w.log := by
  obtain ⟨w₁, hr, hmem, htouched⟩ := compactLoop_run p length.toNat w
  refine ⟨_, (bind_of_ok hr _).trans rfl, fun o k => ?_, ?_⟩
  · rw [← hmem]
    rfl
  · rw [List.cons_append, ← htouched]
    rfl

/-- The number of characters that `USB_Task` passes for a descriptor of `bLength` bytes. -/
theorem strLength_toNat (bLength : BYTE) :
    (bLength >>> 1 - 1).toNat = if 2 ≤ bLength.toNat then bLength.toNat / 2 - 1 else 255 := by
  have hlt := bLength.isLt
  have hhalf : (bLength >>> 1).toNat = bLength.toNat / 2 := by
    rw [BitVec.toNat_ushiftRight, Nat.shiftRight_one]
  rw [BitVec.toNat_sub, hhalf]
  show (2 ^ 8 - 1 + bLength.toNat / 2) % 2 ^ 8 = _
  split <;> omega

theorem mem_compactTouches {p q : Ptr} {n : ℕ} (h : q ∈ compactTouches p n) :
    ∃ k : ℕ, q = p.add k ∧ k + 1 < 2 * n ∨ q = p.add k ∧ k < n := by
  induction n with
  | zero => cases h
  | succ n ih =>
    rcases List.mem_cons.mp h with rfl | h
    · exact ⟨n, .inr ⟨rfl, by omega⟩⟩
    · rcases List.mem_cons.mp h with rfl | h
      · exact ⟨2 * n, .inl ⟨rfl, by omega⟩⟩
      · obtain ⟨k, ⟨hk, hlt⟩ | ⟨hk, hlt⟩⟩ := ih h
        · exact ⟨k, .inl ⟨hk, by omega⟩⟩
        · exact ⟨k, .inr ⟨hk, by omega⟩⟩

/-- The 254 bytes of `strDesc.bString`. -/
def bString : Ptr := ⟨.strDesc, 2⟩

/-- The number of UTF-16 units of a string descriptor of `bLength` bytes. -/
def utf16Units (bLength : BYTE) : ℕ := (bLength.toNat - 2) / 2

/-- The string descriptor in `w` is converted in place: only bytes of `bString` are accessed, and
what is left there is the low bytes of the units and a zero. -/
def ConvertsString (w : World χ) : Prop :=
  (∀ p ∈ touched (events (convUTF8ToStr bString (w.mem .strDesc 0 >>> 1 - 1)) w),
      InArea bString 254 p) ∧
    ∃ w', convUTF8ToStr bString (w.mem .strDesc 0 >>> 1 - 1) w = .ok () w' ∧
      (∀ i < utf16Units (w.mem .strDesc 0),
        w'.mem .strDesc (2 + i) = w.mem .strDesc (2 + 2 * i)) ∧
      w'.mem .strDesc (2 + utf16Units (w.mem .strDesc 0)) = 0x00

/-- The conversion is right if and only if the descriptor has room for its header. -/
theorem convertsString_iff (w : World χ) :
    ConvertsString w ↔ 2 ≤ (w.mem .strDesc 0).toNat := by
  have hlength := strLength_toNat (w.mem .strDesc 0)
  obtain ⟨w₁, hr₁, -, htouched⟩ := convUTF8ToStr_run bString (w.mem .strDesc 0 >>> 1 - 1)
    { w with log := [] }
  have hevents : touched (events (convUTF8ToStr bString (w.mem .strDesc 0 >>> 1 - 1)) w) =
      bString.add (w.mem .strDesc 0 >>> 1 - 1).toNat ::
        compactTouches bString (w.mem .strDesc 0 >>> 1 - 1).toNat := by
    rw [events, hr₁, final, htouched]
    exact List.append_nil _
  rw [ConvertsString, hevents]
  constructor
  · rintro ⟨harea, -⟩
    refine Decidable.byContradiction fun hshort => ?_
    -- the zero goes behind the array
    rw [if_neg hshort] at hlength
    have hend := harea _ List.mem_cons_self
    rw [hlength] at hend
    exact absurd hend (by decide)
  · intro hlong
    rw [if_pos hlong] at hlength
    have hlt := (w.mem .strDesc 0).isLt
    have hunits : utf16Units (w.mem .strDesc 0) = (w.mem .strDesc 0).toNat / 2 - 1 := by
      unfold utf16Units
      omega
    rw [← hlength] at hunits
    have hin (k : ℕ) (hk : k < 254) : InArea bString 254 (bString.add k) := by
      refine ⟨rfl, ?_, ?_⟩
      · exact Int.le_add_of_nonneg_right (by omega)
      · exact Int.add_lt_add_left (by omega) _
    refine ⟨fun p hp => ?_, ?_⟩
    · rcases List.mem_cons.mp hp with rfl | hp
      · exact hin _ (by omega)
      · obtain ⟨k, ⟨rfl, hk⟩ | ⟨rfl, hk⟩⟩ := mem_compactTouches hp
        · exact hin k (by omega)
        · exact hin k (by omega)
    · obtain ⟨w', hr, hmem, -⟩ := convUTF8ToStr_run bString (w.mem .strDesc 0 >>> 1 - 1) w
      refine ⟨w', hr, fun i hi => ?_, ?_⟩
      · rw [hunits] at hi
        have hbefore : (2 : ℤ) + i ≠ bString.off + (w.mem .strDesc 0 >>> 1 - 1).toNat := by
          show (2 : ℤ) + i ≠ 2 + _
          omega
        rw [hmem, if_neg fun h => hbefore h.2, compacted,
          if_pos ⟨rfl, Int.le_add_of_nonneg_right (by omega), Int.add_lt_add_left (by omega) _⟩]
        congr 1
        show (2 : ℤ) + 2 * (2 + i - 2) = _
        omega
      · rw [hmem, hunits]
        exact if_pos ⟨rfl, rfl⟩

/-! ## A descriptor without a header -/

/-- The device sends an empty descriptor: `bLength` is 0. -/
def emptyString : World Script where
  chip := {}
  mem := fun _ _ => 0

/-- The zero is stored at the index 255 of an array of 254. -/
theorem empty_string_overruns : ¬ConvertsString emptyString := by
  intro h
  have hend := h.1 (bString.add 255) (by decide +kernel)
  exact absurd hend (by decide)

end TetrisFpga.Usb
