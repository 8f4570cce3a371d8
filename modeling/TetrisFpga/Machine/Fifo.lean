import Mathlib.Algebra.Group.Nat.Defs

/-!
# A queue between two clocks

A queue whose sides see its length with a delay: each side keeps the lengths of the last
clocks, as many as its counter lags behind. `clear` is asynchronous and empties the counters
too. The word that is popped stays in the output register.
-/

namespace Machine

variable {α : Type*}

structure Fifo (α : Type*) where
  words : List α
  q : α
  /-- The lengths that the counters have still to show, the newest first. -/
  wrLag : List ℕ
  rdLag : List ℕ

namespace Fifo

/-- The number of words, as a counter of `bits` bits holds it. -/
def count (bits : ℕ) (f : Fifo α) : ℕ := f.words.length % 2 ^ bits

/-- What a counter with the lag `lag` shows. -/
def shown (lag : List ℕ) (count : ℕ) : ℕ := lag.getLastD count

/-- The lag after a clock that sees the length `count`. -/
def shift (lag : List ℕ) (count : ℕ) : List ℕ := (count :: lag).dropLast

def wrusedw (bits : ℕ) (f : Fifo α) : ℕ := shown f.wrLag (f.count bits)

def rdusedw (bits : ℕ) (f : Fifo α) : ℕ := shown f.rdLag (f.count bits)

/-- An edge of the write clock that sees the length `seen`. A full queue takes no word. -/
def wrEdge (bits : ℕ) (f : Fifo α) (seen : ℕ) (wrreq : Bool) (data : α) : Fifo α :=
  { f with
    words := if wrreq && f.words.length < 2 ^ bits then f.words ++ [data] else f.words
    wrLag := shift f.wrLag seen }

/-- An edge of the read clock that sees the length `seen`. An empty queue gives no word. -/
def rdEdge (f : Fifo α) (seen : ℕ) (rdreq : Bool) : Fifo α :=
  { f with
    words := if rdreq then f.words.tail else f.words
    q := if rdreq then f.words.headD f.q else f.q
    rdLag := shift f.rdLag seen }

/-- The asynchronous clear at the level `aclr`. -/
def clear (f : Fifo α) (aclr : Bool) : Fifo α :=
  if aclr then
    { f with
      words := []
      wrLag := List.replicate f.wrLag.length 0
      rdLag := List.replicate f.rdLag.length 0 }
  else f

/-! ### What the counters show -/

section Recent

variable {P : ℕ → Prop} {lag : List ℕ} {k c : ℕ}

/-- The newest `k` lengths satisfy `P`. -/
def Recent (P : ℕ → Prop) (k : ℕ) (lag : List ℕ) : Prop := ∀ c ∈ lag.take k, P c

@[simp] theorem shift_length : (shift lag c).length = lag.length := by
  simp [shift]

@[simp] theorem recent_zero : Recent P 0 lag := by
  simp [Recent]

theorem Recent.mono {j : ℕ} (h : Recent P k lag) (hj : j ≤ k) : Recent P j lag :=
  fun c hc => h c (List.take_subset_take_left lag hj hc)

theorem Recent.all (h : Recent P k lag) (hk : lag.length ≤ k) : ∀ c ∈ lag, P c := by
  rwa [Recent, List.take_of_length_le hk] at h

/-- One more clock that sees such a length. -/
theorem Recent.shift (h : Recent P k lag) (hc : P c) : Recent P (k + 1) (shift lag c) := by
  intro d hd
  have hd' : d ∈ (c :: lag).take (k + 1) := by
    rw [Fifo.shift, List.dropLast_eq_take, List.take_take] at hd
    exact List.take_subset_take_left _ (Nat.min_le_left _ _) hd
  obtain rfl | hd' := List.mem_cons.mp hd'
  · exact hc
  · exact h d hd'

theorem shift_all (h : ∀ d ∈ lag, P d) (hc : P c) : ∀ d ∈ shift lag c, P d := by
  intro d hd
  obtain rfl | hd := List.mem_cons.mp (List.dropLast_subset _ hd)
  · exact hc
  · exact h d hd

/-- A counter shows one of the lengths it has still to show, or the length itself. -/
theorem shown_of_all (h : ∀ d ∈ lag, P d) (hc : P c) : P (shown lag c) := by
  rw [shown, List.getLastD_eq_getLast?]
  cases hl : lag.getLast? with
  | none => exact hc
  | some d => exact h d (List.mem_of_getLast? hl)

end Recent

end Fifo

end Machine
