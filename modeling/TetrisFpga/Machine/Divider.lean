import Mathlib.Data.Nat.Find
import TetrisFpga.Machine.Trace

/-!
# Clock dividers

A counter that goes up by one a tick, and where it has passed a limit starts again at 0 with the
output high for one tick. The output rises every `limit + 2` ticks.

## Main results

- `Divides.pulses`: the period of the output
- `Pulses.period_unique`: a signal has one period
-/

namespace Machine

/-- The signal rises between the ticks `n` and `n + 1`. -/
def Rises (level : ℕ → Bool) (n : ℕ) : Prop := level n = false ∧ level (n + 1) = true

instance (level : ℕ → Bool) (n : ℕ) : Decidable (Rises level n) :=
  inferInstanceAs (Decidable (_ ∧ _))

/-- The signal is high for one tick at a time, one rise is `period` ticks behind the one before,
and the rises never end. -/
structure Pulses (period : ℕ) (level : ℕ → Bool) : Prop where
  single : ∀ n, Rises level n → level (n + 2) = false
  spaced : ∀ a b, a < b → Rises level a → Rises level b →
    (∀ j, a < j → j < b → ¬Rises level j) → b = a + period
  recurs : ∀ n, ∃ m, n ≤ m ∧ Rises level m

/-- A counter with its output, tick by tick. -/
structure Divides (limit : ℕ) (count : ℕ → ℕ) (level : ℕ → Bool) : Prop where
  restart : ∀ n, limit < count n → count (n + 1) = 0 ∧ level (n + 1) = true
  advance : ∀ n, count n ≤ limit → count (n + 1) = count n + 1 ∧ level (n + 1) = false

variable {limit : ℕ} {count : ℕ → ℕ} {level : ℕ → Bool}

theorem Pulses.period_unique {P Q : ℕ} (hP : Pulses P level) (hQ : Pulses Q level) : P = Q := by
  classical
  obtain ⟨a, -, ha⟩ := hP.recurs 0
  have hex : ∃ b, a < b ∧ Rises level b := hP.recurs (a + 1)
  obtain ⟨hlt, hb⟩ := Nat.find_spec hex
  have hnone (j : ℕ) (haj : a < j) (hj : j < Nat.find hex) : ¬Rises level j := fun h =>
    Nat.find_min hex hj ⟨haj, h⟩
  have h1 := hP.spaced a _ hlt ha hb hnone
  have h2 := hQ.spaced a _ hlt ha hb hnone
  omega

namespace Divides

theorem limit_lt_of_rises (h : Divides limit count level) {n : ℕ} (hr : Rises level n) :
    limit < count n := by
  by_contra hle
  have hlow := (h.advance n (Nat.not_lt.mp hle)).2
  exact absurd (hr.2.symm.trans hlow) (by decide)

/-- From 0 the counter counts the ticks until it has passed the limit. -/
theorem count_add (h : Divides limit count level) {n : ℕ} (hn : count n = 0) {k : ℕ}
    (hk : k ≤ limit + 1) : count (n + k) = k := by
  induction k with
  | zero => exact hn
  | succ k ih =>
    have hcount := ih (by omega)
    rw [← Nat.add_assoc, (h.advance (n + k) (by omega)).1, hcount]

/-- The output rises where the counter has counted from 0 up to the limit. -/
theorem rises_add (h : Divides limit count level) {n : ℕ} (hn : count n = 0) :
    Rises level (n + (limit + 1)) := by
  have hlast : count (n + limit) = limit := h.count_add hn (by omega)
  have hpassed : count (n + (limit + 1)) = limit + 1 := h.count_add hn (Nat.le_refl _)
  exact ⟨(h.advance (n + limit) (by omega)).2, (h.restart _ (by omega)).2⟩

/-- The counter passes the limit again and again. -/
theorem recurs (h : Divides limit count level) (n : ℕ) : ∃ k, n ≤ k ∧ limit < count k := by
  refine recurs_of_rank (p := fun k => limit < count k) (fun k => limit + 1 - count k)
    (fun k (_ : 0 ≤ k) hk => ?_) n
  have hcount := (h.advance k (Nat.not_lt.mp hk)).1
  omega

/-- The period counts the limit itself and the tick of the restart. -/
theorem pulses (h : Divides limit count level) : Pulses (limit + 2) level where
  single n hr := by
    have hzero := (h.restart n (h.limit_lt_of_rises hr)).1
    exact (h.advance (n + 1) (by omega)).2
  spaced a b hab ha hb hnone := by
    have hzero := (h.restart a (h.limit_lt_of_rises ha)).1
    have hnext := h.rises_add hzero
    have hlate : a + (limit + 2) ≤ b := by
      by_contra hlt
      obtain ⟨k, rfl⟩ := Nat.exists_eq_add_of_le (show a + 1 ≤ b by omega)
      have hcount := h.count_add hzero (k := k) (by omega)
      have hpassed := h.limit_lt_of_rises hb
      omega
    have hsoon : ¬a + (limit + 2) < b := fun hlt =>
      hnone (a + 1 + (limit + 1)) (by omega) (by omega) hnext
    omega
  recurs n := by
    obtain ⟨k, hk, hpassed⟩ := h.recurs n
    exact ⟨_, by omega, h.rises_add (h.restart k hpassed).1⟩

end Divides

end Machine
