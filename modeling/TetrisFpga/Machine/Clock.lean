import Mathlib.Data.Nat.Find

/-!
# Clocks that are polled

A clock that is read at least once a tick: between two readings at most one tick passes. The
clock goes on for ever, so every tick after the present one is the tick of some reading.

## Main results

- `Clock.reaches`: the first reading of a tick still to come
-/

namespace Machine

/-- The tick of the last reading, and whether a tick passes before each of the next ones. -/
structure Clock where
  tick : ℕ
  steps : ℕ → Bool
  goesOn : ∀ n, ∃ m, steps (n + m) = true

namespace Clock

/-- The next reading. -/
def next (c : Clock) : Clock where
  tick := c.tick + if c.steps 0 then 1 else 0
  steps n := c.steps (n + 1)
  goesOn n := by
    obtain ⟨m, hm⟩ := c.goesOn (n + 1)
    exact ⟨m, by rwa [Nat.add_right_comm]⟩

/-- The `n`-th of the next readings. -/
def after (c : Clock) : ℕ → Clock
  | 0 => c
  | n + 1 => c.next.after n

theorem after_add (c : Clock) (n m : ℕ) : c.after (n + m) = (c.after n).after m := by
  induction n generalizing c with
  | zero => rw [Nat.zero_add, after]
  | succ n ih =>
    rw [Nat.add_right_comm]
    exact ih c.next

theorem after_succ (c : Clock) (n : ℕ) : c.after (n + 1) = (c.after n).next := c.after_add n 1

theorem steps_after (c : Clock) (n m : ℕ) : (c.after n).steps m = c.steps (n + m) := by
  induction n generalizing c with
  | zero => rw [after, Nat.zero_add]
  | succ n ih =>
    rw [after, ih, Nat.add_right_comm]
    rfl

theorem tick_le_next (c : Clock) : c.tick ≤ c.next.tick := Nat.le_add_right _ _

theorem next_tick_le (c : Clock) : c.next.tick ≤ c.tick + 1 := by
  show c.tick + (if c.steps 0 then 1 else 0) ≤ c.tick + 1
  split <;> omega

theorem tick_le_after (c : Clock) (n : ℕ) : c.tick ≤ (c.after n).tick := by
  induction n with
  | zero => exact Nat.le_refl _
  | succ n ih =>
    rw [after_succ]
    exact Nat.le_trans ih (tick_le_next _)

/-- There is a reading at `t` or later. -/
theorem exists_le_after (c : Clock) (t : ℕ) : ∃ n, t ≤ (c.after n).tick := by
  induction t with
  | zero => exact ⟨0, Nat.zero_le _⟩
  | succ t ih =>
    obtain ⟨n, hn⟩ := ih
    obtain ⟨m, hm⟩ := c.goesOn n
    have hmono : (c.after n).tick ≤ (c.after (n + m)).tick := by
      rw [after_add]
      exact tick_le_after _ m
    have hstep : (c.after (n + m)).next.tick = (c.after (n + m)).tick + 1 := by
      show _ + (if (c.after (n + m)).steps 0 then 1 else 0) = _
      rw [steps_after, Nat.add_zero, if_pos hm]
    exact ⟨n + m + 1, by rw [after_succ]; omega⟩

/-- A tick still to come is read, and all readings before are earlier. -/
theorem reaches {c : Clock} {t : ℕ} (ht : c.tick < t) :
    ∃ k, (c.after (k + 1)).tick = t ∧ ∀ j ≤ k, (c.after j).tick < t := by
  have hex := c.exists_le_after t
  have hpos : 0 < Nat.find hex := by
    rw [Nat.find_pos]
    exact Nat.not_le.mpr ht
  obtain ⟨k, hk⟩ := Nat.exists_eq_succ_of_ne_zero (Nat.pos_iff_ne_zero.mp hpos)
  have hbefore : ∀ j ≤ k, (c.after j).tick < t := fun j hj =>
    Nat.not_le.mp (Nat.find_min hex (by omega))
  have hreached : t ≤ (c.after (k + 1)).tick := by
    have hspec := Nat.find_spec hex
    rwa [hk] at hspec
  have hlast := hbefore k (Nat.le_refl k)
  have hstep := next_tick_le (c.after k)
  rw [← after_succ] at hstep
  exact ⟨k, by omega, hbefore⟩

end Clock

end Machine
