import Mathlib.Data.List.Forall2
import TetrisFpga.Machine.Run

/-!
# Traces

The states that a run passes, and the signals that can be seen on the way. A signal is sampled
at every step; `Pulse n` says that it is high in exactly `n` samples, one after the other.

## Main results

- `Machine.forall₂_states`: two machines that stay related pass related states
- `Machine.pulse_range'`: a signal that is high while a counter is in an interval
- `Machine.recurs_of_rank`: what a decreasing rank leads to happens again and again
- `Machine.within_of_rank`: and how soon
-/

namespace Machine

/-! ## States -/

section States

variable {σ τ ι κ : Type*}

/-- The states from which a run takes its steps. -/
def states (next : σ → ι → σ) : σ → List ι → List σ
  | _, [] => []
  | s, i :: is => s :: states next (next s i) is

@[simp] theorem states_nil (next : σ → ι → σ) (s : σ) : states next s [] = [] := rfl

@[simp] theorem states_cons (next : σ → ι → σ) (s : σ) (i : ι) (is : List ι) :
    states next s (i :: is) = s :: states next (next s i) is := rfl

/-- A second machine that follows the first while `P` holds of it. -/
theorem forall₂_states {next : σ → ι → σ} {next' : τ → κ → τ} {f : ι → κ} {R : σ → τ → Prop}
    {P : σ → Prop} (hstep : ∀ s t i, R s t → P s → R (next s i) (next' t (f i))) {s : σ} {t : τ}
    {is : List ι} (h : R s t) (hP : ∀ x ∈ states next s is, P x) :
    List.Forall₂ (fun s t => R s t ∧ P s) (states next s is) (states next' t (is.map f)) ∧
      R (run next s is) (run next' t (is.map f)) := by
  induction is generalizing s t with
  | nil => exact ⟨.nil, h⟩
  | cons i is ih =>
    obtain ⟨hs, hrest⟩ := List.forall_mem_cons.mp hP
    obtain ⟨hstates, hend⟩ := ih (hstep s t i h hs) hrest
    exact ⟨.cons ⟨h, hs⟩ hstates, hend⟩

theorem map_eq_of_forall₂ {α : Type*} {R : σ → τ → Prop} {f : σ → α} {g : τ → α}
    (hR : ∀ s t, R s t → f s = g t) {l : List σ} {l' : List τ} (h : List.Forall₂ R l l') :
    l.map f = l'.map g := by
  rw [← List.forall₂_eq_eq_eq, List.forall₂_map_left_iff, List.forall₂_map_right_iff]
  exact h.imp hR

theorem forall_mem_of_forall₂ {R : σ → τ → Prop} {p : τ → Prop} (hR : ∀ s t, R s t → p t)
    {l : List σ} {l' : List τ} (h : List.Forall₂ R l l') : ∀ t ∈ l', p t := by
  induction h with
  | nil => nofun
  | cons hst _ ih => exact List.forall_mem_cons.mpr ⟨hR _ _ hst, ih⟩

end States

/-! ## Endless runs -/

section Endless

variable {σ ι : Type*} {next : σ → ι → σ} {s : σ} {is : ℕ → ι}

/-- The states of a run on an endless sequence of inputs. -/
def follow (next : σ → ι → σ) (s : σ) (is : ℕ → ι) : ℕ → σ
  | 0 => s
  | n + 1 => next (follow next s is n) (is n)

theorem follow_eq_run (n : ℕ) : follow next s is n = run next s ((List.range n).map is) := by
  induction n with
  | zero => rfl
  | succ n ih =>
    rw [follow, ih, List.range_succ, List.map_append, run_append]
    rfl

theorem map_range_add {a b : ℕ} {x y : ι} (ha : ∀ n < a, is n = x) (hb : ∀ n, is (a + n) = y) :
    (List.range (a + b)).map is = List.replicate a x ++ List.replicate b y := by
  rw [List.range_add, List.map_append, List.map_map]
  congr 1
  · refine List.eq_replicate_iff.mpr ⟨by simp, fun z hz => ?_⟩
    obtain ⟨n, hn, rfl⟩ := List.mem_map.mp hz
    exact ha n (List.mem_range.mp hn)
  · refine List.eq_replicate_iff.mpr ⟨by simp, fun z hz => ?_⟩
    obtain ⟨n, -, rfl⟩ := List.mem_map.mp hz
    exact hb n

/-- If a rank gets smaller for as long as `p` does not hold, then `p` holds again and again. -/
theorem recurs_of_rank {p : ℕ → Prop} (rank : ℕ → ℕ) {first : ℕ}
    (hrank : ∀ n, first ≤ n → ¬p n → rank (n + 1) < rank n) (n : ℕ) : ∃ k, n ≤ k ∧ p k := by
  have hlate (n : ℕ) (hn : first ≤ n) : ∃ k, n ≤ k ∧ p k := by
    induction hr : rank n using Nat.strongRecOn generalizing n with
    | _ r ih =>
      by_cases hp : p n
      · exact ⟨n, Nat.le_refl n, hp⟩
      · obtain ⟨k, hk, hpk⟩ := ih _ (hr ▸ hrank n hn hp) (n + 1) (by omega) rfl
        exact ⟨k, by omega, hpk⟩
  obtain ⟨k, hk, hpk⟩ := hlate (max n first) (Nat.le_max_right n first)
  exact ⟨k, by omega, hpk⟩

/-- If a rank gets smaller for as long as `p` does not hold, then `p` holds before it is used up. -/
theorem within_of_rank {p : ℕ → Prop} (rank : ℕ → ℕ) {first : ℕ}
    (hrank : ∀ n, first ≤ n → ¬p n → rank (n + 1) < rank n) {n : ℕ} (hn : first ≤ n) :
    ∃ k, n ≤ k ∧ k ≤ n + rank n ∧ p k := by
  induction hr : rank n using Nat.strongRecOn generalizing n with
  | _ r ih =>
    by_cases hp : p n
    · exact ⟨n, Nat.le_refl n, by omega, hp⟩
    · have hless := hrank n hn hp
      obtain ⟨k, hk, hsoon, hpk⟩ := ih (rank (n + 1)) (by omega) (n := n + 1) (by omega) rfl
      exact ⟨k, by omega, by omega, hpk⟩

end Endless

/-! ## Signals -/

/-- High in exactly `n` samples, which follow each other. -/
def Pulse (n : ℕ) (signal : List Bool) : Prop :=
  ∃ before after, signal = List.replicate before false ++ List.replicate n true ++
    List.replicate after false

variable {n : ℕ} {signal : List Bool}

theorem Pulse.cons (h : Pulse n signal) : Pulse n (false :: signal) := by
  obtain ⟨before, after, rfl⟩ := h
  exact ⟨before + 1, after, rfl⟩

theorem Pulse.low_append (h : Pulse n signal) (k : ℕ) :
    Pulse n (List.replicate k false ++ signal) := by
  induction k with
  | zero => exact h
  | succ k ih => exact ih.cons

theorem Pulse.append_low (h : Pulse n signal) (k : ℕ) :
    Pulse n (signal ++ List.replicate k false) := by
  obtain ⟨before, after, rfl⟩ := h
  refine ⟨before, after + k, ?_⟩
  rw [List.append_assoc, List.replicate_append_replicate]

theorem pulse_low {α : Type*} {l : List α} {f : α → Bool} (h : ∀ k, f k = false) :
    Pulse 0 (l.map f) := by
  have hlow : l.map f = List.replicate l.length false :=
    List.eq_replicate_iff.mpr ⟨List.length_map f, fun x hx => by
      obtain ⟨k, -, rfl⟩ := List.mem_map.mp hx
      exact h k⟩
  exact ⟨l.length, 0, by simp [hlow]⟩

theorem pulse_high (n : ℕ) : Pulse n (List.replicate n true) := ⟨0, 0, by simp⟩

theorem map_range'_eq_replicate {first count : ℕ} {f : ℕ → Bool} {b : Bool}
    (h : ∀ k, first ≤ k → k < first + count → f k = b) :
    (List.range' first count).map f = List.replicate count b := by
  refine List.eq_replicate_iff.mpr ⟨by simp, fun x hx => ?_⟩
  obtain ⟨k, hk, rfl⟩ := List.mem_map.mp hx
  exact h k (List.mem_range'_1.mp hk).1 (List.mem_range'_1.mp hk).2

/-- A signal that is high while a counter is at `a` or above it, but below `a + n`. -/
theorem pulse_range' {first count a : ℕ} {f : ℕ → Bool} (ha : first ≤ a)
    (hn : a + n ≤ first + count) (hf : ∀ k < first + count, f k = true ↔ a ≤ k ∧ k < a + n) :
    Pulse n ((List.range' first count).map f) := by
  obtain ⟨before, rfl⟩ := Nat.exists_eq_add_of_le ha
  obtain ⟨after, rfl⟩ : ∃ after, count = before + n + after :=
    ⟨count - (before + n), by omega⟩
  refine ⟨before, after, ?_⟩
  rw [← List.range'_append_1, ← List.range'_append_1, List.map_append, List.map_append,
    map_range'_eq_replicate, map_range'_eq_replicate, map_range'_eq_replicate]
  all_goals
    intro k h1 h2
    have := hf k (by omega)
    grind

end Machine
