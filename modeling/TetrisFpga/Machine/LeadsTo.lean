import Mathlib.Logic.Function.Iterate
import Mathlib.Tactic.Choose
import TetrisFpga.Machine.Program

/-!
# What the rounds of a loop lead to

`LeadsTo x P Q`: from every state in `P` a number of rounds of `x` end in `Q`. The rules put such
facts together: one round, two stretches, and a stretch of rounds on which a measure goes down.
`exists_path` is the rule of a simulation: every round is a step of `R`.
-/

namespace Program

variable {ε σ : Type} {x : EStateM ε σ Unit} {P P' Q Q' R : σ → Prop}

/-- From every state in `P` a number of rounds of `x` end in `Q`. -/
def LeadsTo (x : EStateM ε σ Unit) (P Q : σ → Prop) : Prop :=
  ∀ s, P s → ∃ n s', times x n s = .ok () s' ∧ Q s'

theorem times_add {m n : ℕ} {s t : σ} (h : times x m s = .ok () t) :
    times x (m + n) s = times x n t := by
  induction m generalizing s with
  | zero =>
    rw [Nat.zero_add]
    cases h
    rfl
  | succ m ih =>
    rw [Nat.add_right_comm, times]
    rw [times] at h
    cases hr : x s with
    | ok a s' =>
      rw [bind_of_ok hr] at h ⊢
      exact ih h
    | error e s' =>
      rw [bind_of_error hr] at h
      cases h

theorem leadsTo_of_imp (h : ∀ s, P s → Q s) : LeadsTo x P Q :=
  fun s hs => ⟨0, s, rfl, h s hs⟩

theorem LeadsTo.trans (h : LeadsTo x P Q) (h' : LeadsTo x Q R) : LeadsTo x P R := by
  intro s hs
  obtain ⟨m, t, hr, ht⟩ := h s hs
  obtain ⟨n, u, hr', hu⟩ := h' t ht
  exact ⟨m + n, u, (times_add hr).trans hr', hu⟩

theorem LeadsTo.conseq (h : LeadsTo x P Q) (hP : ∀ s, P' s → P s) (hQ : ∀ s, Q s → Q' s) :
    LeadsTo x P' Q' :=
  (leadsTo_of_imp hP).trans (h.trans (leadsTo_of_imp hQ))

theorem Succeeds.leadsTo (h : Succeeds P x fun _ => Q) : LeadsTo x P Q := by
  intro s hs
  obtain ⟨a, t, hr, ht⟩ := h s hs
  exact ⟨1, t, bind_of_ok hr _, ht⟩

theorem leadsTo_exists {ι : Sort*} {P : ι → σ → Prop} (h : ∀ i, LeadsTo x (P i) Q) :
    LeadsTo x (fun s => ∃ i, P i s) Q :=
  fun s ⟨i, hs⟩ => h i s hs

/-- The variant rule: a round that does not get to `Q` lowers the measure. -/
theorem leadsTo_of_measure {ι : Type*} [r : WellFoundedRelation ι] {P : ι → σ → Prop}
    (h : ∀ i, Succeeds (P i) x fun _ s => Q s ∨ ∃ i', r.rel i' i ∧ P i' s) (i : ι) :
    LeadsTo x (P i) Q := by
  induction i using r.wf.induction with
  | _ i ih =>
    intro s hs
    obtain ⟨a, t, hr, hdone | ⟨i', hlt, ht⟩⟩ := h i s hs
    · exact ⟨1, t, bind_of_ok hr _, hdone⟩
    · obtain ⟨n, u, hr', hu⟩ := ih i' hlt t ht
      exact ⟨n + 1, u, (bind_of_ok hr _).trans hr', hu⟩

/-- Every round is a step of `R`, so a run without an end goes along a path of `R`. -/
theorem exists_path {ι : Type*} {P : ι → σ → Prop} {R : ι → ι → Prop}
    (h : ∀ i, Succeeds (P i) x fun _ s => ∃ j, R i j ∧ P j s) {i : ι} {s : σ} (hs : P i s) :
    ∃ path : ℕ → ι, path 0 = i ∧
      ∀ m, R (path m) (path (m + 1)) ∧ ∃ t, times x m s = .ok () t ∧ P (path m) t := by
  have hnext (p : { p : ι × σ // P p.1 p.2 }) : ∃ q : { p : ι × σ // P p.1 p.2 },
      x p.1.2 = .ok () q.1.2 ∧ R p.1.1 q.1.1 := by
    obtain ⟨a, t, hr, j, hj, ht⟩ := h p.1.1 p.1.2 p.2
    exact ⟨⟨(j, t), ht⟩, hr, hj⟩
  choose next hround hstep using hnext
  let run (m : ℕ) : { p : ι × σ // P p.1 p.2 } := next^[m] ⟨(i, s), hs⟩
  have hrun (m : ℕ) : run (m + 1) = next (run m) := Function.iterate_succ_apply' next m _
  have htimes (m : ℕ) : times x m s = .ok () (run m).1.2 := by
    induction m with
    | zero => rfl
    | succ m ih =>
      rw [times_add ih, hrun]
      exact bind_of_ok (hround (run m)) _
  refine ⟨fun m => (run m).1.1, rfl, fun m => ⟨?_, (run m).1.2, htimes m, (run m).2⟩⟩
  show R (run m).1.1 (run (m + 1)).1.1
  rw [hrun]
  exact hstep (run m)

end Program
