import TetrisFpga.Machine.Program

/-!
# Two runs of a program

Rules for two runs of the same program from related states. The first run is assumed to end in
`G`, which cannot be lost on the way back: so `G` may say what the run has done.

## Main definitions

- `Alike R`: two results with the same value or the same fault, in related states
- `TwoRuns R G x`: runs of `x` from related states end alike, if the first one ends in `G`
-/

namespace Program

variable {ε σ α β : Type} {R : σ → σ → Prop} {G : σ → Prop}

inductive Alike (R : σ → σ → Prop) : EStateM.Result ε σ α → EStateM.Result ε σ α → Prop
  | ok {a : α} {s t : σ} : R s t → Alike R (.ok a s) (.ok a t)
  | error {e : ε} {s t : σ} : R s t → Alike R (.error e s) (.error e t)

theorem Alike.final {r r' : EStateM.Result ε σ α} (h : Alike R r r') : R (final r) (final r') := by
  cases h with
  | ok hrel => exact hrel
  | error hrel => exact hrel

theorem Alike.value? {r r' : EStateM.Result ε σ α} (h : Alike R r r') :
    Program.value? r' = Program.value? r := by
  cases h <;> rfl

structure TwoRuns (R : σ → σ → Prop) (G : σ → Prop) (x : EStateM ε σ α) : Prop where
  back : ∀ s, G (final (x s)) → G s
  alike : ∀ s t, R s t → G (final (x s)) → Alike R (x s) (x t)

/-- A program that ends with the same value in related states. -/
theorem TwoRuns.of_ok {x : EStateM ε σ α} (hback : ∀ s, G (Program.final (x s)) → G s)
    (hok : ∀ s t, R s t → G (Program.final (x s)) →
      ∃ a s' t', x s = .ok a s' ∧ x t = .ok a t' ∧ R s' t') : TwoRuns R G x where
  back := hback
  alike s t hst hG := by
    obtain ⟨a, s', t', hs, ht, hrel⟩ := hok s t hst hG
    rw [hs, ht]
    exact .ok hrel

theorem twoRuns_throw (e : ε) : TwoRuns R G (throw e : EStateM ε σ α) where
  back _ hG := hG
  alike _ _ hst _ := .error hst

theorem closed_twoRuns (R : σ → σ → Prop) (G : σ → Prop) :
    Closed (ε := ε) (fun _ => TwoRuns R G) where
  pure a := ⟨fun _ hG => hG, fun _ _ hst _ => .ok hst⟩
  bind {_ _ x f} hx hf := by
    refine ⟨fun s hG => ?_, fun s t hst hG => ?_⟩
    · cases hr : x s with
      | ok a s' =>
        rw [bind_of_ok hr] at hG
        exact hx.back s (by rw [hr]; exact (hf a).back s' hG)
      | error e s' =>
        rw [bind_of_error hr] at hG
        exact hx.back s (by rw [hr]; exact hG)
    -- `G` holds behind the first part, since it holds behind the whole
    · have hback : G (Program.final (x s)) := by
        cases hr : x s with
        | ok a s' =>
          rw [bind_of_ok hr] at hG
          exact (hf a).back s' hG
        | error e s' =>
          rw [bind_of_error hr] at hG
          exact hG
      have halike := hx.alike s t hst hback
      cases hr : x s with
      | ok a s' =>
        cases hr' : x t with
        | ok b t' =>
          rw [hr, hr'] at halike
          cases halike with
          | ok hrel =>
            rw [bind_of_ok hr] at hG ⊢
            rw [bind_of_ok hr']
            exact (hf a).alike s' t' hrel hG
        | error e t' =>
          rw [hr, hr'] at halike
          cases halike
      | error e s' =>
        cases hr' : x t with
        | ok b t' =>
          rw [hr, hr'] at halike
          cases halike
        | error e' t' =>
          rw [hr, hr'] at halike
          cases halike with
          | error hrel =>
            rw [bind_of_error hr, bind_of_error hr']
            exact .error hrel

end Program
