import Mathlib.Init

/-!
# Runs of deterministic machines

A machine is a transition function `next : σ → ι → σ`: one step for every input.
`run` feeds it a list of inputs and `Along` says that a guard held at every step of
the way. `Along.invariant` is the one induction over runs: an invariant may speak of
the machine and of a monitor that watches the same inputs.
-/

namespace Machine

variable {σ ι μ : Type*}

/-- The state after the inputs `is`, taken in order. -/
def run (next : σ → ι → σ) (s : σ) (is : List ι) : σ := is.foldl next s

@[simp] theorem run_nil (next : σ → ι → σ) (s : σ) : run next s [] = s := rfl

@[simp] theorem run_cons (next : σ → ι → σ) (s : σ) (i : ι) (is : List ι) :
    run next s (i :: is) = run next (next s i) is := rfl

theorem run_append (next : σ → ι → σ) (s : σ) (is js : List ι) :
    run next s (is ++ js) = run next (run next s is) js :=
  List.foldl_append

/-- `guard` holds of the state and the input at every step of the run. -/
def Along (next : σ → ι → σ) (guard : σ → ι → Prop) : σ → List ι → Prop
  | _, [] => True
  | s, i :: is => guard s i ∧ Along next guard (next s i) is

@[simp] theorem along_nil (next : σ → ι → σ) (guard : σ → ι → Prop) (s : σ) :
    Along next guard s [] := trivial

@[simp] theorem along_cons (next : σ → ι → σ) (guard : σ → ι → Prop) (s : σ) (i : ι)
    (is : List ι) :
    Along next guard s (i :: is) ↔ guard s i ∧ Along next guard (next s i) is := Iff.rfl

theorem along_append {next : σ → ι → σ} {guard : σ → ι → Prop} {s : σ} {is js : List ι} :
    Along next guard s (is ++ js) ↔
      Along next guard s is ∧ Along next guard (run next s is) js := by
  induction is generalizing s with
  | nil => exact (and_iff_right trivial).symm
  | cons i is ih => simp only [List.cons_append, along_cons, run_cons, ih, and_assoc]

theorem Along.imp {next : σ → ι → σ} {guard guard' : σ → ι → Prop}
    (hguard : ∀ s i, guard s i → guard' s i) {s : σ} {is : List ι} (h : Along next guard s is) :
    Along next guard' s is := by
  induction is generalizing s with
  | nil => trivial
  | cons i is ih => exact ⟨hguard s i h.1, ih h.2⟩

theorem along_of_forall_mem {next : σ → ι → σ} {guard : σ → ι → Prop} {is : List ι}
    (h : ∀ i ∈ is, ∀ s, guard s i) (s : σ) : Along next guard s is := by
  induction is generalizing s with
  | nil => trivial
  | cons i is ih =>
    exact ⟨h i List.mem_cons_self s, ih (fun j hj => h j (List.mem_cons_of_mem i hj)) _⟩

instance Along.decidable (next : σ → ι → σ) (guard : σ → ι → Prop)
    [∀ s i, Decidable (guard s i)] : ∀ s is, Decidable (Along next guard s is)
  | _, [] => .isTrue trivial
  | s, i :: is =>
    haveI := Along.decidable next guard (next s i) is
    inferInstanceAs (Decidable (guard s i ∧ Along next guard (next s i) is))

/-- A step invariant is a run invariant. The guard is kept by the monitor `watch`, which
sees the same inputs as the machine; without one, take the machine itself. -/
theorem Along.invariant {next : σ → ι → σ} {watch : μ → ι → μ} {guard : μ → ι → Prop}
    {Inv : μ → σ → Prop}
    (hstep : ∀ m s i, Inv m s → guard m i → Inv (watch m i) (next s i)) {m : μ} {s : σ}
    {is : List ι} (hs : Inv m s) (hg : Along watch guard m is) :
    Inv (run watch m is) (run next s is) := by
  induction is generalizing m s with
  | nil => exact hs
  | cons i is ih => exact ih (hstep m s i hs hg.1) hg.2

/-- The machine watching itself: an invariant that every guarded step keeps. -/
theorem Along.invariant_self {next : σ → ι → σ} {guard : σ → ι → Prop} {Inv : σ → Prop}
    (hstep : ∀ s i, Inv s → guard s i → Inv (next s i)) {s : σ} {is : List ι} (hs : Inv s)
    (hg : Along next guard s is) : Inv (run next s is) := by
  induction is generalizing s with
  | nil => exact hs
  | cons i is ih => exact ih (hstep s i hs hg.1) hg.2

/-- An invariant that every step keeps, whatever the input, holds after every run. -/
theorem run_invariant {next : σ → ι → σ} {Inv : σ → Prop}
    (hstep : ∀ s i, Inv s → Inv (next s i)) {s : σ} (hs : Inv s) (is : List ι) :
    Inv (run next s is) := by
  induction is generalizing s with
  | nil => exact hs
  | cons i is ih => exact ih (hstep s i hs)

end Machine
