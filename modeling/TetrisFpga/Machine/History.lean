import Mathlib.Init

/-!
# Histories

A history is a list of events, the newest first. `Always P` and `Once P` say of how many of
its events `P` holds, where `P` may speak of an event and of the history before it. Both are
kept as the history grows.
-/

namespace History

variable {α : Type*} {P : α → List α → Prop}

/-- Every event came with `P`. -/
def Always (P : α → List α → Prop) : List α → Prop
  | [] => True
  | a :: log => P a log ∧ Always P log

/-- Some event came with `P`. -/
def Once (P : α → List α → Prop) : List α → Prop
  | [] => False
  | a :: log => P a log ∨ Once P log

instance Always.decidable [∀ a log, Decidable (P a log)] : ∀ log, Decidable (Always P log)
  | [] => .isTrue trivial
  | a :: log =>
    haveI := Always.decidable log
    inferInstanceAs (Decidable (P a log ∧ Always P log))

instance Once.decidable [∀ a log, Decidable (P a log)] : ∀ log, Decidable (Once P log)
  | [] => .isFalse id
  | a :: log =>
    haveI := Once.decidable log
    inferInstanceAs (Decidable (P a log ∨ Once P log))

@[simp] theorem always_nil : Always P [] := trivial

@[simp] theorem always_cons {a : α} {log : List α} :
    Always P (a :: log) ↔ P a log ∧ Always P log := Iff.rfl

@[simp] theorem once_cons {a : α} {log : List α} :
    Once P (a :: log) ↔ P a log ∨ Once P log := Iff.rfl

end History
