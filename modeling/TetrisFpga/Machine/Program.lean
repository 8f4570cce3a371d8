import Mathlib.Data.Nat.Notation

/-!
# Programs with state and faults

Rules for programs in `EStateM ε σ`, which end with a value or with a fault and in either
case leave a state behind. A loop takes fuel, one unit for every time its body is entered,
and a loop out of fuel ends with a fault: what is proved of the state left behind therefore
also holds at the point where a longer run is cut off.

## Main definitions

- `whileLoop`, `forever`, `times`: loops with fuel, and `n` rounds of the same program
- `Closed C`: the class `C` of programs is closed under sequencing
- `Moves R`, `Avoids e`: two such classes
- `Triple P x Q E`: from `P`, `x` ends in `Q` with a value or in `E` with a fault
- `Keeps I E x`: `x` keeps the invariant `I`
- `Safe e P x Q`: from `P`, `x` does not end with the fault `e`, and with a value only in `Q`
- `KeepsUnless e I x`: `x` keeps the invariant `I`, unless it ends with the fault `e`
- `Succeeds P x Q`: from `P`, `x` ends with a value, and in `Q`
- `Extends F x y`: `y` runs as `x` does, unless `x` ends with a fault of `F`
-/

namespace Program

variable {ε σ α β : Type}

/-- The state a run leaves behind. -/
def final : EStateM.Result ε σ α → σ
  | .ok _ s => s
  | .error _ s => s

/-- The value a run ends with, if it has one. -/
def value? : EStateM.Result ε σ α → Option α
  | .ok a _ => some a
  | .error _ _ => none

theorem eq_ok_of_value? {r : EStateM.Result ε σ α} {a : α} (h : value? r = some a) :
    r = .ok a (final r) := by
  cases r with
  | ok b s =>
    cases h
    rfl
  | error e s => cases h

theorem pure_apply (a : α) (s : σ) : (pure a : EStateM ε σ α) s = .ok a s := rfl

theorem bind_of_ok {x : EStateM ε σ α} {s s' : σ} {a : α} (h : x s = .ok a s')
    (f : α → EStateM ε σ β) : (x >>= f) s = f a s' := by
  change EStateM.bind x f s = _
  rw [EStateM.bind, h]

theorem bind_of_error {x : EStateM ε σ α} {s s' : σ} {e : ε} (h : x s = .error e s')
    (f : α → EStateM ε σ β) : (x >>= f) s = .error e s' := by
  change EStateM.bind x f s = _
  rw [EStateM.bind, h]

/-- `if (c) x`. -/
def when (c : Prop) [Decidable c] (x : EStateM ε σ Unit) : EStateM ε σ Unit :=
  if c then x else pure ()

/-! ## Loops -/

/-- `while (cond a) a = body a`, then `after a`. The body leaves the loop with `.inr`. -/
def whileLoop (e : ε) (cond : α → EStateM ε σ Bool) (body : α → EStateM ε σ (α ⊕ β))
    (after : α → EStateM ε σ β) : ℕ → α → EStateM ε σ β
  | 0, a => do
    if ← cond a then throw e else after a
  | n + 1, a => do
    if ← cond a then
      match ← body a with
      | .inl a' => whileLoop e cond body after n a'
      | .inr b => pure b
    else after a

/-- `while (1) a = body a`. -/
def forever (e : ε) (body : α → EStateM ε σ (α ⊕ β)) : ℕ → α → EStateM ε σ β :=
  whileLoop e (fun _ => pure true) body (fun _ => throw e)

/-- The first round of an endless loop, and the others. -/
theorem forever_succ (e : ε) (body : α → EStateM ε σ (α ⊕ β)) (n : ℕ) (a : α) :
    forever e body (n + 1) a = (do
      match ← body a with
      | .inl a' => forever e body n a'
      | .inr b => pure b) := rfl

/-- `n` rounds of `x`. -/
def times (x : EStateM ε σ Unit) : ℕ → EStateM ε σ Unit
  | 0 => pure ()
  | n + 1 => do
    x
    times x n

/-- Every round of `times x n` from `s` starts in a state that meets `guard`. -/
def Guarded (x : EStateM ε σ Unit) (guard : σ → Prop) : ℕ → σ → Prop
  | 0, _ => True
  | n + 1, s => guard s ∧ match x s with
    | .ok _ s' => Guarded x guard n s'
    | .error _ _ => True

instance Guarded.decidable (x : EStateM ε σ Unit) (guard : σ → Prop)
    [∀ s, Decidable (guard s)] : ∀ n s, Decidable (Guarded x guard n s)
  | 0, _ => .isTrue trivial
  | n + 1, s =>
    match h : x s with
    | .ok _ s' =>
      haveI := Guarded.decidable x guard n s'
      decidable_of_iff (guard s ∧ Guarded x guard n s') (by simp only [Guarded, h])
    | .error _ _ => decidable_of_iff (guard s) (by simp only [Guarded, h, and_true])

/-! ## Classes of programs -/

/-- `C` has the programs that do nothing and is closed under sequencing. -/
structure Closed (C : ∀ α : Type, EStateM ε σ α → Prop) : Prop where
  pure : ∀ {α : Type} (a : α), C α (Pure.pure a)
  bind : ∀ {α β : Type} {x : EStateM ε σ α} {f : α → EStateM ε σ β},
    C α x → (∀ a, C β (f a)) → C β (x >>= f)

namespace Closed

variable {C : ∀ α : Type, EStateM ε σ α → Prop}

theorem ite (_ : Closed C) {c : Prop} [Decidable c] {x y : EStateM ε σ α} (hx : C α x)
    (hy : C α y) : C α (if c then x else y) := by
  split
  · exact hx
  · exact hy

theorem when (hC : Closed C) {c : Prop} [Decidable c] {x : EStateM ε σ Unit} (hx : C Unit x) :
    C Unit (Program.when c x) :=
  hC.ite hx (hC.pure ())

theorem whileLoop (hC : Closed C) {e : ε} {cond : α → EStateM ε σ Bool}
    {body : α → EStateM ε σ (α ⊕ β)} {after : α → EStateM ε σ β} (he : C β (throw e))
    (hcond : ∀ a, C Bool (cond a)) (hbody : ∀ a, C (α ⊕ β) (body a))
    (hafter : ∀ a, C β (after a)) (n : ℕ) (a : α) :
    C β (Program.whileLoop e cond body after n a) := by
  induction n generalizing a with
  | zero => exact hC.bind (hcond a) fun c => hC.ite he (hafter a)
  | succ n ih =>
    refine hC.bind (hcond a) fun c => hC.ite (hC.bind (hbody a) fun r => ?_) (hafter a)
    cases r with
    | inl a' => exact ih a'
    | inr b => exact hC.pure b

theorem forever (hC : Closed C) {e : ε} {body : α → EStateM ε σ (α ⊕ β)}
    (he : C β (throw e)) (hbody : ∀ a, C (α ⊕ β) (body a)) (n : ℕ) (a : α) :
    C β (Program.forever e body n a) :=
  hC.whileLoop he (fun _ => hC.pure true) hbody (fun _ => he) n a

theorem forM (hC : Closed C) {f : α → EStateM ε σ PUnit} (hf : ∀ a, C PUnit (f a))
    (as : List α) : C PUnit (as.forM f) := by
  induction as with
  | nil => exact hC.pure ()
  | cons a as ih => exact hC.bind (hf a) fun _ => ih

theorem times (hC : Closed C) {x : EStateM ε σ Unit} (hx : C Unit x) (n : ℕ) :
    C Unit (Program.times x n) := by
  induction n with
  | zero => exact hC.pure ()
  | succ n ih => exact hC.bind hx fun _ => ih

end Closed

/-- Every run of `x` moves the state along `R`. -/
def Moves (R : σ → σ → Prop) (x : EStateM ε σ α) : Prop := ∀ s, R s (final (x s))

theorem closed_moves {R : σ → σ → Prop} (hrefl : ∀ s, R s s)
    (htrans : ∀ {s t u}, R s t → R t u → R s u) :
    Closed (ε := ε) (fun _ => Moves R) where
  pure _ s := hrefl s
  bind {_ _ x f} hx hf s := by
    have h := hx s
    cases hr : x s with
    | ok a s' =>
      rw [hr] at h
      rw [bind_of_ok hr]
      exact htrans h (hf a s')
    | error e s' =>
      rw [hr] at h
      rwa [bind_of_error hr]

/-- What follows `x` moves the state that `x` leaves along `R`. -/
theorem Moves.rest {R : σ → σ → Prop} (hrefl : ∀ s, R s s) {f : α → EStateM ε σ β}
    (hf : ∀ a, Moves R (f a)) (x : EStateM ε σ α) (s : σ) :
    R (final (x s)) (final ((x >>= f) s)) := by
  cases hr : x s with
  | ok a s' =>
    rw [bind_of_ok hr]
    exact hf a s'
  | error e s' =>
    rw [bind_of_error hr]
    exact hrefl s'

/-- What a round keeps if and only if it starts in a state that meets `guard`, a run keeps if and
only if all its rounds do. -/
theorem final_times_iff {J guard : σ → Prop} {x : EStateM ε σ Unit}
    (hx : ∀ s, J (final (x s)) ↔ J s ∧ guard s) (n : ℕ) (s : σ) :
    J (final (times x n s)) ↔ J s ∧ Guarded x guard n s := by
  induction n generalizing s with
  | zero => exact (and_iff_left trivial).symm
  | succ n ih =>
    have hxs := hx s
    rw [times, Guarded]
    cases hr : x s with
    | ok a s' =>
      rw [hr] at hxs
      rw [bind_of_ok hr, ih s', ← and_assoc, ← hxs]
      rfl
    | error e s' =>
      rw [hr] at hxs
      rw [bind_of_error hr, and_iff_left trivial]
      exact hxs

/-- No run of `x` ends with the fault `e`. -/
def Avoids (e : ε) (x : EStateM ε σ α) : Prop := ∀ s s', x s ≠ .error e s'

theorem avoids_throw {e e' : ε} (h : e' ≠ e) : Avoids e (throw e' : EStateM ε σ α) := by
  intro s s' heq
  cases heq
  exact h rfl

theorem closed_avoids (e : ε) : Closed (σ := σ) (fun _ => Avoids e) where
  pure _ := nofun
  bind {_ _ x f} hx hf s s' h := by
    cases hr : x s with
    | ok a t =>
      rw [bind_of_ok hr] at h
      exact hf a t s' h
    | error e' t =>
      rw [bind_of_error hr] at h
      cases h
      exact hx s s' hr

/-! ## Triples -/

/-- From a state in `P`, `x` ends with a value in `Q` or with a fault in `E`. -/
structure Triple (P : σ → Prop) (x : EStateM ε σ α) (Q : α → σ → Prop) (E : σ → Prop) :
    Prop where
  ok : ∀ s a s', P s → x s = .ok a s' → Q a s'
  error : ∀ s e s', P s → x s = .error e s' → E s'

/-- `x` keeps `I`, up to a fault that leaves it in `E`. -/
abbrev Keeps (I E : σ → Prop) (x : EStateM ε σ α) : Prop := Triple I x (fun _ => I) E

section Triple

variable {P P' : σ → Prop} {Q Q' : α → σ → Prop} {E : σ → Prop}

theorem Triple.conseq {x : EStateM ε σ α} (h : Triple P x Q E) (hP : ∀ s, P' s → P s)
    (hQ : ∀ a s, Q a s → Q' a s) : Triple P' x Q' E where
  ok s a s' hs hr := hQ a s' (h.ok s a s' (hP s hs) hr)
  error s e s' hs hr := h.error s e s' (hP s hs) hr

theorem Triple.weaken {x : EStateM ε σ α} {E' : σ → Prop} (h : Triple P x Q E)
    (hE : ∀ s, E s → E' s) : Triple P x Q E' where
  ok := h.ok
  error s e s' hs hr := hE s' (h.error s e s' hs hr)

theorem Triple.and {x : EStateM ε σ α} {E' : σ → Prop} (h : Triple P x Q E)
    (h' : Triple P' x Q' E') :
    Triple (fun s => P s ∧ P' s) x (fun a s => Q a s ∧ Q' a s) fun s => E s ∧ E' s where
  ok s a s' hs hr := ⟨h.ok s a s' hs.1 hr, h'.ok s a s' hs.2 hr⟩
  error s e s' hs hr := ⟨h.error s e s' hs.1 hr, h'.error s e s' hs.2 hr⟩

theorem Triple.final {x : EStateM ε σ α} (h : Triple P x (fun _ => E) E) {s : σ} (hs : P s) :
    E (final (x s)) := by
  cases hr : x s with
  | ok a s' => exact h.ok s a s' hs hr
  | error e s' => exact h.error s e s' hs hr

theorem triple_pure {a : α} (h : ∀ s, P s → Q a s) : Triple P (pure a : EStateM ε σ α) Q E where
  ok s b s' hs hr := by
    cases hr
    exact h s hs
  error s e s' _ hr := by cases hr

theorem triple_throw {e : ε} (h : ∀ s, P s → E s) : Triple P (throw e : EStateM ε σ α) Q E where
  ok s b s' _ hr := by cases hr
  error s e s' hs hr := by
    cases hr
    exact h s hs

theorem triple_bind {x : EStateM ε σ α} {f : α → EStateM ε σ β} {Q₂ : β → σ → Prop}
    (hx : Triple P x Q E) (hf : ∀ a, Triple (Q a) (f a) Q₂ E) : Triple P (x >>= f) Q₂ E where
  ok s b s' hs hr := by
    cases hxs : x s with
    | ok a t =>
      rw [bind_of_ok hxs] at hr
      exact (hf a).ok t b s' (hx.ok s a t hs hxs) hr
    | error e t =>
      rw [bind_of_error hxs] at hr
      cases hr
  error s e s' hs hr := by
    cases hxs : x s with
    | ok a t =>
      rw [bind_of_ok hxs] at hr
      exact (hf a).error t e s' (hx.ok s a t hs hxs) hr
    | error e' t =>
      rw [bind_of_error hxs] at hr
      cases hr
      exact hx.error s e s' hs hxs

theorem triple_ite {c : Prop} [Decidable c] {x y : EStateM ε σ α}
    (hx : c → Triple P x Q E) (hy : ¬c → Triple P y Q E) : Triple P (if c then x else y) Q E := by
  by_cases h : c
  · rw [if_pos h]
    exact hx h
  · rw [if_neg h]
    exact hy h

/-- A fact that holds before `x` may be used to prove the triple. -/
theorem triple_of_fact {c : Prop} {x : EStateM ε σ α} (h : c → Triple P x Q E) :
    Triple (fun s => P s ∧ c) x Q E where
  ok s a s' hs hr := (h hs.2).ok s a s' hs.1 hr
  error s e s' hs hr := (h hs.2).error s e s' hs.1 hr

theorem triple_of_imp {c : Prop} {x : EStateM ε σ α} (hc : ∀ s, P s → c)
    (h : c → Triple P x Q E) : Triple P x Q E :=
  (triple_of_fact h).conseq (fun s hs => ⟨hs, hc s hs⟩) fun _ _ h => h

theorem triple_exists {ι : Sort*} {P : ι → σ → Prop} {x : EStateM ε σ α}
    (h : ∀ i, Triple (P i) x Q E) : Triple (fun s => ∃ i, P i s) x Q E where
  ok s a s' hs hr := hs.elim fun i hi => (h i).ok s a s' hi hr
  error s e s' hs hr := hs.elim fun i hi => (h i).error s e s' hi hr

/-- The state before `x` may be named. -/
theorem triple_of_forall {x : EStateM ε σ α} (h : ∀ t, P t → Triple (fun s => s = t) x Q E) :
    Triple P x Q E where
  ok s a s' hs hr := (h s hs).ok s a s' rfl hr
  error s e s' hs hr := (h s hs).error s e s' rfl hr

/-- A loop over a list, with a condition on what it has been through. -/
theorem triple_forM {P : List α → σ → Prop} {f : α → EStateM ε σ PUnit}
    (hf : ∀ a done, Triple (P done) (f a) (fun _ => P (a :: done)) E) (as done : List α) :
    Triple (P done) (as.forM f) (fun _ => P (as.reverse ++ done)) E := by
  induction as generalizing done with
  | nil => exact triple_pure fun _ h => h
  | cons a as ih =>
    rw [List.reverse_cons, List.append_assoc]
    exact triple_bind (hf a done) fun _ => ih (a :: done)

theorem triple_when {c : Prop} [Decidable c] {x : EStateM ε σ Unit} {Q : Unit → σ → Prop}
    (hx : c → Triple P x Q E) (hpure : ¬c → ∀ s, P s → Q () s) : Triple P (when c x) Q E :=
  triple_ite hx fun h => triple_pure (hpure h)

/-- The invariant rule: the test keeps `I`, and the body keeps `I` or leaves the loop in `Q`. -/
theorem triple_whileLoop {e : ε} {I : α → σ → Prop} {Q : β → σ → Prop}
    {cond : α → EStateM ε σ Bool} {body : α → EStateM ε σ (α ⊕ β)} {after : α → EStateM ε σ β}
    (hcond : ∀ a, Triple (I a) (cond a) (fun _ => I a) E)
    (hbody : ∀ a, Triple (I a) (body a) (Sum.rec I Q) E)
    (hafter : ∀ a, Triple (I a) (after a) Q E) (hE : ∀ a s, I a s → E s) (n : ℕ) (a : α) :
    Triple (I a) (whileLoop e cond body after n a) Q E := by
  induction n generalizing a with
  | zero => exact triple_bind (hcond a) fun c =>
      triple_ite (fun _ => triple_throw (hE a)) fun _ => hafter a
  | succ n ih =>
    refine triple_bind (hcond a) fun c => triple_ite (fun _ => ?_) fun _ => hafter a
    refine triple_bind (hbody a) fun r => ?_
    cases r with
    | inl a' => exact ih a'
    | inr b => exact triple_pure fun _ h => h

/-- The invariant rule for a loop whose test is a fact about the variable. -/
theorem triple_whileLive {e : ε} {I : α → σ → Prop} {Q : β → σ → Prop} {live : α → Bool}
    {body : α → EStateM ε σ (α ⊕ β)} {after : α → EStateM ε σ β}
    (hbody : ∀ a, live a = true → Triple (I a) (body a) (Sum.rec I Q) E)
    (hafter : ∀ a, live a = false → Triple (I a) (after a) Q E) (hE : ∀ a s, I a s → E s)
    (n : ℕ) (a : α) :
    Triple (I a) (whileLoop e (fun a => pure (live a)) body after n a) Q E := by
  have htest (a : α) : Triple (I a) (pure (live a) : EStateM ε σ Bool)
      (fun c s => I a s ∧ c = live a) E := triple_pure fun s hs => ⟨hs, rfl⟩
  induction n generalizing a with
  | zero =>
    refine triple_bind (htest a) fun c => triple_of_fact fun hc =>
      triple_ite (fun _ => triple_throw (hE a)) fun hlive => hafter a ?_
    rw [← hc]
    exact Bool.eq_false_iff.mpr hlive
  | succ n ih =>
    refine triple_bind (htest a) fun c => triple_of_fact fun hc =>
      triple_ite (fun hlive => ?_) fun hlive => hafter a ?_
    · refine triple_bind (hbody a (hc ▸ hlive)) fun r => ?_
      cases r with
      | inl a' => exact ih a'
      | inr b => exact triple_pure fun _ h => h
    · rw [← hc]
      exact Bool.eq_false_iff.mpr hlive

theorem triple_forever {e : ε} {I : α → σ → Prop} {Q : β → σ → Prop}
    {body : α → EStateM ε σ (α ⊕ β)}
    (hbody : ∀ a, Triple (I a) (body a) (Sum.rec I Q) E) (hE : ∀ a s, I a s → E s)
    (n : ℕ) (a : α) : Triple (I a) (forever e body n a) Q E :=
  triple_whileLoop (fun _ => triple_pure fun _ h => h) hbody (fun a => triple_throw (hE a)) hE n a

theorem closed_keeps (I E : σ → Prop) : Closed (ε := ε) (fun _ => Keeps I E) where
  pure _ := triple_pure fun _ h => h
  bind hx hf := triple_bind hx hf

theorem Moves.keeps {R : σ → σ → Prop} {x : EStateM ε σ α} (hx : Moves R x) {I : σ → Prop}
    (hI : ∀ s s', R s s' → I s → I s') : Keeps I I x where
  ok s a s' hs hr := hI s s' (by simpa [hr, final] using hx s) hs
  error s e s' hs hr := hI s s' (by simpa [hr, final] using hx s) hs

theorem Triple.times {I guard : σ → Prop} {x : EStateM ε σ Unit}
    (hx : Triple (fun s => I s ∧ guard s) x (fun _ => I) E) (n : ℕ) :
    Triple (fun s => I s ∧ Guarded x guard n s) (Program.times x n) (fun _ => I) E := by
  induction n with
  | zero => exact triple_pure fun s h => h.1
  | succ n ih =>
    refine triple_bind (Q := fun _ s => I s ∧ Guarded x guard n s) ⟨?_, ?_⟩ fun _ => ih
    · intro s a s' ⟨hI, hg, hrest⟩ hr
      rw [hr] at hrest
      exact ⟨hx.ok s a s' ⟨hI, hg⟩ hr, hrest⟩
    · intro s e s' ⟨hI, hg, _⟩ hr
      exact hx.error s e s' ⟨hI, hg⟩ hr

end Triple

/-! ## Triples that exclude one fault -/

/-- From a state in `P`, `x` does not end with the fault `e`, and with a value only in `Q`. -/
structure Safe (e : ε) (P : σ → Prop) (x : EStateM ε σ α) (Q : α → σ → Prop) : Prop where
  ok : ∀ s a s', P s → x s = .ok a s' → Q a s'
  error : ∀ s s', P s → x s ≠ .error e s'

/-- `x` keeps `I` and does not end with `e`. -/
abbrev KeepsSafe (e : ε) (I : σ → Prop) (x : EStateM ε σ α) : Prop := Safe e I x fun _ => I

section Safe

variable {e : ε} {P P' : σ → Prop} {Q Q' : α → σ → Prop}

theorem Safe.conseq {x : EStateM ε σ α} (h : Safe e P x Q) (hP : ∀ s, P' s → P s)
    (hQ : ∀ a s, Q a s → Q' a s) : Safe e P' x Q' where
  ok s a s' hs hr := hQ a s' (h.ok s a s' (hP s hs) hr)
  error s s' hs hr := h.error s s' (hP s hs) hr

theorem Triple.safe {x : EStateM ε σ α} {E : σ → Prop} (h : Triple P x Q E)
    (hx : Avoids e x) : Safe e P x Q where
  ok := h.ok
  error s s' _ hr := hx s s' hr

theorem safe_pure {a : α} (h : ∀ s, P s → Q a s) : Safe e P (pure a : EStateM ε σ α) Q where
  ok s b s' hs hr := by
    cases hr
    exact h s hs
  error s s' _ hr := by cases hr

theorem safe_throw {e' : ε} (h : e' ≠ e) : Safe e P (throw e' : EStateM ε σ α) Q where
  ok s b s' _ hr := by cases hr
  error s s' _ hr := avoids_throw h s s' hr

theorem safe_bind {x : EStateM ε σ α} {f : α → EStateM ε σ β} {Q₂ : β → σ → Prop}
    (hx : Safe e P x Q) (hf : ∀ a, Safe e (Q a) (f a) Q₂) : Safe e P (x >>= f) Q₂ where
  ok s b s' hs hr := by
    cases hxs : x s with
    | ok a t =>
      rw [bind_of_ok hxs] at hr
      exact (hf a).ok t b s' (hx.ok s a t hs hxs) hr
    | error e' t =>
      rw [bind_of_error hxs] at hr
      cases hr
  error s s' hs hr := by
    cases hxs : x s with
    | ok a t =>
      rw [bind_of_ok hxs] at hr
      exact (hf a).error t s' (hx.ok s a t hs hxs) hr
    | error e' t =>
      rw [bind_of_error hxs] at hr
      cases hr
      exact hx.error s s' hs hxs

theorem safe_ite {c : Prop} [Decidable c] {x y : EStateM ε σ α}
    (hx : c → Safe e P x Q) (hy : ¬c → Safe e P y Q) : Safe e P (if c then x else y) Q := by
  by_cases h : c
  · rw [if_pos h]
    exact hx h
  · rw [if_neg h]
    exact hy h

theorem closed_safe (e : ε) (I : σ → Prop) : Closed (ε := ε) (fun _ => KeepsSafe e I) where
  pure _ := safe_pure fun _ h => h
  bind hx hf := safe_bind hx hf

end Safe

/-! ## Invariants up to a fault -/

/-- `x` keeps `I` in every run that does not end with the fault `e`. -/
structure KeepsUnless (e : ε) (I : σ → Prop) (x : EStateM ε σ α) : Prop where
  ok : ∀ s a s', I s → x s = .ok a s' → I s'
  error : ∀ s e' s', I s → x s = .error e' s' → e' ≠ e → I s'

section KeepsUnless

variable {e : ε} {I : σ → Prop}

theorem keepsUnless_throw (e' : ε) : KeepsUnless e I (throw e' : EStateM ε σ α) where
  ok s a s' _ hr := by cases hr
  error s e'' s' hs hr _ := by
    cases hr
    exact hs

theorem closed_keepsUnless (e : ε) (I : σ → Prop) :
    Closed (ε := ε) (fun _ => KeepsUnless e I) where
  pure a := {
    ok := fun s b s' hs hr => by
      cases hr
      exact hs
    error := fun s e' s' _ hr => by cases hr }
  bind {_ _ x f} hx hf := {
    ok := fun s b s' hs hr => by
      cases hxs : x s with
      | ok a t =>
        rw [bind_of_ok hxs] at hr
        exact (hf a).ok t b s' (hx.ok s a t hs hxs) hr
      | error e' t =>
        rw [bind_of_error hxs] at hr
        cases hr
    error := fun s e' s' hs hr hne => by
      cases hxs : x s with
      | ok a t =>
        rw [bind_of_ok hxs] at hr
        exact (hf a).error t e' s' (hx.ok s a t hs hxs) hr hne
      | error e'' t =>
        rw [bind_of_error hxs] at hr
        cases hr
        exact hx.error s e' s' hs hxs hne }

/-- In a run that does not end with `e` the invariant holds at the end. -/
theorem KeepsUnless.final {x : EStateM ε σ α} (h : KeepsUnless e I x) {s : σ} (hs : I s)
    (hne : ∀ s', x s ≠ .error e s') : I (final (x s)) := by
  cases hr : x s with
  | ok a s' => exact h.ok s a s' hs hr
  | error e' s' =>
    refine h.error s e' s' hs hr ?_
    rintro rfl
    exact hne s' hr

end KeepsUnless

/-! ## Total correctness -/

/-- From a state in `P`, `x` ends with a value, and in `Q`. -/
def Succeeds (P : σ → Prop) (x : EStateM ε σ α) (Q : α → σ → Prop) : Prop :=
  ∀ s, P s → ∃ a s', x s = .ok a s' ∧ Q a s'

theorem succeeds_bind {P : σ → Prop} {Q : α → σ → Prop} {Q₂ : β → σ → Prop}
    {x : EStateM ε σ α} {f : α → EStateM ε σ β} (hx : Succeeds P x Q)
    (hf : ∀ a, Succeeds (Q a) (f a) Q₂) : Succeeds P (x >>= f) Q₂ := by
  intro s hs
  obtain ⟨a, t, hr, ht⟩ := hx s hs
  obtain ⟨b, u, hr', hu⟩ := hf a t ht
  exact ⟨b, u, (bind_of_ok hr f).trans hr', hu⟩

theorem Succeeds.conseq {P P' : σ → Prop} {Q Q' : α → σ → Prop} {x : EStateM ε σ α}
    (h : Succeeds P x Q) (hP : ∀ s, P' s → P s) (hQ : ∀ a s, Q a s → Q' a s) :
    Succeeds P' x Q' := by
  intro s hs
  obtain ⟨a, t, hr, ht⟩ := h s (hP s hs)
  exact ⟨a, t, hr, hQ a t ht⟩

/-- A loop over a list whose body succeeds in `I` and keeps it. -/
theorem succeeds_forM {I : σ → Prop} {f : α → EStateM ε σ PUnit}
    (hf : ∀ a, Succeeds I (f a) fun _ => I) (as : List α) :
    Succeeds I (as.forM f) fun _ => I := by
  induction as with
  | nil => exact fun s hs => ⟨⟨⟩, s, rfl, hs⟩
  | cons a as ih => exact succeeds_bind (hf a) fun _ => ih

/-- `for (i = 0; i < n; i++) f(i)`, with what holds before each round. -/
theorem succeeds_range {P : ℕ → σ → Prop} {f : ℕ → EStateM ε σ PUnit}
    (hf : ∀ i, Succeeds (P i) (f i) fun _ => P (i + 1)) (n : ℕ) :
    Succeeds (P 0) ((List.range n).forM f) fun _ => P n := by
  induction n with
  | zero => exact fun s hs => ⟨⟨⟩, s, rfl, hs⟩
  | succ n ih =>
    rw [List.range_succ, List.forM_eq_forM, List.forM_append]
    refine succeeds_bind ih fun _ => ?_
    intro s hs
    obtain ⟨u, t, hr, ht⟩ := hf n s hs
    exact ⟨u, t, bind_of_ok hr _, ht⟩

/-! ## More fuel -/

/-- `y` runs as `x` does, unless `x` ends with a fault of `F`. -/
def Extends (F : ε → Prop) (x y : EStateM ε σ α) : Prop :=
  ∀ s, y s = x s ∨ ∃ e s', F e ∧ x s = .error e s'

section Extends

variable {F : ε → Prop}

theorem extends_refl (x : EStateM ε σ α) : Extends F x x := fun _ => .inl rfl

theorem extends_throw {e : ε} (he : F e) (y : EStateM ε σ α) : Extends F (throw e) y :=
  fun s => .inr ⟨e, s, he, rfl⟩

theorem extends_bind {x y : EStateM ε σ α} {f g : α → EStateM ε σ β} (hx : Extends F x y)
    (hf : ∀ a, Extends F (f a) (g a)) : Extends F (x >>= f) (y >>= g) := by
  intro s
  obtain hy | ⟨e, s', he, hr⟩ := hx s
  · cases hr : x s with
    | ok a t =>
      rw [bind_of_ok hr, bind_of_ok (hy.trans hr)]
      exact hf a t
    | error e t =>
      rw [bind_of_error hr, bind_of_error (hy.trans hr)]
      exact .inl rfl
  · exact .inr ⟨e, s', he, bind_of_error hr f⟩

theorem extends_ite {c : Prop} [Decidable c] {x y x' y' : EStateM ε σ α} (hx : Extends F x x')
    (hy : Extends F y y') : Extends F (if c then x else y) (if c then x' else y') := by
  split
  · exact hx
  · exact hy

/-- A loop with more fuel, whose body has more fuel as well. -/
theorem extends_whileLoop {e : ε} (he : F e) {cond : α → EStateM ε σ Bool}
    {body body' : α → EStateM ε σ (α ⊕ β)} {after : α → EStateM ε σ β}
    (hbody : ∀ a, Extends F (body a) (body' a)) {n m : ℕ} (h : n ≤ m) (a : α) :
    Extends F (whileLoop e cond body after n a) (whileLoop e cond body' after m a) := by
  -- on the smaller fuel, with the larger one taken apart alongside
  induction n generalizing m a with
  | zero =>
    -- a loop without fuel that is not over fails
    cases m with
    | zero => exact extends_refl _
    | succ m =>
      exact extends_bind (extends_refl _) fun c =>
        extends_ite (extends_throw he _) (extends_refl _)
  | succ n ih =>
    cases m with
    | zero => exact absurd h (Nat.not_succ_le_zero n)
    | succ m =>
      refine extends_bind (extends_refl _) fun c => extends_ite ?_ (extends_refl _)
      refine extends_bind (hbody a) fun r => ?_
      cases r with
      | inl a' => exact ih (Nat.le_of_succ_le_succ h) a'
      | inr b => exact extends_refl _

theorem extends_forever {e : ε} (he : F e) {body body' : α → EStateM ε σ (α ⊕ β)}
    (hbody : ∀ a, Extends F (body a) (body' a)) {n m : ℕ} (h : n ≤ m) (a : α) :
    Extends F (forever e body n a) (forever e body' m a) :=
  extends_whileLoop he hbody h a

/-- What ends with a value ends in the same way with more fuel. -/
theorem Extends.eq_of_value? {x y : EStateM ε σ α} (h : Extends F x y) {s : σ} {a : α}
    (hr : value? (x s) = some a) : y s = x s := by
  obtain heq | ⟨e, s', -, he⟩ := h s
  · exact heq
  · rw [he] at hr
    cases hr

end Extends

/-! ## Loops that end and loops that do not -/

section WhileLoop

variable {e : ε} {live : α → Bool} {body : α → EStateM ε σ (α ⊕ β)} {after : α → EStateM ε σ β}

/-- The variant rule: a loop whose body lowers `r`, which is positive while the loop goes
on, needs no more fuel than the `r` it starts from. -/
theorem whileLoop_ends (r : α → ℕ) {I : α → σ → Prop} (hlive : ∀ a, live a = true → 0 < r a)
    (hbody : ∀ a s, I a s → live a = true → ∀ s', body a s ≠ .error e s')
    (hnext : ∀ a s b s', I a s → live a = true → body a s = .ok (.inl b) s' →
      I b s' ∧ r b < r a)
    (hafter : ∀ a s, I a s → ∀ s', after a s ≠ .error e s') {n : ℕ} {a : α} {s : σ}
    (hI : I a s) (hn : r a ≤ n) (s' : σ) :
    whileLoop e (fun a => pure (live a)) body after n a s ≠ .error e s' := by
  induction n generalizing a s with
  | zero =>
    rw [whileLoop, bind_of_ok (pure_apply (live a) s)]
    cases hl : live a with
    | false => exact hafter a s hI s'
    | true =>
      have := hlive a hl
      omega
  | succ n ih =>
    rw [whileLoop, bind_of_ok (pure_apply (live a) s)]
    cases hl : live a with
    | false => exact hafter a s hI s'
    | true =>
      cases hb : body a s with
      | error e' t =>
        rw [if_pos rfl, bind_of_error hb]
        intro heq
        cases heq
        exact hbody a s hI hl s' hb
      | ok v t =>
        rw [if_pos rfl, bind_of_ok hb]
        cases v with
        | inl b =>
          obtain ⟨hIb, hlt⟩ := hnext a s b t hI hl hb
          exact ih hIb (by omega)
        | inr b => nofun

/-- A loop whose body always goes on in `I`, or fails as a loop without fuel does, uses up
any fuel. -/
theorem whileLoop_spins {I : α → σ → Prop}
    (hnext : ∀ a s, I a s → live a = true ∧
      ((∃ b s', body a s = .ok (.inl b) s' ∧ I b s') ∨ ∃ s', body a s = .error e s'))
    (n : ℕ) {a : α} {s : σ} (hI : I a s) :
    ∃ s', whileLoop e (fun a => pure (live a)) body after n a s = .error e s' := by
  induction n generalizing a s with
  | zero =>
    obtain ⟨hl, -⟩ := hnext a s hI
    rw [whileLoop, bind_of_ok (pure_apply (live a) s), hl]
    exact ⟨s, rfl⟩
  | succ n ih =>
    obtain ⟨hl, ⟨b, t, hb, hIb⟩ | ⟨t, hb⟩⟩ := hnext a s hI
    · rw [whileLoop, bind_of_ok (pure_apply (live a) s), hl, if_pos rfl, bind_of_ok hb]
      exact ih hIb
    · rw [whileLoop, bind_of_ok (pure_apply (live a) s), hl, if_pos rfl, bind_of_error hb]
      exact ⟨t, rfl⟩

/-- A loop ends after its last round or out of its body. -/
theorem whileLoop_eq_ok {n : ℕ} {a : α} {s s' : σ} {b : β}
    (h : whileLoop e (fun a => pure (live a)) body after n a s = .ok b s') :
    (∃ a t, live a = false ∧ after a t = .ok b s') ∨ ∃ a t, body a t = .ok (.inr b) s' := by
  induction n generalizing a s with
  | zero =>
    rw [whileLoop, bind_of_ok (pure_apply (live a) s)] at h
    cases hl : live a with
    | false =>
      rw [hl] at h
      exact .inl ⟨a, s, hl, h⟩
    | true =>
      rw [hl] at h
      cases h
  | succ n ih =>
    rw [whileLoop, bind_of_ok (pure_apply (live a) s)] at h
    cases hl : live a with
    | false =>
      rw [hl] at h
      exact .inl ⟨a, s, hl, h⟩
    | true =>
      rw [hl, if_pos rfl] at h
      cases hb : body a s with
      | error e' t =>
        rw [bind_of_error hb] at h
        cases h
      | ok v t =>
        rw [bind_of_ok hb] at h
        cases v with
        | inl a' => exact ih h
        | inr c =>
          cases h
          exact .inr ⟨a, s, hb⟩

end WhileLoop

end Program
