import Mathlib.Data.List.Induction
import Mathlib.Logic.Function.Basic
import TetrisFpga.Machine.Run

/-!
# Memories

An access stores a word or fetches one. A list of accesses is `Serial` if every fetch finds the
word that the accesses before it have left, as if each access took no time. `fill` is what a
block of words leaves, stored one after the other, and `collect` is what a run puts out on the
way.

## Main results

- `Machine.serial_append`: a serial list goes on from the memory that it has left
- `Machine.fill_addr`: a block that was stored can be read back
- `Machine.Along.invariant_collect`: an invariant of the state and of what has been put out
-/

namespace Machine

/-! ## Accesses -/

section Accesses

variable {α β : Type*}

inductive Access (α β : Type*)
  | stored (a : α) (w : β)
  | fetched (a : α) (w : β)
  deriving DecidableEq

variable [DecidableEq α]

/-- The memory after an access. -/
def Access.apply (m : α → β) : Access α β → α → β
  | stored a w => Function.update m a w
  | fetched _ _ => m

/-- A fetch finds the word of the memory. -/
def Access.Sound (m : α → β) : Access α β → Prop
  | stored _ _ => True
  | fetched a w => w = m a

/-- The memory after some accesses, the first one first. -/
def replay (m : α → β) (log : List (Access α β)) : α → β := log.foldl Access.apply m

/-- Every fetch finds what the accesses before it have left. -/
def Serial : (α → β) → List (Access α β) → Prop
  | _, [] => True
  | m, e :: log => e.Sound m ∧ Serial (e.apply m) log

variable {m : α → β}

@[simp] theorem replay_nil : replay m [] = m := rfl

theorem replay_concat (log : List (Access α β)) (e : Access α β) :
    replay m (log ++ [e]) = e.apply (replay m log) := by
  rw [replay, List.foldl_append]
  rfl

@[simp] theorem serial_nil : Serial m [] := trivial

theorem serial_append {log log' : List (Access α β)} :
    Serial m (log ++ log') ↔ Serial m log ∧ Serial (replay m log) log' := by
  induction log generalizing m with
  | nil => exact (and_iff_right trivial).symm
  | cons e log ih =>
    rw [List.cons_append, Serial, Serial, ih, and_assoc]
    rfl

theorem Serial.concat {log : List (Access α β)} {e : Access α β} (h : Serial m log)
    (he : e.Sound (replay m log)) : Serial m (log ++ [e]) :=
  serial_append.mpr ⟨h, he, trivial⟩

end Accesses

/-! ## Blocks -/

section Blocks

variable {α β : Type*} [DecidableEq α] {addr : ℕ → α} {m : α → β} {ws : List β}

/-- The memory after the words of a block were stored, word `k` at `addr k`. -/
def fill (addr : ℕ → α) (m : α → β) (ws : List β) : α → β :=
  ws.zipIdx.foldl (fun m p => Function.update m (addr p.2) p.1) m

@[simp] theorem fill_nil : fill addr m [] = m := rfl

theorem fill_concat (w : β) :
    fill addr m (ws ++ [w]) = Function.update (fill addr m ws) (addr ws.length) w := by
  simp [fill, List.zipIdx_append]

theorem fill_take_succ {k : ℕ} {w : β} (h : ws[k]? = some w) :
    fill addr m (ws.take (k + 1)) = Function.update (fill addr m (ws.take k)) (addr k) w := by
  obtain ⟨hk, rfl⟩ := List.getElem?_eq_some_iff.mp h
  rw [← List.take_append_getElem hk, fill_concat, List.length_take, Nat.min_eq_left (by omega)]

/-- Words at different addresses do not replace each other. -/
theorem fill_addr (haddr : ∀ i < ws.length, ∀ j < ws.length, addr i = addr j → i = j) {k : ℕ}
    {w : β} (h : ws[k]? = some w) : fill addr m ws (addr k) = w := by
  induction ws using List.reverseRecOn with
  | nil => cases h
  | append_singleton ws x ih =>
    rw [fill_concat]
    obtain ⟨hk, hw⟩ := List.getElem?_eq_some_iff.mp h
    by_cases hlast : k = ws.length
    · subst hlast
      rw [Function.update_self, ← hw]
      simp
    · rw [List.length_append, List.length_singleton] at hk haddr
      have hne : addr k ≠ addr ws.length := fun heq =>
        hlast (haddr k hk ws.length (by omega) heq)
      rw [Function.update_of_ne hne]
      rw [List.getElem?_append_left (by omega)] at h
      exact ih (fun i hi j hj => haddr i (by omega) j (by omega)) h

end Blocks

/-! ## Outputs -/

section Outputs

variable {σ ι γ : Type*} {next : σ → ι → σ} {out : σ → ι → List γ}

/-- What a run puts out on the way, the first first. -/
def collect (next : σ → ι → σ) (out : σ → ι → List γ) : σ → List ι → List γ
  | _, [] => []
  | s, i :: is => out s i ++ collect next out (next s i) is

/-- An invariant that speaks of the state and of what has been put out. -/
theorem Along.invariant_collect {guard : σ → ι → Prop} {Inv : List γ → σ → Prop}
    (hstep : ∀ done s i, Inv done s → guard s i → Inv (done ++ out s i) (next s i))
    {done : List γ} {s : σ} {is : List ι} (hs : Inv done s) (hg : Along next guard s is) :
    Inv (done ++ collect next out s is) (run next s is) := by
  induction is generalizing done s with
  | nil =>
    rw [collect, List.append_nil]
    exact hs
  | cons i is ih =>
    rw [collect, ← List.append_assoc]
    exact ih (hstep done s i hs hg.1) hg.2

end Outputs

end Machine
