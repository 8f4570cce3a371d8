import Mathlib.Algebra.Group.Nat.Even

/-!
# Alternating toggles

A receiver takes a packet if it carries the toggle that is expected, and then both sides flip
theirs. A packet with the other toggle is dropped. As long as both toggles are the same nothing is
dropped, and the sender's toggle tells whether an even number of packets was taken.
-/

namespace Toggle

/-- The toggles of a receiver and of its sender, and how many packets were taken and dropped. -/
structure Pair where
  recv : Bool := false
  send : Bool := false
  accepted : ℕ := 0
  dropped : ℕ := 0
  deriving DecidableEq

namespace Pair

/-- A packet is taken. -/
def accept (p : Pair) : Pair :=
  { p with recv := !p.recv, send := !p.send, accepted := p.accepted + 1 }

/-- A packet is dropped, and the sender takes it for received or not. -/
def drop (p : Pair) (send : Bool) : Pair := { p with send := send, dropped := p.dropped + 1 }

/-- The receiver's toggle is set. -/
def load (p : Pair) (recv : Bool) : Pair := { p with recv := recv }

/-- What can come of one request for a packet. -/
inductive Step (p : Pair) : Pair → Prop
  | idle : Step p p
  | accept : p.recv = p.send → Step p p.accept
  | drop (send : Bool) : p.recv ≠ p.send → Step p (p.drop send)

theorem Step.of_eq {p p' : Pair} (h : p' = p) : Step p p' := h ▸ .idle

/-- `p'` comes after `p`, and on the way the toggles were the same. -/
structure After (p p' : Pair) : Prop where
  same : p'.recv = p'.send
  accepted : p.accepted ≤ p'.accepted
  dropped : p'.dropped = p.dropped
  send : p'.send = p.send ↔ Even (p'.accepted - p.accepted)

theorem After.refl {p : Pair} (h : p.recv = p.send) : After p p :=
  ⟨h, Nat.le_refl _, rfl, by simp⟩

theorem After.step {p p' p'' : Pair} (h : After p p') (hstep : Step p' p'') : After p p'' := by
  cases hstep with
  | idle => exact h
  | accept _ =>
    have hcount : p'.accept.accepted - p.accepted = p'.accepted - p.accepted + 1 :=
      Nat.succ_sub h.accepted
    refine ⟨?_, Nat.le_succ_of_le h.accepted, h.dropped, ?_⟩
    · show (!p'.recv) = !p'.send
      rw [h.same]
    · rw [hcount, Nat.even_add_one, ← h.send]
      show (!p'.send) = p.send ↔ ¬p'.send = p.send
      cases p'.send <;> cases p.send <;> decide
  | drop _ hne => exact absurd h.same hne

end Pair

end Toggle
