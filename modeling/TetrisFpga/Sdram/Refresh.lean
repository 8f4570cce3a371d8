import TetrisFpga.Sdram.Legality
import TetrisFpga.Sdram.Wedge

/-!
# The refresh

The refresh timer and the transactions of the host compete for the command block. A refresh that is
pending waits for the transaction that runs, and a transaction that waits lets the refresh through:
so neither holds the other back for more than a fixed number of cycles.

## Main results

- `Controller.refreshed_in_time`: the distance between two refreshes
- `Controller.transactions_end`: how long a transaction takes
-/

namespace TetrisFpga.Sdram
open Machine

/-! ## The way to the next refresh -/

/-- The cycles up to `AUTO REFRESH` on the pins, if a refresh is pending and nothing runs. -/
def Block.due : Block → ℕ
  | free => 3
  | refreshing n => if n.val ≤ 2 then 2 - n else 18 - n
  | cooling n => 7 - n

theorem Block.due_next (b : Block) (h : 0 < b.due) : (b.next true).due + 1 = b.due := by
  have hall : ∀ b ∈ Block.all, 0 < b.due → (b.next true).due + 1 = b.due := by decide
  exact hall b b.mem_all h

namespace Phase

/-- `REF_REQ`, as far as the timer has set it. -/
def ref : Phase → Bool
  | rest _ _ ref _ | run _ _ ref _ | readDone ref | ended _ ref => ref

/-- How far a refresh has come. -/
def since : Phase → Option (Fin 15)
  | rest _ (.refreshing n) _ _ => some n
  | _ => none

/-- The cycles up to `AUTO REFRESH` on the pins, if a refresh is pending. -/
def due : Phase → ℕ
  | rest _ block _ _ => block.due
  | run _ k _ _ => 18 - k
  | readDone _ | ended .write _ => 8
  | ended .read _ => 7

variable {p : Phase} {timerZero : Bool} {start : Option Op}

/-- A transaction is taken, or what waits and what the command block does go on. -/
theorem next_rest (task : Task) (block : Block) (ref rw timerZero : Bool) (start : Option Op) :
    (∃ o, task = .waiting o ∧ block = .free ∧ ref = false ∧
      (rest task block ref rw).next timerZero start = run o 0 timerZero rw) ∨
    ((∀ o, task = .waiting o → block = .free → ref = true) ∧
      (rest task block ref rw).next timerZero start =
        rest (task.next start) (block.next ref) (timerZero || (block ≠ .refreshing 1 && ref))
          (block ≠ .refreshing 0 && rw)) := by
  obtain _ | o | o | o := task
  · exact .inr ⟨nofun, rfl⟩
  · exact .inr ⟨nofun, rfl⟩
  · exact .inr ⟨nofun, rfl⟩
  · obtain _ | n | n := block
    · cases ref
      · refine .inl ⟨o, rfl, rfl, rfl, ?_⟩
        cases timerZero <;> rfl
      · exact .inr ⟨fun _ _ _ => rfl, rfl⟩
    · exact .inr ⟨nofun, rfl⟩
    · exact .inr ⟨nofun, rfl⟩

/-- The cycle after a transaction has run. -/
theorem next_run_cases (o : Op) (k : Fin 10) (ref rw timerZero : Bool) (start : Option Op) :
    (∃ h : k.val + 1 < 10,
      (run o k ref rw).next timerZero start = run o ⟨k + 1, h⟩ (timerZero || ref) rw) ∨
    (k = 9 ∧ (run o k ref rw).next timerZero start =
      if o = .write then ended .write (timerZero || ref) else readDone (timerZero || ref)) := by
  by_cases hk : k.val + 1 < 10
  · exact .inl ⟨hk, next_run hk⟩
  · obtain rfl : k = 9 := Fin.ext (by have := k.isLt; omega)
    exact .inr ⟨rfl, next_run_last⟩

theorem strobes_iff (p : Phase) : p.core.ctl.strobes = .autoRefresh ↔ p.since = some 2 := by
  obtain ⟨task, block, ref, rw⟩ | ⟨o, k, ref, rw⟩ | ref | ⟨o, ref⟩ := p
  · obtain _ | n | n := block
    · exact iff_of_false (show Strobes.nop ≠ .autoRefresh by decide) nofun
    · show (if Block.refreshing n = .refreshing 2 then Strobes.autoRefresh else .nop) = _ ↔
        some n = some 2
      by_cases hn : n = 2
      · simp [hn]
      · simp [hn, Strobes.nop, Strobes.autoRefresh]
    · exact iff_of_false (show Strobes.nop ≠ .autoRefresh by decide) nofun
  · have hpins : ∀ o ∈ [Op.write, .read], ∀ k ref rw,
        (run o k ref rw).core.ctl.strobes ≠ .autoRefresh := by
      decide
    exact iff_of_false (hpins o o.mem_all k ref rw) nofun
  · exact iff_of_false (show Strobes.nop ≠ .autoRefresh by decide) nofun
  · exact iff_of_false (show Strobes.nop ≠ .autoRefresh by decide) nofun

theorem refAck_iff (p : Phase) : p.core.cmd.refAck = true ↔ p.since = some 1 := by
  obtain ⟨task, block, ref, rw⟩ | _ | _ | _ := p
  · obtain _ | n | n := block <;> simp [core, restCore, since]
  all_goals simp [core, runCore, readDoneCore, endedCore, since]

theorem ref_next (p : Phase) (timerZero : Bool) (start : Option Op) :
    (p.next timerZero start).ref = (timerZero || (p.since ≠ some 1 && p.ref)) := by
  obtain ⟨task, block, ref, rw⟩ | ⟨o, k, ref, rw⟩ | ref | ⟨o, ref⟩ := p
  · obtain ⟨o, rfl, rfl, rfl, hnext⟩ | ⟨-, hnext⟩ :=
      next_rest task block ref rw timerZero start
    · rw [hnext]
      simp [Phase.ref]
    · rw [hnext]
      obtain _ | n | n := block <;> simp [Phase.ref, since]
  · obtain ⟨hk, hnext⟩ | ⟨-, hnext⟩ :=
      next_run_cases o k ref rw timerZero start
    · rw [hnext]
      simp [Phase.ref, since]
    · rw [hnext]
      cases o <;> simp [Phase.ref, since]
  · simp [next, Phase.ref, since]
  · cases o <;> simp [next, Phase.ref, since]

/-- Only a pending refresh begins. -/
theorem since_next_none (hsince : p.since = none) {n : Fin 15}
    (hn : n ∈ (p.next timerZero start).since) : n = 0 ∧ p.ref = true := by
  obtain ⟨task, block, ref, rw⟩ | ⟨o, k, ref, rw⟩ | ref | ⟨o, ref⟩ := p
  · obtain ⟨o, rfl, rfl, -, hnext⟩ | ⟨-, hnext⟩ := next_rest task block ref rw timerZero start
    · rw [hnext] at hn
      cases hn
    · rw [hnext] at hn
      obtain _ | m | m := block
      · cases ref
        · cases hn
        · obtain rfl := Option.some.inj hn
          exact ⟨rfl, rfl⟩
      · cases hsince
      · change n ∈ (rest _ (Block.next (.cooling m) ref) _ _).since at hn
        rw [Block.next] at hn
        split at hn <;> cases hn
  · obtain ⟨hk, hnext⟩ | ⟨-, hnext⟩ :=
      next_run_cases o k ref rw timerZero start
    · rw [hnext] at hn
      cases hn
    · rw [hnext] at hn
      cases o <;> cases hn
  · cases hn
  · cases o <;> cases hn

/-- A refresh that has begun goes on. -/
theorem since_next {n : Fin 15} (hsince : p.since = some n) :
    (p.next timerZero start).since = if h : n.val + 1 < 15 then some ⟨n + 1, h⟩ else none := by
  obtain ⟨task, block, ref, rw⟩ | _ | _ | _ := p
  · obtain _ | m | m := block
    · cases hsince
    · obtain rfl : m = n := Option.some.inj hsince
      obtain ⟨o, -, hfree, -⟩ | ⟨-, hnext⟩ :=
      next_rest task (.refreshing m) ref rw timerZero start
      · cases hfree
      · rw [hnext]
        show (rest _ (Block.next (.refreshing m) ref) _ _).since = _
        rw [Block.next]
        split <;> rfl
    · cases hsince
  all_goals cases hsince

/-- A pending refresh comes nearer with every cycle. -/
theorem due_next (href : p.ref = true) (hdue : 0 < p.due) :
    (p.next timerZero start).due + 1 = p.due := by
  obtain ⟨task, block, ref, rw⟩ | ⟨o, k, ref, rw⟩ | ref | ⟨o, ref⟩ := p
  · obtain rfl : ref = true := href
    obtain ⟨o, -, -, hlow, -⟩ | ⟨-, hnext⟩ :=
      next_rest task block true rw timerZero start
    · cases hlow
    · rw [hnext]
      exact block.due_next hdue
  · obtain ⟨hk, hnext⟩ | ⟨rfl, hnext⟩ :=
      next_run_cases o k ref rw timerZero start
    · rw [hnext]
      simp only [due]
      omega
    · rw [hnext]
      cases o <;> rfl
  · rfl
  · cases o <;> rfl

theorem due_le (p : Phase) : p.due ≤ 18 := by
  have hblock : ∀ b ∈ Block.all, b.due ≤ 18 := by decide
  obtain ⟨task, block, ref, rw⟩ | ⟨o, k, ref, rw⟩ | ref | ⟨_ | _, ref⟩ := p
  · exact hblock block block.mem_all
  · exact Nat.sub_le 18 k
  · exact (by decide : 8 ≤ 18)
  · exact (by decide : 8 ≤ 18)
  · exact (by decide : 7 ≤ 18)

/-- Behind a refresh that has begun the next one is not near. -/
theorem three_le_due {p : Phase} (h : ∀ n ∈ p.since, 3 ≤ n.val) : 3 ≤ p.due := by
  obtain ⟨task, block, ref, rw⟩ | ⟨o, k, ref, rw⟩ | ref | ⟨_ | _, ref⟩ := p
  · obtain _ | n | n := block
    · exact Nat.le_refl 3
    · have hn := h n rfl
      have hlt := n.isLt
      show 3 ≤ if n.val ≤ 2 then 2 - n.val else 18 - n.val
      split <;> omega
    · have hlt := n.isLt
      show 3 ≤ 7 - n.val
      omega
  · have hlt := k.isLt
    show 3 ≤ 18 - k.val
    omega
  · exact (by decide : 3 ≤ 8)
  · exact (by decide : 3 ≤ 8)
  · exact (by decide : 3 ≤ 7)

/-- A pending refresh that has not begun is over in so many cycles. -/
theorem due_of_since {p : Phase} {n : Fin 15} (h : p.since = some n) (hn : n.val ≤ 2) :
    p.due = 2 - n := by
  obtain ⟨task, block, ref, rw⟩ | _ | _ | _ := p
  · obtain _ | m | m := block
    · cases h
    · obtain rfl : m = n := Option.some.inj h
      exact if_pos hn
    · cases h
  all_goals cases h

end Phase

/-! ## The timer -/

namespace Controller

/-- The phase after an edge. -/
abbrev nextPhase (c : Controller) (p : Phase) (e : Edge) : Phase :=
  p.next (c.timer == 0) (c.starts e)

/-- No refresh is pending, and the timer is at `t`. -/
structure Resting (c : Controller) (p : Phase) (t : ℕ) : Prop extends Drives c p where
  ref : p.ref = false
  timer : c.timer.toNat = t
  le : t ≤ 1024
  since : ∀ n ∈ p.since, 2 ≤ n.val ∧ 15 ≤ n.val + t
  fresh : p.since = some 2 → t = 1024

/-- A refresh is pending. The timer goes on from its other end. -/
structure Pending (c : Controller) (p : Phase) : Prop extends Drives c p where
  ref : p.ref = true
  timer : 65000 + p.due ≤ c.timer.toNat
  since : ∀ n ∈ p.since, n.val ≤ 1

variable {c : Controller} {p : Phase} {t : ℕ} {e : Edge}

theorem timer_edge (h : Drives c p) (e : Edge) :
    (c.edge e).timer = if p.since = some 1 then refPer else c.timer - 1 := by
  show nextTimer c.core.cmd.refAck c.core.ci.initReq c.timer = _
  have hinit : c.core.ci.initReq = false := by
    rw [h.core]
    obtain _ | _ | _ | _ := p <;> rfl
  rw [nextTimer, hinit, h.core]
  by_cases hs : p.since = some 1
  · rw [if_pos hs, if_pos (p.refAck_iff.mpr hs)]
  · rw [if_neg hs, if_neg (fun ha => hs (p.refAck_iff.mp ha))]
    rfl

theorem Resting.since_ne (h : Resting c p t) : p.since ≠ some 1 := by
  intro hs
  exact absurd (h.since 1 hs).1 (by decide)

theorem Resting.timer_eq (h : Resting c p t) (e : Edge) : (c.edge e).timer = c.timer - 1 :=
  (timer_edge h.toDrives e).trans (if_neg h.since_ne)

/-- Behind a refresh that has begun, it has begun for longer. -/
theorem Resting.since_next (h : Resting c p t) {n : Fin 15}
    (hn : n ∈ (nextPhase c p e).since) : 3 ≤ n.val ∧ 15 ≤ n.val + (t - 1) := by
  cases hs : p.since with
  | none =>
    have href := (Phase.since_next_none hs hn).2
    rw [h.ref] at href
    cases href
  | some m =>
    obtain ⟨h2, h15⟩ := h.since m hs
    rw [Phase.since_next hs] at hn
    split at hn
    · obtain rfl := Option.some.inj hn
      show 3 ≤ m.val + 1 ∧ 15 ≤ m.val + 1 + (t - 1)
      omega
    · cases hn

theorem Resting.timer_ne (h : Resting c p (t + 1)) : (c.timer == 0) = false := by
  have htimer := h.timer
  rw [beq_eq_false_iff_ne]
  rintro h0
  rw [h0] at htimer
  cases htimer

/-- The timer counts down. -/
theorem Resting.edge (h : Resting c p (t + 1)) (hd : Drives (c.edge e) (nextPhase c p e)) :
    Resting (c.edge e) (nextPhase c p e) t ∧ (nextPhase c p e).since ≠ some 2 := by
  have htimer := h.timer
  have hsince (n : Fin 15) (hn : n ∈ (nextPhase c p e).since) := h.since_next hn
  have hne : (nextPhase c p e).since ≠ some 2 := fun hs => absurd (hsince 2 hs).1 (by decide)
  refine ⟨⟨hd, ?_, ?_, Nat.le_of_succ_le h.le, fun n hn => ?_, fun hs => absurd hs hne⟩, hne⟩
  · rw [Phase.ref_next, h.timer_ne, h.ref, Bool.and_false, Bool.or_false]
  · rw [h.timer_eq]
    bv_omega
  · obtain ⟨h3, h15⟩ := hsince n hn
    omega

/-- Where it has run out, a refresh is pending. -/
theorem Resting.edge_zero (h : Resting c p 0) (hd : Drives (c.edge e) (nextPhase c p e)) :
    Pending (c.edge e) (nextPhase c p e) := by
  have hzero : c.timer = 0 := BitVec.eq_of_toNat_eq h.timer
  refine ⟨hd, ?_, ?_, fun n hn => ?_⟩
  · rw [Phase.ref_next, hzero]
    rfl
  · have hdue := (nextPhase c p e).due_le
    rw [h.timer_eq, hzero]
    show _ ≤ 65535
    omega
  · have hlt := n.isLt
    have h15 := (h.since_next hn).2
    omega

theorem Pending.due_pos (h : Pending c p) : 1 ≤ p.due ∧ (p.due = 1 → p.since = some 1) := by
  cases hs : p.since with
  | none =>
    have hdue := Phase.three_le_due (p := p) (by rw [hs]; simp)
    omega
  | some n =>
    have hn := h.since n hs
    rw [Phase.due_of_since hs (by omega)]
    refine ⟨by omega, fun hone => ?_⟩
    congr 1
    exact Fin.ext (by show n.val = 1; omega)

theorem Pending.timer_ne (h : Pending c p) : (c.timer == 0) = false := by
  have htimer := h.timer
  rw [beq_eq_false_iff_ne]
  rintro h0
  rw [h0] at htimer
  exact absurd htimer (by show ¬_ ≤ 0; omega)

theorem Pending.due_edge (h : Pending c p) : (nextPhase c p e).due + 1 = p.due :=
  Phase.due_next h.ref h.due_pos.1

/-- The pending refresh comes nearer. -/
theorem Pending.edge (h : Pending c p) (hd : Drives (c.edge e) (nextPhase c p e))
    (hdue : p.due ≠ 1) : Pending (c.edge e) (nextPhase c p e) := by
  have hs : p.since ≠ some 1 := fun hs => hdue (Phase.due_of_since hs (by decide))
  refine ⟨hd, ?_, ?_, fun n hn => ?_⟩
  · rw [Phase.ref_next, h.ref, decide_eq_true hs]
    simp
  · have htimer := h.timer
    have hnext := h.due_edge (e := e)
    rw [timer_edge h.toDrives, if_neg hs]
    bv_omega
  · cases hp : p.since with
    | none =>
      obtain ⟨rfl, -⟩ := Phase.since_next_none hp hn
      exact Nat.zero_le 1
    | some m =>
      have hm := h.since m hp
      rw [Phase.since_next hp] at hn
      split at hn
      · obtain rfl := Option.some.inj hn
        have hm1 : m.val ≠ 1 := fun h1 => hs (hp.trans (congrArg some (Fin.ext h1)))
        show m.val + 1 ≤ 1
        omega
      · cases hn

/-- It is issued, and the timer starts again. -/
theorem Pending.edge_last (h : Pending c p) (hd : Drives (c.edge e) (nextPhase c p e))
    (hdue : p.due = 1) : Resting (c.edge e) (nextPhase c p e) 1024 ∧
      (nextPhase c p e).since = some 2 := by
  have hs := h.due_pos.2 hdue
  have hnext : (nextPhase c p e).since = some 2 := by
    rw [Phase.since_next hs]
    rfl
  refine ⟨⟨hd, ?_, ?_, Nat.le_refl _, fun n hn => ?_, fun _ => rfl⟩, hnext⟩
  · rw [Phase.ref_next, h.timer_ne, hs]
    simp
  · rw [timer_edge h.toDrives, if_pos hs]
    rfl
  · rw [hnext] at hn
    obtain rfl := Option.some.inj hn
    decide

end Controller

/-! ## The way to the end of a transaction -/

/-- The cycles up to the decoded command. -/
def Task.left : Task → ℕ
  | asked _ => 2
  | issued _ => 1
  | _ => 0

/-- The cycles up to a free command block. -/
def Block.left : Block → ℕ
  | free => 0
  | refreshing n => 15 - n
  | cooling n => 4 - n

theorem Task.left_next (task : Task) : (task.next none).left = task.left - 1 := by
  cases task <;> rfl

theorem Task.left_le (task : Task) : task.left ≤ 2 := by
  cases task <;> simp [left]

theorem Block.due_pos (b : Block) (h : b ≠ .refreshing 2) : 0 < b.due := by
  have hall : ∀ b ∈ Block.all, b ≠ .refreshing 2 → 0 < b.due := by decide
  exact hall b b.mem_all h

theorem Block.left_next (b : Block) : (b.next false).left = b.left - 1 := by
  have hall : ∀ b ∈ Block.all, (b.next false).left = b.left - 1 := by decide
  exact hall b b.mem_all

/-- While no refresh runs, one that becomes pending is not far behind the command block. -/
theorem Block.due_next_le (b : Block) (h : ∀ n, b ≠ .refreshing n) :
    (b.next false).due ≤ 3 + (b.left - 1) ∧ b.left ≤ 4 := by
  have hall : ∀ b ∈ Block.all, (∀ n, b ≠ .refreshing n) →
      (b.next false).due ≤ 3 + (b.left - 1) ∧ b.left ≤ 4 := by
    decide
  exact hall b b.mem_all h

namespace Phase

/-- A bound for the cycles up to the end of the transaction, with `t` on the timer: the refresh
comes first if it is pending, or if the timer runs out before the command block is free. -/
def toGo (p : Phase) (t : ℕ) : ℕ :=
  match p with
  | rest _ block true _ => block.due + 25
  | rest task block false _ => max task.left block.left +
      if max task.left block.left ≤ t then 12 else 28
  | run .write k _ _ => 10 - k
  | run .read k _ _ => 11 - k
  | readDone _ => 1
  | ended _ _ => 0

/-- A cycle of the timer from `t` to `t'`: it counts down, it runs out, it is waited for, or it
starts again. -/
inductive Tick (p : Phase) : Bool → ℕ → ℕ → Prop
  | down {t : ℕ} : p.ref = false → (∀ n ∈ p.since, 15 ≤ n.val + (t + 1)) → Tick p false (t + 1) t
  | out {t' : ℕ} : p.ref = false → p.since = none → Tick p true 0 t'
  | wait {t t' : ℕ} : p.ref = true → p.since ≠ some 1 → (∀ n ∈ p.since, n.val ≤ 1) →
      Tick p false t t'
  | restart {t : ℕ} : p.ref = true → p.since = some 1 → Tick p false t 1024

variable {p : Phase} {timerZero : Bool} {t t' : ℕ}

theorem toGo_run (o : Op) (k : Fin 10) (ref rw timerZero : Bool) (t t' : ℕ) :
    ((run o k ref rw).next timerZero none).toGo t' < (run o k ref rw).toGo t := by
  obtain ⟨hk, hnext⟩ | ⟨rfl, hnext⟩ := next_run_cases o k ref rw timerZero none
  · rw [hnext]
    cases o
    · show 10 - (k.val + 1) < 10 - k.val
      omega
    · show 11 - (k.val + 1) < 11 - k.val
      omega
  · rw [hnext]
    cases o
    · exact Nat.zero_lt_one
    · exact (by decide : 1 < 2)

/-- Something is left before a transaction that is not taken. -/
theorem left_pos {task : Task} {block : Block} (hbusy : task ≠ .idle)
    (h : ∀ o, task = .waiting o → block = .free → false = true) :
    0 < max task.left block.left := by
  obtain _ | o | o | o := task
  · exact absurd rfl hbusy
  · exact Nat.lt_of_lt_of_le Nat.zero_lt_two (Nat.le_max_left ..)
  · exact Nat.lt_of_lt_of_le Nat.zero_lt_one (Nat.le_max_left ..)
  · refine Nat.lt_of_lt_of_le ?_ (Nat.le_max_right ..)
    obtain _ | n | n := block
    · exact absurd (h o rfl rfl) (by decide)
    · exact Nat.sub_pos_of_lt n.isLt
    · exact Nat.sub_pos_of_lt n.isLt

/-- A transaction that waits comes nearer to its end as well. -/
theorem toGo_rest {task : Task} {block : Block} {ref rw : Bool} (hbusy : task ≠ .idle)
    (h : Tick (rest task block ref rw) timerZero t t') :
    ((rest task block ref rw).next timerZero none).toGo t' < (rest task block ref rw).toGo t := by
  obtain ⟨o, rfl, rfl, rfl, hnext⟩ | ⟨htaken, hnext⟩ :=
    next_rest task block ref rw timerZero none
  · have hbefore : (rest (.waiting o) .free false rw).toGo t = 12 := by
      show 0 + (if 0 ≤ t then 12 else 28) = 12
      rw [if_pos (Nat.zero_le t)]
    rw [hnext, hbefore]
    cases o
    · exact (by decide : 10 < 12)
    · exact (by decide : 11 < 12)
  · rw [hnext]
    -- whether a refresh comes in between depends on the timer
    cases h with
    | down href =>
      obtain rfl : ref = false := href
      have hleft : 0 < max task.left block.left := left_pos hbusy htaken
      rw [Bool.and_false, Bool.or_false]
      show max (task.next none).left (block.next false).left + (if _ then 12 else 28) <
        max task.left block.left + (if _ then 12 else 28)
      rw [task.left_next, block.left_next]
      split_ifs <;> omega
    | out href hsince =>
      obtain rfl : ref = false := href
      have hleft : 0 < max task.left block.left := left_pos hbusy htaken
      obtain ⟨hdue, -⟩ := block.due_next_le fun n hn => by
        rw [hn] at hsince
        cases hsince
      show (block.next false).due + 25 < max task.left block.left + (if _ then 12 else 28)
      split_ifs <;> omega
    | wait href hone hsince =>
      obtain rfl : ref = true := href
      have hrefreshing : block ≠ .refreshing 1 := fun hb => hone (by rw [hb]; rfl)
      have hdue := block.due_next (block.due_pos fun hb => by
        rw [hb] at hsince
        exact absurd (hsince 2 rfl) (by decide))
      rw [decide_eq_true hrefreshing]
      show (block.next true).due + 25 < block.due + 25
      omega
    | restart href hsince =>
      obtain rfl : ref = true := href
      obtain _ | m | m := block <;> cases hsince
      have htask : (task.next none).left ≤ 2 := by
        rw [task.left_next]
        exact Nat.le_trans (Nat.sub_le _ _) task.left_le
      show max (task.next none).left 13 +
        (if max (task.next none).left 13 ≤ 1024 then 12 else 28) < 26
      split_ifs <;> omega

theorem toGo_next (h : Tick p timerZero t t') (hfree : p.free = false) :
    (p.next timerZero none).toGo t' < p.toGo t := by
  obtain ⟨task, block, ref, rw⟩ | ⟨o, k, ref, rw⟩ | ref | ⟨o, ref⟩ := p
  · refine toGo_rest (fun hidle => ?_) h
    rw [hidle] at hfree
    cases hfree
  · exact toGo_run o k ref rw timerZero t t'
  · exact Nat.zero_lt_one
  · cases hfree

theorem toGo_asked {o : Op} {block : Block} {ref rw : Bool}
    (h : if ref then block.due ≤ 7 else block.left ≤ 4 ∨ block.left ≤ t) :
    (rest (.asked o) block ref rw).toGo t ≤ 32 := by
  cases ref
  · have hleft : block.left ≤ 4 ∨ block.left ≤ t := h
    have hlong : ∀ b ∈ Block.all, b.left ≤ 15 := by decide
    have hblock := hlong block block.mem_all
    show max 2 block.left + (if max 2 block.left ≤ t then 12 else 28) ≤ 32
    split_ifs <;> omega
  · have hdue : block.due ≤ 7 := h
    show block.due + 25 ≤ 32
    omega

/-- What is started is over in time. -/
theorem toGo_start (h : Tick p timerZero t t') (hfree : p.free = true) (o : Op) :
    (p.next timerZero (some o)).free = false ∧
      (p.next timerZero (some o)).toGo t' ≤ 32 := by
  obtain ⟨_ | _ | _ | _, block, ref, rw⟩ | _ | _ | ⟨o', ref⟩ := p
  · refine ⟨by cases block <;> rfl, ?_⟩
    show (rest (.asked o) (block.next ref) _ _).toGo t' ≤ 32
    -- what matters is how far the block is and whether the timer runs out in this cycle
    refine toGo_asked ?_
    cases h with
    | down href hsince =>
      obtain rfl : ref = false := href
      rw [Bool.and_false, Bool.or_false, if_neg Bool.false_ne_true, block.left_next]
      obtain _ | n | n := block
      · exact .inl (Nat.zero_le 4)
      · have hlate := hsince n rfl
        refine .inr ?_
        show 15 - n.val - 1 ≤ t'
        omega
      · refine .inl ?_
        show 4 - n.val - 1 ≤ 4
        omega
    | out href hsince =>
      obtain rfl : ref = false := href
      obtain ⟨hdue, hleft⟩ := block.due_next_le fun n hn => by
        rw [hn] at hsince
        cases hsince
      show (block.next false).due ≤ 7
      omega
    | wait href hone hsince =>
      obtain rfl : ref = true := href
      have hrefreshing : block ≠ .refreshing 1 := fun hb => hone (by rw [hb]; rfl)
      rw [decide_eq_true hrefreshing]
      show (block.next true).due ≤ 7
      have hnear : ∀ b ∈ Block.all, (∀ n, b = .refreshing n → n.val ≤ 1) → b ≠ .refreshing 1 →
          (b.next true).due ≤ 7 := by
        decide
      exact hnear block block.mem_all (fun n hn => hsince n (by rw [hn]; rfl)) hrefreshing
    | restart href hsince =>
      obtain _ | m | m := block <;> cases hsince
      exact .inr (by decide : 13 ≤ 1024)
  · cases hfree
  · cases hfree
  · cases hfree
  · cases hfree
  · cases hfree
  -- right behind the last transaction the block is still cooling
  · have hcooling : ((ended o' ref).next timerZero (some o)).free = false ∧
        ∃ n rw, (ended o' ref).next timerZero (some o) =
          rest (.asked o) (.cooling n) (timerZero || ref) rw := by
      cases o'
      · exact ⟨rfl, _, _, rfl⟩
      · exact ⟨rfl, _, _, rfl⟩
    obtain ⟨hbusy, n, rw', hnext⟩ := hcooling
    refine ⟨hbusy, ?_⟩
    rw [hnext]
    refine toGo_asked ?_
    split
    · exact Nat.sub_le 7 n
    · exact .inl (Nat.sub_le 4 n)

end Phase

/-! ## Runs -/

namespace Controller

variable {c : Controller} {p : Phase} {t : ℕ} {e : Edge}

/-- The controller after its initialisation: the timer is in time. -/
inductive Timely (c : Controller) (p : Phase) : ℕ → Prop
  | resting {t : ℕ} : Resting c p t → Timely c p t
  | pending {t : ℕ} : Pending c p → Timely c p t

theorem Timely.drives (h : Timely c p t) : Drives c p := by
  cases h with
  | resting h => exact h.toDrives
  | pending h => exact h.toDrives

theorem Timely.free_eq (h : Timely c p t) : c.core.ctl.free = p.free := by
  rw [h.drives.core, p.core_free]

theorem Timely.edge (h : Timely c p t) (hd : Drives (c.edge e) (nextPhase c p e)) :
    ∃ t', Timely (c.edge e) (nextPhase c p e) t' ∧ p.Tick (c.timer == 0) t t' := by
  cases h with
  | resting h =>
    obtain _ | t := t
    · have hzero : (c.timer == 0) = true := beq_iff_eq.mpr (BitVec.eq_of_toNat_eq h.timer)
      refine ⟨0, .pending (h.edge_zero hd), ?_⟩
      rw [hzero]
      refine .out h.ref ?_
      cases hs : p.since with
      | none => rfl
      | some n =>
        have hlate := (h.since n hs).2
        have hlt := n.isLt
        omega
    · refine ⟨t, .resting (h.edge hd).1, ?_⟩
      rw [h.timer_ne]
      exact .down h.ref fun n hn => (h.since n hn).2
  | pending h =>
    rw [h.timer_ne]
    by_cases hdue : p.due = 1
    · exact ⟨1024, .resting (h.edge_last hd hdue).1, .restart h.ref (h.due_pos.2 hdue)⟩
    · refine ⟨0, .pending (h.edge hd hdue), .wait h.ref (fun hs => ?_) h.since⟩
      exact hdue (Phase.due_of_since hs (by decide))

/-- `AUTO REFRESH` is on the pins. -/
def Refreshes (e : ℕ → Edge) (n : ℕ) : Prop := (after e n).core.ctl.strobes = .autoRefresh

instance (e : ℕ → Edge) (n : ℕ) : Decidable (Refreshes e n) := inferInstanceAs (Decidable (_ = _))

theorem refreshes_iff {e : ℕ → Edge} {n : ℕ} (h : Drives (after e n) p) :
    Refreshes e n ↔ p.since = some 2 := by
  rw [Refreshes, h.core, p.strobes_iff]

/-- The host waits for the end of the initialisation, and its transfers have length 1. -/
structure SingleWords (e : ℕ → Edge) : Prop where
  waits : ∀ n < 24221, (after e n).starts (e n) = none
  length : ∀ n o, (after e n).starts (e n) = some o → (e n).length o = 1

/-- Where the initialisation ends, the refresh timer has been counting. -/
theorem resting_ready (hs : c.startup =
      ⟨(Phase.rest .idle .free false false).core, 1004, initPer + 201⟩)
    (hlen : c.path.mLength = 0) : Resting c (.rest .idle .free false false) 1004 where
  core := congrArg Startup.core hs
  initTimer := congrArg Startup.initTimer hs
  length := .inr ⟨hlen, rfl⟩
  bank := trivial
  ref := rfl
  timer := congrArg (fun s : Startup => s.timer.toNat) hs
  le := by decide
  since := nofun
  fresh := nofun

section Runs

variable {e : ℕ → Edge} (he : SingleWords e)

include he in
theorem drives_succ {n : ℕ} (h : Drives (after e n) p) :
    Drives (after e (n + 1)) (nextPhase (after e n) p (e n)) :=
  h.edge fun o ho => he.length n o ho

include he in
theorem Timely.succ {n : ℕ} (h : Timely (after e n) p t) :
    ∃ t', Timely (after e (n + 1)) (nextPhase (after e n) p (e n)) t' ∧
      p.Tick ((after e n).timer == 0) t t' :=
  h.edge (drives_succ he h.drives)

include he in
theorem timely_after (n : ℕ) : ∃ p t, Timely (after e (24221 + n)) p t := by
  induction n with
  | zero =>
    obtain ⟨hstartup, hlen, -⟩ := startup_after he.waits
    rw [Startup.after_ready] at hstartup
    rw [Nat.add_zero]
    exact ⟨_, 1004, .resting (resting_ready hstartup hlen)⟩
  | succ n ih =>
    obtain ⟨p, t, h⟩ := ih
    obtain ⟨t', h', -⟩ := h.succ he
    exact ⟨_, t', h'⟩

include he in
/-- A pending refresh is issued when it is due, and not before. -/
theorem Pending.refreshes {n : ℕ} (h : Pending (after e n) p) {d : ℕ} (hd : p.due = d + 1) :
    (∃ p', Resting (after e (n + (d + 1))) p' 1024 ∧ p'.since = some 2) ∧
      ∀ j ≤ d, ¬Refreshes e (n + j) := by
  have hnow : ¬Refreshes e n := by
    rw [refreshes_iff h.toDrives]
    exact fun hs => absurd (h.since 2 hs) (by decide)
  induction d generalizing n p with
  | zero =>
    refine ⟨⟨_, h.edge_last (drives_succ he h.toDrives) hd⟩, fun j hj => ?_⟩
    obtain rfl : j = 0 := Nat.le_zero.mp hj
    exact hnow
  | succ d ih =>
    have hdue : p.due ≠ 1 := by omega
    have hedge : Pending (after e (n + 1)) (nextPhase (after e n) p (e n)) :=
      h.edge (drives_succ he h.toDrives) hdue
    have hnext := h.due_edge (e := e n)
    have hlater : ¬Refreshes e (n + 1) := by
      rw [refreshes_iff hedge.toDrives]
      exact fun hs => absurd (hedge.since 2 hs) (by decide)
    obtain ⟨hend, hbefore⟩ := ih hedge (by omega) hlater
    rw [Nat.add_assoc, Nat.add_comm 1] at hend
    refine ⟨hend, fun j hj => ?_⟩
    obtain _ | j := j
    · exact hnow
    · have hj' := hbefore j (by omega)
      rwa [Nat.add_assoc, Nat.add_comm 1] at hj'

include he in
/-- From the timer at `t` to the next refresh. -/
theorem Resting.refreshes {n : ℕ} (h : Resting (after e n) p t) :
    ∃ g, t + 4 ≤ g ∧ g ≤ t + 19 ∧
      (∃ p', Resting (after e (n + g)) p' 1024 ∧ p'.since = some 2) ∧
      ∀ j, 0 < j → j < g → ¬Refreshes e (n + j) := by
  induction t generalizing n p with
  | zero =>
    have hedge : Pending (after e (n + 1)) (nextPhase (after e n) p (e n)) :=
      h.edge_zero (drives_succ he h.toDrives)
    have hthree : 3 ≤ (nextPhase (after e n) p (e n)).due :=
      Phase.three_le_due fun m hm => (h.since_next hm).1
    have hle := (nextPhase (after e n) p (e n)).due_le
    obtain ⟨d, hd⟩ : ∃ d, (nextPhase (after e n) p (e n)).due = d + 1 :=
      ⟨(nextPhase (after e n) p (e n)).due - 1, by omega⟩
    obtain ⟨hend, hbefore⟩ := hedge.refreshes he hd
    rw [Nat.add_assoc, Nat.add_comm 1] at hend
    refine ⟨d + 1 + 1, by omega, by omega, hend, fun j hj hlt => ?_⟩
    obtain _ | j := j
    · exact absurd hj (Nat.lt_irrefl 0)
    · have hj' := hbefore j (by omega)
      rwa [Nat.add_assoc, Nat.add_comm 1] at hj'
  | succ t ih =>
    obtain ⟨hedge, hsince⟩ := h.edge (drives_succ he h.toDrives)
    obtain ⟨g, hge, hle, hend, hbefore⟩ := ih (n := n + 1) hedge
    rw [Nat.add_assoc, Nat.add_comm 1] at hend
    refine ⟨g + 1, by omega, by omega, hend, fun j hj hlt => ?_⟩
    obtain _ | _ | j := j
    · exact absurd hj (Nat.lt_irrefl 0)
    · exact fun hr => hsince ((refreshes_iff (n := n + 1) hedge.toDrives).mp hr)
    · have hj' := hbefore (j + 1) (Nat.succ_pos j) (by omega)
      rwa [Nat.add_assoc, Nat.add_comm 1] at hj'

include he in
/-- The SDRAM is refreshed in time, whatever the host does: within 1043 cycles from every cycle
behind the initialisation, and from one refresh to the next in 1028 cycles at least and 1043 at
most. -/
theorem refreshed_in_time : (∀ n, 24221 ≤ n → ∃ g ≤ 1043, Refreshes e (n + g)) ∧
    ∀ n, 24221 ≤ n → Refreshes e n → ∃ g, 1028 ≤ g ∧ g ≤ 1043 ∧ Refreshes e (n + g) ∧
      ∀ j, 0 < j → j < g → ¬Refreshes e (n + j) := by
  have hpins {n : ℕ} (hend : ∃ p', Resting (after e n) p' 1024 ∧ p'.since = some 2) :
      Refreshes e n := by
    obtain ⟨p', hp', hs⟩ := hend
    exact (refreshes_iff hp'.toDrives).mpr hs
  refine ⟨fun n hn => ?_, fun n hn hr => ?_⟩
  · obtain ⟨k, rfl⟩ := Nat.exists_eq_add_of_le hn
    obtain ⟨p, t, h | h⟩ := timely_after he k
    · obtain ⟨g, -, hle, hend, -⟩ := h.refreshes he
      have ht := h.le
      exact ⟨g, by omega, hpins hend⟩
    · obtain ⟨d, hd⟩ : ∃ d, p.due = d + 1 := ⟨p.due - 1, by have := h.due_pos.1; omega⟩
      have hdue := p.due_le
      exact ⟨d + 1, by omega, hpins (h.refreshes he hd).1⟩
  · obtain ⟨k, rfl⟩ := Nat.exists_eq_add_of_le hn
    obtain ⟨p, t, h | h⟩ := timely_after he k
    · have hfresh := h.fresh ((refreshes_iff h.toDrives).mp hr)
      obtain ⟨g, hge, hle, hend, hbefore⟩ := h.refreshes he
      exact ⟨g, by omega, by omega, hpins hend, hbefore⟩
    · have hs := (refreshes_iff h.toDrives).mp hr
      exact absurd (h.since 2 hs) (by decide)

include he in
/-- What is under way ends when it is to end. -/
theorem Timely.ends {n r : ℕ} (h : Timely (after e n) p t) (hr : p.toGo t ≤ r) :
    ∃ g ≤ r, (after e (n + g)).core.ctl.free = true ∧
      ∀ j < g, (after e (n + j)).core.ctl.free = false := by
  have hcore := h.free_eq
  induction r generalizing n p t with
  | zero =>
    cases hfree : p.free with
    | true => exact ⟨0, Nat.le_refl 0, hcore.trans hfree, nofun⟩
    | false =>
      obtain ⟨t', -, htick⟩ := h.succ he
      have hless := Phase.toGo_next htick hfree
      omega
  | succ r ih =>
    cases hfree : p.free with
    | true => exact ⟨0, Nat.zero_le _, hcore.trans hfree, nofun⟩
    | false =>
      obtain ⟨t', hnext, htick⟩ := h.succ he
      have hless : (nextPhase (after e n) p (e n)).toGo t' < p.toGo t := by
        rw [nextPhase, h.drives.starts_eq_none (by simp [hfree])]
        exact Phase.toGo_next htick hfree
      obtain ⟨g, hg, hend, hbefore⟩ := ih hnext (by omega) (hnext.free_eq)
      rw [Nat.add_assoc, Nat.add_comm 1] at hend
      refine ⟨g + 1, by omega, hend, fun j hj => ?_⟩
      obtain _ | j := j
      · exact hcore.trans hfree
      · have hj' := hbefore j (by omega)
        rwa [Nat.add_assoc, Nat.add_comm 1] at hj'

include he in
/-- A transaction that the host starts is over within 33 cycles, whenever the refresh comes. -/
theorem transactions_end {n : ℕ} (hn : 24221 ≤ n) {o : Op}
    (hs : (after e n).starts (e n) = some o) :
    ∃ g, 1 < g ∧ g ≤ 33 ∧ (after e (n + g)).core.ctl.free = true ∧
      ∀ j, 0 < j → j < g → (after e (n + j)).core.ctl.free = false := by
  obtain ⟨k, rfl⟩ := Nat.exists_eq_add_of_le hn
  obtain ⟨p, t, h⟩ := timely_after he k
  have hfree : p.free = true := h.free_eq.symm.trans (starts_free (by rw [hs]; nofun))
  obtain ⟨t', hnext, htick⟩ := h.succ he
  obtain ⟨hbusy, hstart⟩ := Phase.toGo_start htick hfree o
  rw [← hs] at hbusy hstart
  obtain ⟨g, hg, hend, hbefore⟩ := hnext.ends he hstart
  have hpos : g ≠ 0 := by
    rintro rfl
    have hsame := hnext.free_eq.symm.trans hend
    exact absurd (hbusy.symm.trans hsame) (by decide)
  rw [Nat.add_assoc _ 1, Nat.add_comm 1] at hend
  refine ⟨g + 1, by omega, by omega, hend, fun j hj hlt => ?_⟩
  obtain ⟨j, rfl⟩ := Nat.exists_eq_add_of_lt hj
  have hj' := hbefore j (by omega)
  rwa [Nat.add_assoc _ 1, Nat.add_comm 1, ← Nat.zero_add j] at hj'

end Runs

/-- A host that has a word to write when the initialisation is over, and then again and again. -/
def writesOne (n : ℕ) : Edge := if n < 24221 then loading else offering

theorem writesOne_loading {n : ℕ} (hn : n < 24221) : writesOne n = loading := if_pos hn

theorem singleWords_writesOne : SingleWords writesOne where
  waits n hn := starts_of_wrLoad (by
    rw [writesOne_loading hn]
    rfl)
  length n o _ := by
    unfold writesOne
    split <;> cases o <;> rfl

theorem starts_writesOne : (after writesOne 24222).starts (writesOne 24222) = some .write := by
  have hone (n : ℕ) : writesOne (24221 + n) = offering := if_neg (by omega)
  rw [hone 1, show 24222 = 24221 + 1 from rfl, after, follow_eq_run,
    map_range_add (fun n hn => writesOne_loading hn) hone, run_append, run_loading_ready]
  decide +kernel

theorem refreshed_in_time_writesOne : ∃ g ≤ 1043, Refreshes writesOne (24221 + g) :=
  (refreshed_in_time singleWords_writesOne).1 24221 (Nat.le_refl _)

theorem transactions_end_writesOne :
    ∃ g, 1 < g ∧ g ≤ 33 ∧ (after writesOne (24222 + g)).core.ctl.free = true ∧
      ∀ j, 0 < j → j < g → (after writesOne (24222 + j)).core.ctl.free = false :=
  transactions_end singleWords_writesOne (by omega) starts_writesOne

end Controller

end TetrisFpga.Sdram
