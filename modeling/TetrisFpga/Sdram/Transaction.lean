import Mathlib.Tactic.ByContra
import TetrisFpga.Sdram.Phase
import TetrisFpga.Sdram.Device

/-!
# Transactions

What the controller and the SDRAM do together, seen from the FIFOs and the memory: `Stage`
forgets how long the command block makes a transaction wait. `Follows` ties the registers that
hold addresses to the phase, and `Follows.next` keeps it: a write changes one word of the
memory, six cycles after its start, and a read pushes one word.
-/

namespace TetrisFpga.Sdram

/-! ## Stages -/

/-- A transaction waits for the command block, or runs since `k` cycles. -/
inductive Stage
  | idle
  | pending (o : Op)
  | run (o : Op) (k : ℕ)
  deriving DecidableEq

namespace Stage

/-- One cycle; `start` is what a free controller starts. -/
inductive Next : Option Op → Stage → Stage → Prop
  | idle : Next none idle idle
  | start (o : Op) : Next (some o) idle (pending o)
  | wait (o : Op) : Next none (pending o) (pending o)
  | begin (o : Op) : Next none (pending o) (run o 0)
  | step (o : Op) (k : ℕ) (h : k < 9) : Next none (run o k) (run o (k + 1))
  | wrote : Next none (run .write 9) idle
  | report : Next none (run .read 9) (run .read 10)
  | read : Next none (run .read 10) idle

end Stage

namespace Phase

def stage : Phase → Stage
  | rest .idle _ _ _ => .idle
  | rest (.asked o) _ _ _ | rest (.issued o) _ _ _ | rest (.waiting o) _ _ _ => .pending o
  | run o k _ _ => .run o k
  | readDone _ => .run .read 10
  | ended _ _ => .idle

theorem stage_idle_iff (p : Phase) : p.stage = .idle ↔ p.free = true := by
  obtain ⟨_ | _ | _ | _, _, _, _⟩ | _ | _ | _ := p <;> simp [stage, free]

theorem eq_run_of_stage {p : Phase} {o : Op} {k : ℕ} (hk : k < 10) (h : p.stage = .run o k) :
    ∃ ref rw, p = run o ⟨k, hk⟩ ref rw := by
  obtain ⟨_ | _ | _ | _, _, _, _⟩ | ⟨o', k', ref, rw⟩ | _ | _ := p <;>
    simp only [stage, Stage.run.injEq, reduceCtorEq] at h
  · obtain ⟨rfl, rfl⟩ := h
    exact ⟨ref, rw, rfl⟩
  · omega

theorem untouched_next (p : Phase) (timerZero : Bool) (h : p.untouched = true) :
    (p.next timerZero none).untouched = true := by
  obtain ⟨_ | _ | _ | _, _, _, _⟩ | _ | _ | _ := p <;> simp [untouched] at h
  rfl

theorem stage_next (p : Phase) (timerZero : Bool) (start : Option Op)
    (hstart : start ≠ none → p.free = true) :
    Stage.Next start p.stage (p.next timerZero start).stage := by
  have hidle (start : Option Op) (block ref rw) :
      Stage.Next start .idle (rest (Task.idle.next start) block ref rw).stage := by
    obtain _ | o := start
    · exact .idle
    · exact .start o
  have hnone (h : p.free ≠ true) : start = none :=
    Decidable.not_not.mp fun hne => h (hstart hne)
  cases p with
  | rest task block ref rw =>
    obtain _ | o | o | o := task
    · exact hidle start _ _ _
    · cases hnone nofun
      exact .wait o
    · cases hnone nofun
      exact .wait o
    · cases hnone nofun
      -- Only a free command block without a refresh request takes the transaction.
      obtain _ | n | n := block <;> cases ref
      · exact .begin o
      all_goals exact .wait o
  | run o k ref rw =>
    cases hnone nofun
    by_cases hk : k.val + 1 < 10
    · rw [next_run hk]
      exact .step o k (by omega)
    · obtain rfl : k = 9 := Fin.ext (by have := k.isLt; omega)
      rw [next_run_last]
      cases o
      · exact .wrote
      · exact .report
  | readDone ref =>
    cases hnone nofun
    exact .read
  | ended o ref => cases o <;> exact hidle start _ _ _

end Phase

/-! ## Outputs -/

namespace Phase

theorem core_free (p : Phase) : p.core.ctl.free = p.free := by
  obtain ⟨_ | o | o | o, _, _, _⟩ | ⟨o, _, _, _⟩ | _ | ⟨o, _⟩ := p
  all_goals first | rfl | (cases o <;> rfl)

/-- The pop request at the write FIFO. -/
theorem core_pops (p : Phase) :
    (p.core.ctl.inReq && p.core.ctl.wrMask) = decide (p.stage = .run .write 4) := by
  cases p with
  | rest task => obtain _ | o | o | o := task <;> rfl
  | run o k => cases o <;> simp [core, runCore, stage]
  | readDone => rfl
  | ended o => rfl

end Phase

/-! ## Addresses -/

/-- The registers `k` cycles after the start of a transaction: the row goes to the pins, then
the column, and the word comes back. -/
def RunAt (o : Op) (r : Path) (d : Device) : ℕ → Prop
  | 0 => d.burst = none
  | 1 => d.burst = none ∧ r.isa = rowaddr r.mAddr ∧ r.iba = bankaddr r.mAddr
  | 2 => d.burst = none ∧ r.sa = rowaddr r.mAddr ∧ r.ba = bankaddr r.mAddr
  | 3 => d.burst = none ∧ d.row (bankaddr r.mAddr) = rowaddr r.mAddr
  | 4 => d.burst = none ∧ d.row (bankaddr r.mAddr) = rowaddr r.mAddr ∧
      r.isa = (coladdr r.mAddr).setWidth 13 ∧ r.iba = bankaddr r.mAddr
  | 5 => d.burst = none ∧ d.row (bankaddr r.mAddr) = rowaddr r.mAddr ∧
      r.sa = (coladdr r.mAddr).setWidth 13 ∧ r.ba = bankaddr r.mAddr ∧ r.iba = bankaddr r.mAddr
  | 6 => (∃ b, d.burst = some b ∧ b.bank = bankaddr r.mAddr) ∧ r.ba = bankaddr r.mAddr ∧
      (o = .read → d.q1 = d.mem r.mAddr)
  | 7 => d.burst = none ∧ (o = .read → d.q2 = d.mem r.mAddr)
  | 8 => d.burst = none ∧ (o = .read → d.q3 = d.mem r.mAddr)
  | _ => d.burst = none ∧ (o = .read → r.mDataOut = d.mem r.mAddr)

/-- The registers that hold addresses, in a phase. -/
def PathAt (r : Path) (d : Device) : Phase → Prop
  | .rest (.issued _) _ _ _ | .rest (.waiting _) _ _ _ => d.burst = none ∧ r.saddr = r.mAddr
  | .run o k _ _ => r.saddr = r.mAddr ∧ RunAt o r d k
  | _ => d.burst = none

theorem addr_parts (a : ADDR) : bankaddr a ++ rowaddr a ++ coladdr a = a := by
  rw [bankaddr, rowaddr, coladdr,
    BitVec.extractLsb'_append_extractLsb'_eq_extractLsb' (by omega),
    BitVec.extractLsb'_append_extractLsb'_eq_extractLsb' (by omega)]
  exact BitVec.extractLsb'_eq_self

/-- A column does not reach the bit that asks for an automatic precharge. -/
theorem col_masked : ∀ c : BitVec 10, c.setWidth 13 &&& ~~~(0x400 : BitVec 13) = c.setWidth 13 := by
  decide +kernel

theorem setWidth_coladdr (a : ADDR) : ((coladdr a).setWidth 13).setWidth 10 = coladdr a := by
  simp

theorem Device.word_eq {d : Device} {a : ADDR} (h : d.row (bankaddr a) = rowaddr a) (w : Bool) :
    d.word ⟨w, bankaddr a, coladdr a⟩ = a := by
  rw [Device.word, h]
  exact addr_parts a

/-- One cycle of a transaction. -/
theorem run_step {o : Op} {k : Fin 10} (ref rw : Bool) {r : Path} {d : Device} (p : Ports)
    (q : WORD) (hk : k.val + 1 < 10) (hs : r.saddr = r.mAddr) (h : RunAt o r d k)
    (hlen : r.mLength = 1) :
    let c := (Phase.run o k ref rw).core
    let dq := if c.cmd.oe then q else d.q3
    RunAt o (r.next c p none dq) (d.next c.ctl.strobes r.ba r.sa c.ctl.dqm dq) (k + 1) := by
  have hquiet {pins : Strobes} {dqm : BitVec 2} {dq : WORD} (hb : d.burst = none)
      (hp : pins = .nop ∨ pins = .activate) :
      (d.next pins r.ba r.sa dqm dq).mem = d.mem ∧
        (d.next pins r.ba r.sa dqm dq).burst = none :=
    Device.next_of_quiet (Device.access_quiet hb (hp.imp_right .inl))
  -- The pins of the controller follow those of the command block, except for the precharge.
  have hsa (c : Core) (dq : WORD) (hst : c.ctl.st ≠ 4) : (r.next c p none dq).sa = r.isa := by
    rw [Path.next, hlen]
    exact if_neg (by simpa [scCl] using hst)
  have hrow' {pins : Strobes} {dqm : BitVec 2} {dq : WORD} {b : BitVec 2} (hp : pins = .nop) :
      (d.next pins r.ba r.sa dqm dq).row b = d.row b :=
    congrFun (Device.next_row (by rw [hp]; decide)) b
  obtain ⟨k, hlt⟩ := k
  match k, hlt with
  | 0, _ =>
    refine ⟨(hquiet h (.inl rfl)).2, ?_, ?_⟩
    · cases o <;> exact congrArg rowaddr hs
    · cases o <;> exact congrArg bankaddr hs
  | 1, _ =>
    obtain ⟨hb, hisa, hiba⟩ := h
    exact ⟨(hquiet hb (.inl rfl)).2, (hsa _ _ (by decide : (1 : BitVec 10) ≠ 4)).trans hisa, hiba⟩
  | 2, _ =>
    obtain ⟨hb, hsa', hba⟩ := h
    refine ⟨(hquiet hb (.inr rfl)).2, ?_⟩
    exact (if_pos ⟨rfl, hba.symm⟩).trans hsa'
  | 3, _ =>
    obtain ⟨hb, hrow⟩ := h
    refine ⟨(hquiet hb (.inl rfl)).2, (hrow' rfl).trans hrow, ?_, ?_⟩
    · cases o <;> exact (col_masked _).trans (by rw [hs]; rfl)
    · cases o <;> exact congrArg bankaddr hs
  | 4, _ =>
    obtain ⟨hb, hrow, hisa, hiba⟩ := h
    refine ⟨(hquiet hb (.inl rfl)).2, (hrow' rfl).trans hrow,
      (hsa _ _ (by decide : (3 : BitVec 10) ≠ 4)).trans hisa, hiba, ?_⟩
    cases o <;> exact congrArg bankaddr hs
  | 5, _ =>
    obtain ⟨hb, hrow, hsa', hba, hiba⟩ := h
    have hword (w : Bool) : d.word ⟨w, r.ba, r.sa.setWidth 10⟩ = r.mAddr := by
      rw [hba, hsa', setWidth_coladdr]
      exact Device.word_eq hrow w
    cases o with
    | write => exact ⟨⟨_, rfl, hba⟩, hiba, nofun⟩
    | read => exact ⟨⟨_, rfl, hba⟩, hiba, fun _ => congrArg d.mem (hword false)⟩
  | 6, _ =>
    obtain ⟨⟨b, hb, hbank⟩, hba, hq⟩ := h
    have hacc : d.access .prechargeBank r.ba r.sa = none :=
      Device.access_precharge hb (hbank.trans hba.symm)
    exact ⟨(Device.next_of_quiet hacc).2,
      fun ho => (hq ho).trans (congrFun (Device.next_of_quiet hacc).1 _).symm⟩
  | 7, _ =>
    obtain ⟨hb, hq⟩ := h
    exact ⟨(hquiet hb (.inl rfl)).2,
      fun ho => (hq ho).trans (congrFun (hquiet hb (.inl rfl)).1 _).symm⟩
  | 8, _ =>
    obtain ⟨hb, hq⟩ := h
    refine ⟨(hquiet hb (.inl rfl)).2, ?_⟩
    rintro rfl
    exact (hq rfl).trans (congrFun (hquiet hb (.inl rfl)).1 _).symm

/-! ## The controller and the SDRAM follow the phases -/

/-- The registers have the values of the phase, long after the SDRAM was initialised. -/
structure Follows (c : Controller) (d : Device) (p : Phase) : Prop where
  core : c.core = p.core
  initTimer : c.initTimer = 24201
  length : c.path.mLength = 1 ∨ c.path.mLength = 0 ∧ p.untouched = true
  path : PathAt c.path d p

/-- What the controller drives on `DQ`, or the SDRAM. -/
def busWord (c : Controller) (d : Device) (q : WORD) : WORD :=
  if c.core.cmd.oe then q else d.q3

/-- An edge of `SDR_CLK`, with the pins of the controller. -/
def Device.clock (d : Device) (c : Controller) (q : WORD) : Device :=
  d.next c.core.ctl.strobes c.path.ba c.path.sa c.core.ctl.dqm (busWord c d q)

theorem PathAt.burst {r : Path} {d : Device} {p : Phase} (h : PathAt r d p)
    (hp : ∀ o, p.stage ≠ .run o 6) : d.burst = none := by
  obtain ⟨_ | _ | _ | _, _, _, _⟩ | ⟨o, ⟨k, hk⟩, _, _⟩ | _ | _ := p
  · exact h
  · exact h
  · exact h.1
  · exact h.1
  · match k, hk with
    | 0, _ => exact h.2
    | 1, _ | 2, _ | 3, _ | 4, _ | 5, _ | 7, _ | 8, _ | 9, _ => exact h.2.1
    | 6, _ => exact absurd rfl (hp o)
  · exact h
  · exact h

theorem core_strobes_quiet {p : Phase} (h5 : ∀ o, p.stage ≠ .run o 5)
    (h6 : ∀ o, p.stage ≠ .run o 6) :
    p.core.ctl.strobes = .nop ∨ p.core.ctl.strobes = .activate ∨
      p.core.ctl.strobes = .autoRefresh := by
  cases p with
  | rest task block ref rw =>
    by_cases hb : block = .refreshing 2
    · exact .inr (.inr (if_pos hb))
    · exact .inl (if_neg hb)
  | run o k ref rw =>
    obtain ⟨k, hk⟩ := k
    match k, hk with
    | 2, _ => exact .inr (.inl rfl)
    | 0, _ | 1, _ | 3, _ | 4, _ | 7, _ | 8, _ | 9, _ => exact .inl rfl
    | 5, _ => exact absurd rfl (h5 o)
    | 6, _ => exact absurd rfl (h6 o)
  | readDone ref => exact .inl rfl
  | ended o ref => exact .inl rfl

namespace Follows

variable {c : Controller} {d : Device} {p : Phase} {q : WORD}

/-- Outside the two cycles of the access the SDRAM does nothing. -/
theorem clock_quiet (h : Follows c d p) (h5 : ∀ o, p.stage ≠ .run o 5)
    (h6 : ∀ o, p.stage ≠ .run o 6) : (d.clock c q).mem = d.mem ∧ (d.clock c q).burst = none := by
  refine Device.next_of_quiet (Device.access_quiet (h.path.burst h6) ?_)
  rw [h.core]
  exact core_strobes_quiet h5 h6

/-- The word at the pins is written six cycles after the start of a write, and otherwise the
memory stays as it is. -/
theorem clock_mem (h : Follows c d p) :
    (d.clock c q).mem = fun a =>
      if p.stage = .run .write 5 ∧ a = c.path.mAddr then q else d.mem a := by
  have hsame (hmem : (d.clock c q).mem = d.mem) (hne : p.stage ≠ .run .write 5) :
      (d.clock c q).mem = fun a =>
        if p.stage = .run .write 5 ∧ a = c.path.mAddr then q else d.mem a := by
    rw [hmem]
    funext a
    exact (if_neg fun ha => hne ha.1).symm
  by_cases h5 : ∃ o, p.stage = .run o 5
  · obtain ⟨o, ho⟩ := h5
    obtain ⟨ref, rw', rfl⟩ := Phase.eq_run_of_stage (by omega) ho
    obtain ⟨-, -, hrow, hsa, hba, -⟩ := h.path
    have hword (w : Bool) : d.word ⟨w, c.path.ba, c.path.sa.setWidth 10⟩ = c.path.mAddr := by
      rw [hba, hsa, setWidth_coladdr]
      exact Device.word_eq hrow w
    -- the row is open, so the column at the pins makes up the address
    cases o with
    | write =>
      rw [Device.clock, busWord, h.core]
      funext a
      change (if a = d.word ⟨true, c.path.ba, c.path.sa.setWidth 10⟩ ∧ (0 : BitVec 2) = 0 then q
        else d.mem a) = _
      simp [hword, Phase.stage]
    | read =>
      refine hsame ?_ nofun
      rw [Device.clock, h.core]
      rfl
  · by_cases h6 : ∃ o, p.stage = .run o 6
    -- the precharge stops the burst before its second word
    · obtain ⟨o, ho⟩ := h6
      obtain ⟨ref, rw', rfl⟩ := Phase.eq_run_of_stage (by omega) ho
      obtain ⟨-, ⟨b, hb, hbank⟩, hba, -⟩ := h.path
      refine hsame ?_ (by simp [Phase.stage])
      rw [Device.clock, h.core]
      exact (Device.next_of_quiet (Device.access_precharge hb (hbank.trans hba.symm))).1
    · refine hsame (h.clock_quiet (fun o ho => h5 ⟨o, ho⟩) fun o ho => h6 ⟨o, ho⟩).1 ?_
      exact fun ho => h5 ⟨_, ho⟩

theorem start_free (h : Follows c d p) {ports : Ports} {rusedw wusedw : ℕ}
    (hstart : c.start ports rusedw wusedw ≠ none) : p.free = true := by
  rw [← p.core_free, ← h.core]
  by_contra hfree
  refine hstart (if_neg ?_)
  simp [hfree]

/-- The registers and the SDRAM go on to the next phase. -/
theorem next (h : Follows c d p) {ports : Ports} (hwr : ports.wrLength = 1)
    (hrd : ports.rdLength = 1) (rusedw wusedw : ℕ) :
    Follows (c.next ports rusedw wusedw (busWord c d q)) (d.clock c q)
      (p.next (c.timer == 0) (c.start ports rusedw wusedw)) where
  core := by
    rw [Controller.next, h.core, h.initTimer]
    exact core_next p _ _ _ h.start_free h.length
  initTimer := by
    rw [Controller.next, h.initTimer]
    rfl
  length := by
    cases hs : c.start ports rusedw wusedw with
    | some o =>
      left
      rw [Controller.next, hs]
      cases o
      · exact hwr
      · exact hrd
    | none =>
      rw [Controller.next, hs]
      exact h.length.imp_right fun ⟨h0, hp⟩ => ⟨h0, p.untouched_next _ hp⟩
  path := by
    have hnone (hp : p.free ≠ true) : c.start ports rusedw wusedw = none :=
      Decidable.not_not.mp fun hne => hp (h.start_free hne)
    have hsaddr (hp : p.free ≠ true) :
        (c.next ports rusedw wusedw (busWord c d q)).path.saddr =
          (c.next ports rusedw wusedw (busWord c d q)).path.mAddr := by
      rw [Controller.next, hnone hp]
      rfl
    cases p with
    | rest task block ref rw =>
      have hb : (d.clock c q).burst = none := by
        obtain _ | o | o | o := task <;> exact (h.clock_quiet nofun nofun).2
      obtain _ | o | o | o := task
      · generalize c.start ports rusedw wusedw = start
        obtain _ | o := start <;> exact hb
      · exact ⟨hb, hsaddr nofun⟩
      · exact ⟨hb, hsaddr nofun⟩
      -- the command is taken only where the block is free and no refresh is asked for
      · obtain _ | n | n := block <;> cases ref
        · exact ⟨hsaddr nofun, hb⟩
        all_goals exact ⟨hb, hsaddr nofun⟩
    | run o k ref rw =>
      have hlen : c.path.mLength = 1 := h.length.resolve_right fun ⟨_, hp⟩ => absurd hp nofun
      -- the last of the ten cycles frees the state machine
      by_cases hk : k.val + 1 < 10
      · rw [Phase.next_run hk]
        refine ⟨hsaddr nofun, ?_⟩
        have hrun := run_step ref rw ports q hk h.path.1 h.path.2 hlen
        rw [Controller.next, hnone nofun]
        rw [← h.core] at hrun
        exact hrun
      · obtain rfl : k = 9 := Fin.ext (by have := k.isLt; omega)
        have hb : (d.clock c q).burst = none :=
          (h.clock_quiet (fun _ ho => absurd (Stage.run.inj ho).2 (by decide : (9 : ℕ) ≠ 5))
            fun _ ho => absurd (Stage.run.inj ho).2 (by decide : (9 : ℕ) ≠ 6)).2
        rw [Phase.next_run_last]
        cases o <;> exact hb
    | readDone ref => exact (h.clock_quiet (by simp [Phase.stage]) (by simp [Phase.stage])).2
    | ended o ref =>
      have hb : (d.clock c q).burst = none := (h.clock_quiet nofun nofun).2
      generalize c.start ports rusedw wusedw = start
      cases o <;> obtain _ | o := start <;> exact hb

end Follows

end TetrisFpga.Sdram
