import TetrisFpga.Sdram.Refresh
import TetrisFpga.Sdram.Streams

/-!
# The two ports go on

A port is wanted if the controller, when it is free, starts a transaction of that port. For as
long as a port is wanted its word moves within a fixed number of cycles: what runs is over
soon, also where a refresh comes first, and then it is the port's turn.

## Main results

- `ports_progress`: a word that waits in the write FIFO is popped, and an empty read FIFO is
  given a word, within 71 cycles
-/

namespace TetrisFpga.Sdram
open Machine

/-! ## The way to the next word -/

/-- The cycle of a transaction in which its word moves. -/
def Op.moves : Op → ℕ
  | .write => 4
  | .read => 9

/-- A transaction of this kind is under way, and its word has not moved yet. -/
def Stage.ahead (o : Op) : Stage → Prop
  | idle => False
  | pending o' => o' = o
  | run o' k => o' = o ∧ k ≤ o.moves

instance (o : Op) : ∀ st : Stage, Decidable (st.ahead o)
  | .idle => inferInstanceAs (Decidable False)
  | .pending o' => inferInstanceAs (Decidable (o' = o))
  | .run o' k => inferInstanceAs (Decidable (o' = o ∧ k ≤ o.moves))

theorem Stage.Next.ahead {o : Op} {st st' : Stage} (h : Next none st st') (hst : st.ahead o)
    (hmoves : st ≠ run o o.moves) : st'.ahead o := by
  cases h with
  | idle => exact hst
  | wait o' => exact hst
  | begin o' => exact ⟨hst, Nat.zero_le _⟩
  | step o' k hk =>
    obtain ⟨rfl, hle⟩ := hst
    have hne : k ≠ o'.moves := fun h => hmoves (congrArg _ h)
    exact ⟨rfl, by omega⟩
  | wrote => obtain ⟨rfl, hle⟩ := hst; exact absurd hle (by decide)
  | report => obtain ⟨rfl, -⟩ := hst; exact absurd rfl hmoves
  | read => obtain ⟨rfl, hle⟩ := hst; exact absurd hle (by decide)

namespace Phase

/-- A bound for the cycles up to the word of a port that is wanted. -/
def rank (o : Op) (p : Phase) (t : ℕ) : ℕ :=
  if p.free then 33 else if p.stage.ahead o then p.toGo t else p.toGo t + 33

variable {p : Phase} {timerZero : Bool} {t t' : ℕ} {o : Op}

theorem not_ahead_of_free (h : p.free = true) : ¬p.stage.ahead o := by
  rw [p.stage_idle_iff.mpr h]
  exact id

/-- While the word has not moved, it comes nearer with every cycle. -/
theorem rank_next (h : Tick p timerZero t t') {start : Option Op}
    (hstart : start ≠ none → p.free = true) (hwanted : p.free = true → start = some o)
    (hmoves : p.stage ≠ .run o o.moves) :
    (p.next timerZero start).rank o t' < p.rank o t := by
  have hstage := p.stage_next timerZero start hstart
  cases hfree : p.free with
  | true =>
    obtain rfl := hwanted hfree
    obtain ⟨hbusy, hsoon⟩ := toGo_start h hfree o
    rw [p.stage_idle_iff.mpr hfree] at hstage
    have hpending : (p.next timerZero (some o)).stage = .pending o := by
      generalize (p.next timerZero (some o)).stage = st at hstage
      cases hstage
      rfl
    have hahead : (p.next timerZero (some o)).stage.ahead o := by
      rw [hpending]
      exact rfl
    rw [rank, rank, hbusy, hfree, if_pos rfl, if_neg Bool.false_ne_true, if_pos hahead]
    omega
  | false =>
    obtain rfl : start = none := by
      by_contra hne
      cases (hstart hne).symm.trans hfree
    have hless := toGo_next h hfree
    rw [rank, rank, hfree, if_neg Bool.false_ne_true]
    -- where the word does not lie ahead, the transaction under way has to end first
    by_cases hahead : p.stage.ahead o
    · have hahead' := hstage.ahead hahead hmoves
      have hbusy : (p.next timerZero none).free = false := by
        by_contra hfree'
        exact not_ahead_of_free (by simpa using hfree') hahead'
      rw [hbusy, if_neg Bool.false_ne_true, if_pos hahead', if_pos hahead]
      exact hless
    · rw [if_neg hahead]
      split
      · omega
      · split <;> omega

theorem rank_le (p : Phase) (h : p.free = false → p.toGo t ≤ 32) (o : Op) : p.rank o t ≤ 65 := by
  unfold rank
  cases hfree : p.free with
  | true => exact (by decide : 33 ≤ 65)
  | false =>
    have hsoon := h hfree
    rw [if_neg Bool.false_ne_true]
    split <;> omega

end Phase

/-! ## The system -/

/-- The registers are those of a phase, the timer is in time, and what runs is over soon. -/
structure Paced (s : System) (p : Phase) (t : ℕ) : Prop where
  follows : Follows s.ctl s.device p
  timely : s.ctl.Timely p t
  soon : p.free = false → p.toGo t ≤ 32

theorem Phase.soon_next {p : Phase} {timerZero : Bool} {t t' : ℕ} {start : Option Op}
    (h : Tick p timerZero t t') (hstart : start ≠ none → p.free = true)
    (hsoon : p.free = false → p.toGo t ≤ 32) (hbusy : (p.next timerZero start).free = false) :
    (p.next timerZero start).toGo t' ≤ 32 := by
  cases hfree : p.free with
  | true =>
    obtain _ | o := start
    · -- Without a start a free controller stays free.
      have hidle := p.stage_next timerZero none nofun
      rw [p.stage_idle_iff.mpr hfree] at hidle
      have hstill : (p.next timerZero none).stage = .idle := by
        generalize (p.next timerZero none).stage = st at hidle
        cases hidle
        rfl
      cases hbusy.symm.trans ((p.next timerZero none).stage_idle_iff.mp hstill)
    · exact (toGo_start h hfree o).2
  | false =>
    obtain rfl : start = none := by
      by_contra hne
      cases (hstart hne).symm.trans hfree
    have hless := toGo_next h hfree
    have hbefore := hsoon hfree
    omega

/-- The edge of `CLK` in a cycle of the system. -/
def System.ctlEdge (s : System) : Edge :=
  ⟨s.tetris.ports, s.wrFifo.rdusedw usedwBits, s.rdFifo.wrusedw usedwBits, s.dq⟩

section Cycle

variable {coincident : Bool} {s : System} {p : Phase} {t : ℕ}

theorem Paced.drive (h : Paced s p t) (coincident : Bool) (t' : Tetris) :
    ∃ p' u, Paced (s.drive coincident t') p' u ∧ p.Tick (s.ctl.timer == 0) t u ∧
      p' = p.next (s.ctl.timer == 0) (s.ctl.starts s.ctlEdge) := by
  have hlength (o : Op) (_ : s.ctl.starts s.ctlEdge = some o) : s.ctlEdge.length o = 1 := by
    cases o <;> rfl
  obtain ⟨u, htimely, htick⟩ := h.timely.edge (h.timely.drives.edge hlength)
  refine ⟨_, u, ⟨h.follows.next rfl rfl _ _, htimely, ?_⟩, htick, rfl⟩
  exact Phase.soon_next htick h.follows.start_free h.soon

/-- The word of the port moves. -/
def System.moves (s : System) : Op → Bool
  | .write => s.ctl.pops
  | .read => s.ctl.pushes

theorem Paced.moves_iff (h : Paced s p t) (o : Op) :
    s.moves o = true ↔ p.stage = .run o o.moves := by
  cases o
  · exact (congrArg (· = true) h.follows.pops_eq).to_iff.trans decide_eq_true_iff
  · exact (congrArg (· = true) h.follows.pushes_eq).to_iff.trans decide_eq_true_iff

/-- A free controller starts a transaction of this port. -/
def System.Wants (s : System) (o : Op) : Prop :=
  s.ctl.core.ctl.free = true → s.ctl.starts s.ctlEdge = some o

theorem Paced.rank_drive {o : Op} (h : Paced s p t) (coincident : Bool) (t' : Tetris)
    (hmoves : p.stage ≠ .run o o.moves) (hwants : s.Wants o) :
    ∃ p' u, Paced (s.drive coincident t') p' u ∧ p'.rank o u < p.rank o t := by
  obtain ⟨p', u, hp', htick, rfl⟩ := h.drive coincident t'
  refine ⟨_, u, hp', Phase.rank_next htick h.follows.start_free (fun hfree => ?_) hmoves⟩
  exact hwants (h.timely.free_eq.trans hfree)

/-- `WR_LOAD` and `RD_LOAD` are low. -/
def System.Unloaded (s : System) : Prop := s.tetris.writeLd = false ∧ s.tetris.readLd = false

/-- What a free controller starts. -/
theorem Paced.starts_eq (h : Paced s p t) (hfree : s.ctl.core.ctl.free = true)
    (hflag : s.ctl.flag = true) (hld : s.Unloaded) : s.ctl.starts s.ctlEdge =
      if 1 ≤ s.wrFifo.rdusedw usedwBits then some .write
      else if s.rdFifo.wrusedw usedwBits < 1 then some .read else none := by
  have hidle : p.stage = .idle := by
    rw [p.stage_idle_iff, ← h.timely.free_eq]
    exact hfree
  show s.ctl.start s.tetris.ports _ _ = _
  rw [h.follows.start_eq, View.start]
  exact if_pos ⟨hidle, hld.1, hld.2, hflag⟩

end Cycle

/-! ## Runs -/

section Runs

variable {coincident : Bool} {s : System} {hosts : ℕ → Tetris} {o : Op}

/-- The system after `n` cycles. -/
abbrev System.after (coincident : Bool) (s : System) (hosts : ℕ → Tetris) : ℕ → System :=
  follow (System.drive coincident) s hosts

theorem Paced.after (h : ∃ p t, Paced s p t) (coincident : Bool) (hosts : ℕ → Tetris) (n : ℕ) :
    ∃ p t, Paced (s.after coincident hosts n) p t := by
  induction n with
  | zero => exact h
  | succ n ih =>
    obtain ⟨p, t, hp⟩ := ih
    obtain ⟨p', u, hp', -, -⟩ := hp.drive coincident (hosts n)
    exact ⟨p', u, hp'⟩

/-- The word of a port that is wanted moves when it is to move. -/
theorem Paced.reaches {r m : ℕ}
    (h : ∃ p t, Paced (s.after coincident hosts m) p t ∧ p.rank o t ≤ r)
    (hwants : ∀ n, m ≤ n → (∀ i, m ≤ i → i ≤ n → (s.after coincident hosts i).moves o = false) →
      (s.after coincident hosts n).Wants o) :
    ∃ n, n ≤ m + r ∧ (s.after coincident hosts n).moves o = true := by
  obtain ⟨p, t, hp, hr⟩ := h
  -- on the rank, which falls as long as the word has not moved
  induction r generalizing m p t with
  | zero =>
    by_cases hm : (s.after coincident hosts m).moves o = true
    · exact ⟨m, Nat.le_refl m, hm⟩
    · have hless := hp.rank_drive coincident (hosts m) (mt (hp.moves_iff o).mpr hm)
        (hwants m (Nat.le_refl m) fun i h1 h2 => by
          obtain rfl := Nat.le_antisymm h1 h2
          simpa using hm)
      obtain ⟨p', u, -, hless⟩ := hless
      omega
  | succ r ih =>
    by_cases hm : (s.after coincident hosts m).moves o = true
    · exact ⟨m, Nat.le_add_right _ _, hm⟩
    · obtain ⟨p', u, hp', hless⟩ := hp.rank_drive coincident (hosts m) (mt (hp.moves_iff o).mpr hm)
        (hwants m (Nat.le_refl m) fun i h1 h2 => by
          obtain rfl := Nat.le_antisymm h1 h2
          simpa using hm)
      obtain ⟨n, hn, hmoves⟩ := ih (m := m + 1) (fun n hn hnone =>
        hwants n (by omega) fun i h1 h2 => by
          obtain rfl | hlt := Nat.eq_or_lt_of_le h1
          · simpa using hm
          · exact hnone i hlt h2) p' u hp' (by omega)
      exact ⟨n, by omega, hmoves⟩

theorem flag_after (h : s.ctl.flag = true) (n : ℕ) :
    (s.after coincident hosts n).ctl.flag = true := by
  induction n with
  | zero => exact h
  | succ n ih =>
    show (_ || (s.after coincident hosts n).ctl.flag) = true
    rw [ih, Bool.or_true]

theorem Prompt.after (h : Prompt s) (coincident : Bool) (hosts : ℕ → Tetris) (n : ℕ) :
    Prompt (s.after coincident hosts n) := by
  induction n with
  | zero => exact h
  | succ n ih => exact ih.drive

variable (hld : ∀ n, (s.after coincident hosts n).Unloaded)

include hld in
/-- While no word is popped, words that wait go on waiting, and the controller comes to see them. -/
theorem waiting_after (hwords : s.wrFifo.words ≠ [])
    (hroom : ∀ n, (s.after coincident hosts n).wrFifo.words.length < 2 ^ usedwBits) {n : ℕ}
    (hnone : ∀ i < n, (s.after coincident hosts i).ctl.pops = false) :
    (s.after coincident hosts n).wrFifo.words ≠ [] ∧
      Fifo.Recent (1 ≤ ·) n (s.after coincident hosts n).wrFifo.rdLag := by
  induction n with
  | zero => exact ⟨hwords, Fifo.recent_zero⟩
  | succ n ih =>
    obtain ⟨hsome, hrecent⟩ := ih fun i hi => hnone i (Nat.lt_succ_of_lt hi)
    have hpops := hnone n (Nat.lt_succ_self n)
    have hld₀ := (hld n).1
    have hld₁ : (hosts n).writeLd = false := (hld (n + 1)).1
    have hstay : afterPop (s.after coincident hosts n).ctl.pops
        (s.after coincident hosts n).wrFifo = (s.after coincident hosts n).wrFifo.words := by
      rw [hpops]
      rfl
    have hpos : 1 ≤ (s.after coincident hosts n).wrFifo.words.length :=
      List.length_pos_of_ne_nil hsome
    refine ⟨?_, ?_⟩
    · show (wrCycle coincident _ (hosts n) _ _).words ≠ []
      rw [wrCycle_words hld₁ hld₀, hstay]
      split
      · simp
      · exact hsome
    · show Fifo.Recent _ _ (wrCycle coincident _ (hosts n) _ _).rdLag
      rw [wrCycle_rdLag hld₁, Nat.mod_eq_of_lt (hroom n)]
      exact hrecent.shift hpos

include hld in
/-- While no word is pushed, an empty read FIFO stays empty, and the controller comes to see it. -/
theorem empty_after (hwr : s.wrFifo.words = []) (hrd : s.rdFifo.words = [])
    (hreq : ∀ n, (s.after coincident hosts n).tetris.writeReq = false) {n : ℕ}
    (hnone : ∀ i < n, (s.after coincident hosts i).ctl.pushes = false) :
    ((s.after coincident hosts n).wrFifo.words = [] ∧
        Fifo.Recent (· = 0) n (s.after coincident hosts n).wrFifo.rdLag) ∧
      (s.after coincident hosts n).rdFifo.words = [] ∧
        Fifo.Recent (· = 0) n (s.after coincident hosts n).rdFifo.wrLag := by
  induction n with
  | zero => exact ⟨⟨hwr, Fifo.recent_zero⟩, hrd, Fifo.recent_zero⟩
  | succ n ih =>
    obtain ⟨⟨hw, hwlag⟩, hr, hrlag⟩ := ih fun i hi => hnone i (Nat.lt_succ_of_lt hi)
    have hpushes := hnone n (Nat.lt_succ_self n)
    obtain ⟨hwld₀, hrld₀⟩ := hld n
    obtain ⟨hwld₁, hrld₁⟩ : (hosts n).writeLd = false ∧ (hosts n).readLd = false := hld (n + 1)
    have hhost : (hostAt coincident (s.after coincident hosts n).tetris (hosts n)).writeReq =
        false := hostAt_field Tetris.writeReq (hreq n) (hreq (n + 1))
    have hpop : afterPop (s.after coincident hosts n).ctl.pops
        (s.after coincident hosts n).wrFifo = [] := by
      rw [afterPop, hw]
      exact ite_self _
    have hpush : afterPush (s.after coincident hosts n).ctl.pushes
        (s.after coincident hosts n).ctl.path.mDataOut (s.after coincident hosts n).rdFifo =
        [] := by
      rw [afterPush, hpushes, hr]
      rfl
    refine ⟨⟨?_, ?_⟩, ?_, ?_⟩
    · show (wrCycle coincident _ (hosts n) _ _).words = []
      rw [wrCycle_words hwld₁ hwld₀, hpop, hhost]
      rfl
    · show Fifo.Recent _ _ (wrCycle coincident _ (hosts n) _ _).rdLag
      rw [wrCycle_rdLag hwld₁, hw]
      exact hwlag.shift rfl
    · show (rdCycle coincident _ (hosts n) _ _ _).words = []
      rw [rdCycle_words hrld₀ hrld₁, hpush]
      exact ite_self _
    · show Fifo.Recent _ _ (rdCycle coincident _ (hosts n) _ _ _).wrLag
      rw [rdCycle_wrLag hrld₁, hr]
      exact hrlag.shift rfl

variable (hp : ∃ p t, Paced s p t)
include hp

/-- From the fifth cycle on the counters of the controller show what there is. -/
theorem moves_of_wants {o : Op}
    (hwants : ∀ n, 5 ≤ n → (∀ i < n, (s.after coincident hosts i).moves o = false) →
      (s.after coincident hosts n).Wants o) :
    ∃ n ≤ 70, (s.after coincident hosts n).moves o = true := by
  by_cases hearly : ∃ n < 5, (s.after coincident hosts n).moves o = true
  · obtain ⟨n, hn, hmoves⟩ := hearly
    exact ⟨n, by omega, hmoves⟩
  · obtain ⟨p, t, h5⟩ := Paced.after hp coincident hosts 5
    obtain ⟨n, hn, hmoves⟩ := Paced.reaches (r := 65) (m := 5)
      ⟨p, t, h5, Phase.rank_le p h5.soon o⟩ (fun n hn hnone => hwants n hn fun i hi => by
        by_cases hlate : 5 ≤ i
        · exact hnone i hlate (Nat.le_of_lt hi)
        · by_contra hmoves
          exact hearly ⟨i, by omega, by simpa using hmoves⟩)
    exact ⟨n, by omega, hmoves⟩

variable (hprompt : Prompt s) (hflag : s.ctl.flag = true)
include hld hprompt hflag

theorem write_progress (hwords : s.wrFifo.words ≠ [])
    (hroom : ∀ n, (s.after coincident hosts n).wrFifo.words.length < 2 ^ usedwBits) :
    ∃ n ≤ 70, (s.after coincident hosts n).moves .write = true := by
  refine moves_of_wants hp fun n hn hnone hfree => ?_
  obtain ⟨hsome, hrecent⟩ := waiting_after hld hwords hroom hnone
  obtain ⟨p, t, hn'⟩ := Paced.after hp coincident hosts n
  have hlag := (hprompt.after coincident hosts n).wrFifo
  have hshown : 1 ≤ (s.after coincident hosts n).wrFifo.rdusedw usedwBits := by
    refine Fifo.shown_of_all (hrecent.all (Nat.le_trans hlag hn)) ?_
    rw [Fifo.count, Nat.mod_eq_of_lt (hroom n)]
    exact List.length_pos_of_ne_nil hsome
  rw [hn'.starts_eq hfree (flag_after hflag n) (hld n), if_pos hshown]

theorem read_progress (hwr : s.wrFifo.words = []) (hrd : s.rdFifo.words = [])
    (hreq : ∀ n, (s.after coincident hosts n).tetris.writeReq = false) :
    ∃ n ≤ 70, (s.after coincident hosts n).moves .read = true := by
  refine moves_of_wants hp fun n hn hnone hfree => ?_
  obtain ⟨⟨hw, hwlag⟩, hr, hrlag⟩ := empty_after hld hwr hrd hreq hnone
  obtain ⟨p, t, hn'⟩ := Paced.after hp coincident hosts n
  have hlag := hprompt.after coincident hosts n
  have hwshown : (s.after coincident hosts n).wrFifo.rdusedw usedwBits = 0 :=
    rdusedw_eq_zero hw (hwlag.all (Nat.le_trans hlag.wrFifo hn))
  have hrshown : (s.after coincident hosts n).rdFifo.wrusedw usedwBits = 0 := by
    refine Fifo.shown_of_all (hrlag.all (Nat.le_trans hlag.rdFifo hn)) ?_
    rw [Fifo.count, hr]
    rfl
  rw [hn'.starts_eq hfree (flag_after hflag n) (hld n), hwshown, hrshown]
  rfl

end Runs

/-! ## From the initialisation on -/

theorem System.powered_paced (mem : Memory) (host core : ℕ) :
    Paced (powered mem host core) (.rest .idle .free false false) 1000 where
  follows := powered_follows mem host core
  timely := .resting {
    core := rfl
    initTimer := rfl
    length := .inr ⟨rfl, rfl⟩
    bank := trivial
    ref := rfl
    timer := rfl
    le := by decide
    since := nofun
    fresh := nofun }
  soon := nofun

/-- The system after the hosts `before`, from the initialisation on. -/
def System.hosted (coincident : Bool) (mem : Memory) (host core : ℕ) (before : List Tetris) :
    System :=
  run (System.drive coincident) (powered mem host core) before

theorem System.hosted_paced (coincident : Bool) (mem : Memory) (host core : ℕ)
    (before : List Tetris) : ∃ p t, Paced (hosted coincident mem host core before) p t := by
  have hstep (s : System) (t' : Tetris) (h : ∃ p t, Paced s p t) :
      ∃ p t, Paced (s.drive coincident t') p t := by
    obtain ⟨p, t, hp⟩ := h
    obtain ⟨p', u, hp', -, -⟩ := hp.drive coincident t'
    exact ⟨p', u, hp'⟩
  exact run_invariant hstep ⟨_, _, powered_paced mem host core⟩ before

theorem System.hosted_prompt {coincident : Bool} {mem : Memory} {host core : ℕ} (hcore : core ≤ 5)
    (before : List Tetris) : Prompt (hosted coincident mem host core before) := by
  have hstep (s : System) (t' : Tetris) (h : Prompt s) : Prompt (s.drive coincident t') := h.drive
  refine run_invariant hstep ?_ before
  constructor
  · exact Nat.le_trans (Nat.le_of_eq List.length_replicate) hcore
  · exact Nat.le_trans (Nat.le_of_eq List.length_replicate) hcore

/-- In every run, from every cycle in which the controller has been set going, and with no load
from then on: if a word waits in the write FIFO, and the host does not fill the FIFO, a word is
popped within 71 cycles; and if both FIFOs are empty, and the host writes nothing, a word is
pushed into the read FIFO within 71 cycles. -/
theorem ports_progress {coincident : Bool} {mem : Memory} {host core : ℕ} (hcore : core ≤ 5)
    {before : List Tetris} (hflag : (System.hosted coincident mem host core before).ctl.flag = true)
    {hosts : ℕ → Tetris}
    (hld : ∀ n,
      ((System.hosted coincident mem host core before).after coincident hosts n).Unloaded) :
    let s := System.hosted coincident mem host core before
    (s.wrFifo.words ≠ [] →
        (∀ n, (s.after coincident hosts n).wrFifo.words.length < 2 ^ usedwBits) →
        ∃ n ≤ 70, (s.after coincident hosts n).ctl.pops = true) ∧
      (s.wrFifo.words = [] → s.rdFifo.words = [] →
        (∀ n, (s.after coincident hosts n).tetris.writeReq = false) →
        ∃ n ≤ 70, (s.after coincident hosts n).ctl.pushes = true) := by
  have hp := System.hosted_paced coincident mem host core before
  have hprompt : Prompt (System.hosted coincident mem host core before) :=
    System.hosted_prompt hcore before
  exact ⟨fun hwords hroom => write_progress hld hp hprompt hflag hwords hroom,
    fun hwr hrd hreq => read_progress hld hp hprompt hflag hwr hrd hreq⟩

theorem ports_progress_two :
    let s := System.hosted false (fun _ => 0) 2 1 [.loading 0x1234, .pushing 7, .pushing 9, .quiet]
    (s.wrFifo.words ≠ [] →
        (∀ n, (s.after false (fun _ => .quiet) n).wrFifo.words.length < 2 ^ usedwBits) →
        ∃ n ≤ 70, (s.after false (fun _ => .quiet) n).ctl.pops = true) ∧
      (s.wrFifo.words = [] → s.rdFifo.words = [] →
        (∀ n, (s.after false (fun _ => .quiet) n).tetris.writeReq = false) →
        ∃ n ≤ 70, (s.after false (fun _ => .quiet) n).ctl.pushes = true) := by
  refine ports_progress (by decide) (by decide +kernel) fun n => ?_
  cases n with
  | zero => exact ⟨rfl, rfl⟩
  | succ n => exact ⟨rfl, rfl⟩

end TetrisFpga.Sdram
