import TetrisFpga.Sdram.Answering

/-!
# When the command block wedges

Once the initialisation is over, `PM_STOP` comes `mLENGTH + 5` cycles after `do_reada` or
`do_writea` and the command delay expires nine cycles after: they meet for transfers of length 4.
-/

namespace TetrisFpga.Sdram
open Machine

namespace Command

variable {r : Command} {ci : ControlInterface} {pmStop : Bool}

theorem transfers_stopped (hstop : pmStop = true) (hexp : r.expires = false)
    (h : (r.next ci pmStop).takes = false) : (r.next ci pmStop).transfers = false := by
  simp only [takes, does, transfers, next, expires] at h hexp ⊢
  grind

/-- While a delay runs nothing is taken. -/
theorem takes_of_delay (h : r.commandDone = true ∨ r.rpDone = true) :
    (r.next ci pmStop).takes = false ∧ (r.next ci pmStop).doRefresh = false := by
  simp only [takes, does, next]
  grind

theorem doRefresh_of_takes (h : r.takes = true) : (r.next ci pmStop).doRefresh = false := by
  simp only [takes, does, next] at h ⊢
  grind

/-- The command block with nothing to do but `READA` and `WRITEA`. -/
theorem next_of_quiet (hinit : ci.initReq = false) (hrefresh : r.doRefresh = false)
    (hprecharge : r.doPrecharge = false) (hload : r.doLoadMode = false) :
    (r.next ci pmStop).cmAck = r.takes ∧
      (r.next ci pmStop).commandDone = (r.takes || r.commandDelay.getLsbD 0) ∧
      (r.next ci pmStop).commandDelay =
        if r.takes then (0xff : BitVec 8) else r.commandDelay >>> 1 := by
  simp [next, takes, does, hinit, hrefresh, hprecharge, hload]

end Command

namespace Controller

/-! ## The command block after the initialisation -/

/-- No transaction is on the way to its `PM_STOP`. -/
def Passed (c : Controller) (m : Motion) : Prop :=
  ∀ o st, m = .moving o st → c.path.mLength.toNat + 4 < st

/-- Nothing that was taken is left. -/
structure Clear (c : Controller) (m : Motion) : Prop where
  takes : c.core.cmd.takes = false
  transfers : c.core.cmd.transfers = false
  cmAck : c.core.cmd.cmAck = false
  cmdAck : c.core.ci.cmdAck = false
  passed : Passed c m

/-- `k` cycles after a transaction was taken, not later than its `PM_STOP`. -/
structure Taken (c : Controller) (m : Motion) (o : Op) (k : ℕ) : Prop where
  motion : m = if k ≤ 2 then .waiting o else .moving o (k - 1)
  stop : k ≤ c.path.mLength.toNat + 5
  transfers : c.core.cmd.transfers = true
  doRefresh : c.core.cmd.doRefresh = false
  does : k = 0 → c.core.cmd.does o = true
  takes : c.core.cmd.takes = decide (k = 0)
  commandDone : 1 ≤ k → c.core.cmd.commandDone = decide (k ≤ 9)
  commandDelay : 1 ≤ k → c.core.cmd.commandDelay = (0xff : BitVec 8) >>> (k - 1)
  rpDone : 10 ≤ k → c.core.cmd.rpDone = true
  cmAck : c.core.cmd.cmAck = decide (k = 1)
  cmdAck : c.core.ci.cmdAck = decide (k = 2)

/-- Held back for good. -/
structure Stuck (c : Controller) (m : Motion) : Prop where
  takes : c.core.cmd.takes = false
  transfers : c.core.cmd.transfers = true
  doRefresh : c.core.cmd.doRefresh = false
  rpDone : c.core.cmd.rpDone = true
  cmAck : c.core.cmd.cmAck = false
  cmdAck : c.core.ci.cmdAck = false
  passed : Passed c m

variable {c : Controller} {m : Motion} {o : Op} {k : ℕ} {i : Edge}

theorem Passed.pmStop (h : Passed c m) (hm : c.At m) : c.core.ctl.pmStop = false := by
  rw [Bool.eq_false_iff]
  intro hstop
  obtain ⟨o, ho⟩ := hm.pmStop.mp hstop
  exact Nat.lt_irrefl _ (h o _ ho)

theorem Passed.edge (h : Passed c m) (hm : c.At m) (hack : c.core.ci.cmdAck = false) (i : Edge) :
    Passed (c.edge i) (m.next c.path.mLength.toNat c.core.ci.cmdAck (c.starts i)) := by
  intro o st hst
  rw [hack] at hst
  cases m with
  | idle => cases hs : c.starts i <;> simp [Motion.next, hs] at hst
  | asked o => cases hst
  | waiting o => cases hst
  | moving o' st' =>
    have hlt := h o' st' rfl
    rw [hm.length_edge (by simp)]
    simp only [Motion.next] at hst
    split at hst
    · obtain ⟨-, rfl⟩ := Motion.moving.inj hst
      omega
    · cases o' <;> cases hst
  | reported => cases hst

/-- Without something to do there is no acknowledge. -/
theorem cmAck_edge (hc : c.core.Initialised) (htakes : c.core.cmd.takes = false)
    (hack : c.core.cmd.cmAck = false) : (c.edge i).core.cmd.cmAck = false := by
  have hrefReq := hc.refReq
  simp only [Command.takes, Command.does, Bool.or_eq_false_iff] at htakes
  show (c.core.cmd.next c.core.ci c.core.ctl.pmStop).cmAck = false
  simp only [Command.next, htakes, hc.doPrecharge, hc.doLoadMode, hack]
  grind

theorem cmdAck_edge (hack : c.core.cmd.cmAck = false) : (c.edge i).core.ci.cmdAck = false := by
  show (c.core.cmd.cmAck && !c.core.ci.cmdAck) = false
  rw [hack, Bool.false_and]

theorem Clear.edge (h : Clear c m) (hm : Asking c m) (hc : c.core.Initialised) (i : Edge) :
    let m' := m.next c.path.mLength.toNat c.core.ci.cmdAck (c.starts i)
    Clear (c.edge i) m' ∨ ∃ o, Taken (c.edge i) m' o 0 := by
  intro m'
  cases htakes : (c.edge i).core.cmd.takes with
  | false =>
    left
    exact {
      takes := htakes
      transfers := by
        rw [Bool.eq_false_iff]
        intro ht
        obtain ⟨-, ht | ht, -⟩ := Command.transfers_next ht
        · exact Bool.eq_false_iff.mp htakes ht
        · exact Bool.eq_false_iff.mp h.transfers ht
      cmAck := cmAck_edge hc h.takes h.cmAck
      cmdAck := cmdAck_edge h.cmAck
      passed := h.passed.edge hm.motion h.cmdAck i }
  | true =>
    right
    obtain ⟨o, ho, hdoes⟩ := exists_asks htakes
    obtain ⟨hreq, -⟩ := Command.takes_next htakes
    have hwaiting : m = .waiting o := by
      rcases hm.asks o ho with hm | hm
      · exact hm
      -- a transaction under way has taken its command already
      · have hlt := h.passed o 2 hm
        omega
    exact ⟨o, {
      motion := by
        show m.next _ _ _ = _
        rw [hwaiting, h.cmdAck]
        rfl
      stop := Nat.zero_le _
      transfers := (hm.edge i).taken htakes
      doRefresh := Command.doRefresh_of_request hreq hc.refresh
      does := fun _ => hdoes
      takes := htakes
      commandDone := nofun
      commandDelay := nofun
      rpDone := nofun
      cmAck := cmAck_edge hc h.takes h.cmAck
      cmdAck := cmdAck_edge h.cmAck }⟩

theorem Stuck.edge (h : Stuck c m) (hm : Asking c m) (hc : c.core.Initialised) (i : Edge) :
    Stuck (c.edge i) (m.next c.path.mLength.toNat c.core.ci.cmdAck (c.starts i)) := by
  have hstop := h.passed.pmStop hm.motion
  have hmask : c.core.ctl.pmStop = true → c.core.cmd.expires = true := by
    rw [hstop]
    nofun
  obtain ⟨htakes, hrefresh⟩ : (c.edge i).core.cmd.takes = false ∧
      (c.edge i).core.cmd.doRefresh = false := Command.takes_of_delay (.inr h.rpDone)
  exact {
    takes := htakes
    transfers := Command.transfers_kept hc.initReq h.transfers hmask
    doRefresh := hrefresh
    rpDone := Command.rpDone_kept hc.initReq h.transfers (.inl h.rpDone) hmask
    cmAck := cmAck_edge hc h.takes h.cmAck
    cmdAck := cmdAck_edge h.cmAck
    passed := h.passed.edge hm.motion h.cmdAck i }

theorem Taken.takes_edge (h : Taken c m o k) (hm : Asking c m) (i : Edge) :
    (c.edge i).core.cmd.takes = false ∧ (c.edge i).core.cmd.doRefresh = false := by
  match k with
  | 0 =>
    refine ⟨Bool.eq_false_iff.mpr fun htakes => ?_, Command.doRefresh_of_takes h.takes⟩
    obtain ⟨o', hasks, hdoes'⟩ := exists_asks htakes
    obtain rfl : o = o' := by
      rcases hm.asks o' hasks with hm | hm
      · exact Motion.waiting.inj (h.motion.symm.trans hm)
      · cases h.motion.symm.trans hm
    -- It is being done already.
    have hdoes := h.does rfl
    cases o
    · exact Bool.eq_false_iff.mp (Command.writea_of_doWritea hdoes').2 hdoes
    · exact Bool.eq_false_iff.mp (Command.reada_of_doReada hdoes').2 hdoes
  | k + 1 =>
    apply Command.takes_of_delay
    by_cases hk : k + 1 ≤ 9
    · left
      rw [h.commandDone (by omega), decide_eq_true hk]
    · exact .inr (h.rpDone (by omega))

theorem getLsbD_delay (k : ℕ) : ((0xff : BitVec 8) >>> k).getLsbD 0 = decide (k ≤ 7) := by
  rw [BitVec.getLsbD_ushiftRight, Nat.add_zero]
  rcases Nat.lt_or_ge k 8 with hk | hk
  · rw [decide_eq_true (Nat.le_of_lt_succ hk)]
    exact (by decide : ∀ k < 8, (0xff : BitVec 8).getLsbD k = true) k hk
  · rw [decide_eq_false (by omega)]
    exact BitVec.getLsbD_of_ge _ _ hk

/-- The command delay expires in the tenth cycle. -/
theorem Taken.expires (h : Taken c m o k) (hk : 1 ≤ k) :
    c.core.cmd.expires = decide (k = 9) := by
  rw [Command.expires, h.commandDone hk, h.commandDelay hk, getLsbD_delay]
  grind

theorem Taken.pmStop (h : Taken c m o k) (hm : c.At m) :
    c.core.ctl.pmStop = decide (k = c.path.mLength.toNat + 5) := by
  rw [Bool.eq_iff_iff, hm.pmStop, decide_eq_true_iff, h.motion]
  split
  · constructor
    · rintro ⟨_, ho⟩
      cases ho
    · omega
  · constructor
    · rintro ⟨_, ho⟩
      obtain ⟨-, hst⟩ := Motion.moving.inj ho
      omega
    · rintro rfl
      exact ⟨o, rfl⟩

theorem Taken.edge (h : Taken c m o k) (hm : Asking c m) (hc : c.core.Initialised)
    (hk : k < c.path.mLength.toNat + 5) (i : Edge) :
    Taken (c.edge i) (m.next c.path.mLength.toNat c.core.ci.cmdAck (c.starts i)) o (k + 1) := by
  obtain ⟨htakes, hrefresh⟩ := h.takes_edge hm i
  obtain ⟨hcmAck, hdone, hdelay⟩ : (c.edge i).core.cmd.cmAck = _ ∧
      (c.edge i).core.cmd.commandDone = _ ∧ (c.edge i).core.cmd.commandDelay = _ :=
    Command.next_of_quiet hc.initReq h.doRefresh hc.doPrecharge hc.doLoadMode
  have hmask : c.core.ctl.pmStop = true → c.core.cmd.expires = true := by
    rw [h.pmStop hm.motion, decide_eq_false (Nat.ne_of_lt hk)]
    nofun
  have hidle : m ≠ .idle := by
    rw [h.motion]
    split <;> nofun
  exact {
    motion := by
      rw [h.cmdAck]
      -- `CMDACK` comes in the third cycle, and `ST` counts from then on
      obtain rfl | rfl | rfl | ⟨k, rfl⟩ : k = 0 ∨ k = 1 ∨ k = 2 ∨ ∃ j, k = j + 3 := by
        match k with
        | 0 | 1 | 2 => simp
        | k + 3 => simp
      · rw [h.motion]
        rfl
      · rw [h.motion]
        rfl
      · rw [h.motion]
        rfl
      · rw [h.motion]
        exact Motion.next_moving (by omega) ..
    stop := by
      rw [hm.motion.length_edge hidle]
      exact hk
    transfers := Command.transfers_kept hc.initReq h.transfers hmask
    doRefresh := hrefresh
    does := nofun
    takes := htakes
    commandDone := fun _ => by
      rw [hdone, h.takes]
      match k with
      | 0 => rfl
      | k + 1 =>
        rw [h.commandDelay (by omega), getLsbD_delay]
        grind
    commandDelay := fun _ => by
      rw [hdelay, h.takes]
      match k with
      | 0 => rfl
      | k + 1 =>
        rw [h.commandDelay (by omega), ← BitVec.shiftRight_add]
        rfl
    rpDone := fun _ => by
      refine Command.rpDone_kept hc.initReq h.transfers ?_ hmask
      -- the delay runs for ten cycles, and `rp_done` is set when it is over
      rcases Nat.lt_or_ge k 10 with hlt | hge
      · right
        rw [h.expires (by omega)]
        exact decide_eq_true (by omega)
      · exact .inl (h.rpDone hge)
    cmAck := by
      rw [hcmAck, h.takes]
      simp
    cmdAck := by
      show (c.core.cmd.cmAck && !c.core.ci.cmdAck) = _
      rw [h.cmAck, h.cmdAck]
      grind }

/-- `PM_STOP` frees the command block unless it is masked. -/
theorem Taken.edge_stop (h : Taken c m o k) (hm : Asking c m) (hc : c.core.Initialised)
    (hk : k = c.path.mLength.toNat + 5) (i : Edge) :
    let m' := m.next c.path.mLength.toNat c.core.ci.cmdAck (c.starts i)
    Clear (c.edge i) m' ∨ Stuck (c.edge i) m' := by
  intro m'
  have hpm : c.core.ctl.pmStop = true :=
    (h.pmStop hm.motion).trans (decide_eq_true hk)
  have hmoving : m = .moving o (c.path.mLength.toNat + 4) := by
    rw [h.motion, if_neg (by omega), hk]
    rfl
  obtain ⟨htakes, hrefresh⟩ := h.takes_edge hm i
  have hcmAck : (c.edge i).core.cmd.cmAck = false := by
    refine (Command.next_of_quiet hc.initReq h.doRefresh hc.doPrecharge hc.doLoadMode).1.trans ?_
    rw [h.takes]
    exact decide_eq_false (by omega)
  have hcmdAck : (c.edge i).core.ci.cmdAck = false := by
    apply cmdAck_edge
    rw [h.cmAck]
    exact decide_eq_false (by omega)
  have hpassed : Passed (c.edge i) m' := by
    intro o' st hst
    have hm' : m' = .moving o (c.path.mLength.toNat + 5) := by
      show m.next _ _ _ = _
      rw [hmoving]
      exact Motion.next_moving (by omega) ..
    obtain ⟨-, rfl⟩ := Motion.moving.inj (hm'.symm.trans hst)
    rw [hm.motion.length_edge (by rw [hmoving]; nofun)]
    omega
  -- the delay that runs out in the cycle of `PM_STOP` masks it
  cases hexp : c.core.cmd.expires with
  | false =>
    exact .inl ⟨htakes, Command.transfers_stopped hpm hexp htakes, hcmAck, hcmdAck, hpassed⟩
  | true =>
    exact .inr ⟨htakes, Command.transfers_kept hc.initReq h.transfers fun _ => hexp, hrefresh,
      Command.rpDone_kept hc.initReq h.transfers (.inr hexp) fun _ => hexp, hcmAck, hcmdAck,
      hpassed⟩

/-- The command block after the initialisation. -/
def Settled (c : Controller) (m : Motion) : Prop :=
  Clear c m ∨ (∃ o k, Taken c m o k) ∨ Stuck c m

theorem Settled.edge (h : Settled c m) (hm : Asking c m) (hc : c.core.Initialised) (i : Edge) :
    Settled (c.edge i) (m.next c.path.mLength.toNat c.core.ci.cmdAck (c.starts i)) := by
  obtain h | ⟨o, k, h⟩ | h := h
  · rcases h.edge hm hc i with h | ⟨o, h⟩
    · exact .inl h
    · exact .inr (.inl ⟨o, 0, h⟩)
  · rcases Nat.lt_or_eq_of_le h.stop with hlt | heq
    · exact .inr (.inl ⟨o, k + 1, h.edge hm hc hlt i⟩)
    · rcases h.edge_stop hm hc heq i with h | h
      · exact .inl h
      · exact .inr (.inr h)
  · exact .inr (.inr (h.edge hm hc i))

/-- A `PM_STOP` is masked for a length of 4. -/
theorem Settled.masked_iff (h : Settled c m) (hm : c.At m) :
    c.core.Masked ↔ c.core.ctl.pmStop = true ∧ c.path.mLength = 4 := by
  rw [Core.Masked]
  obtain h | ⟨o, k, h⟩ | h := h
  · simp [h.passed.pmStop hm]
  · rw [h.pmStop hm, h.transfers, decide_eq_true_iff]
    refine and_congr_right fun hk => ?_
    rw [h.expires (by omega), decide_eq_true_iff, ← BitVec.toNat_inj]
    refine (and_iff_right rfl).trans ?_
    show k = 9 ↔ c.path.mLength.toNat = 4
    omega
  · simp [h.passed.pmStop hm]

/-! ## Runs -/

variable {e : ℕ → Edge} {n : ℕ}

/-- While no transaction is started. -/
theorem startup_after (h : ∀ k < n, (after e k).starts (e k) = none) :
    (after e n).startup = .after n ∧ (after e n).path.mLength = 0 ∧ (after e n).At .idle := by
  induction n with
  | zero => exact ⟨rfl, rfl, at_powerUp⟩
  | succ n ih =>
    obtain ⟨hc, hlen, hm⟩ := ih fun k hk => h k (Nat.lt_succ_of_lt hk)
    have hs := h n (Nat.lt_succ_self n)
    obtain ⟨hnext, hlen⟩ := startup_edge hlen hs
    rw [hc, ← Startup.after_succ] at hnext
    have hidle := hm.edge (e n)
    rw [hs] at hidle
    exact ⟨hnext, hlen, hidle⟩

theorem startup_loadingMode :
    Startup.after 24203 = ⟨Startup.loadingMode, 1022, initPer + 201⟩ := by
  rw [← Startup.watchedAfter_snd, Startup.watchedAfter_loadingMode]

/-- Two cycles after `LOAD MODE` was taken its acknowledge is over. No transaction can have been
taken: the first waits from the second of these cycles. -/
theorem settled_loadingMode (hcore : c.core = Startup.loadingMode) (hm : c.At .idle)
    (i j : Edge) : ∃ m, Asking ((c.edge i).edge j) m ∧ Settled ((c.edge i).edge j) m := by
  have h0 : Asking c .idle := by
    have hasks (o : Op) : Startup.loadingMode.asks o = false := by cases o <;> rfl
    refine ⟨hm, fun o ho => ?_, fun ht => ?_⟩
    · rw [hcore, hasks] at ho
      cases ho
    · rw [hcore] at ht
      cases ht
  obtain ⟨m, h1, hm⟩ : ∃ m, Asking (c.edge i) m ∧ (m = .idle ∨ ∃ o, m = .asked o) := by
    refine ⟨_, h0.edge i, ?_⟩
    cases c.starts i with
    | none => exact .inl rfl
    | some o => exact .inr ⟨o, rfl⟩
  have hcmd : (c.edge i).core.cmd = Startup.loadingMode.cmd.next Startup.loadingMode.ci false := by
    show c.core.cmd.next c.core.ci c.core.ctl.pmStop = _
    rw [hcore]
    rfl
  have htakes : ((c.edge i).edge j).core.cmd.takes = false := by
    rw [Bool.eq_false_iff]
    intro ht
    obtain ⟨o, ho, -⟩ := exists_asks ht
    obtain rfl | ⟨o', rfl⟩ := hm <;> rcases h1.asks o ho with hm | hm <;> cases hm
  have htransfers : ((c.edge i).edge j).core.cmd.transfers = false := by
    rw [Bool.eq_false_iff]
    intro ht
    obtain ⟨-, ht | ht, -⟩ := Command.transfers_next ht
    · exact Bool.eq_false_iff.mp htakes ht
    · rw [hcmd] at ht
      cases ht
  have hcmAck : ((c.edge i).edge j).core.cmd.cmAck = false := by
    show ((c.edge i).core.cmd.next _ _).cmAck = false
    rw [hcmd]
    rfl
  refine ⟨_, h1.edge j, .inl ⟨htakes, htransfers, hcmAck, cmdAck_edge (congrArg _ hcmd), ?_⟩⟩
  intro o st hst
  obtain rfl | ⟨o', rfl⟩ := hm
  · cases hs : (c.edge i).starts j <;> simp [hs, Motion.next] at hst
  · cases hst

/-- From then on the command block is settled. -/
theorem settled_after (hn : 24202 ≤ n) (hcore : (after e n).core = Startup.loadingMode)
    (hm : (after e n).At .idle) (k : ℕ) :
    ∃ m, Asking (after e (n + 2 + k)) m ∧ Settled (after e (n + 2 + k)) m := by
  induction k with
  | zero => exact settled_loadingMode hcore hm (e n) (e (n + 1))
  | succ k ih =>
    obtain ⟨m, hm, h⟩ := ih
    exact ⟨_, hm.edge _, h.edge hm (initialised_late (by omega)) _⟩

/-- Until then no transaction moves its words. -/
theorem pmStop_early (h : ∀ k < n, (after e k).starts (e k) = none) {k : ℕ} (hk : k ≤ n + 1) :
    (after e k).core.ctl.pmStop = false := by
  rw [Bool.eq_false_iff]
  intro hstop
  rcases Nat.lt_or_eq_of_le hk with hlt | rfl
  · obtain ⟨-, -, hm⟩ := startup_after (n := k) fun j hj => h j (by omega)
    obtain ⟨o, ho⟩ := hm.pmStop.mp hstop
    cases ho
  · obtain ⟨-, -, hm⟩ := startup_after h
    obtain ⟨o, ho⟩ := (hm.edge (e n)).pmStop.mp hstop
    cases hs : (after e n).starts (e n) <;> simp [hs, Motion.next] at ho

/-- In every run the command block wedges if and only if a `PM_STOP` is masked, and otherwise
accepts again and again. If the host starts no transaction before the initialisation is over,
then exactly the `PM_STOP` of transfers of length 4 are masked. -/
theorem wedged_iff (e : ℕ → Edge) :
    (((∀ n, ¬(after e n).core.Wedged) ∧ ∀ n, ∃ k, n ≤ k ∧ (after e k).core.cmd.Accepts) ↔
      ∀ n, ¬(after e n).core.Masked) ∧
    ((∀ n < 24203, (after e n).starts (e n) = none) → ∀ n, (after e n).core.Masked ↔
      (after e n).core.ctl.pmStop = true ∧ (after e n).path.mLength = 4) := by
  refine ⟨⟨fun h n hmask => h.1 _ (wedged_of_masked hmask), fun h => ⟨fun n => ?_, ?_⟩⟩, ?_⟩
  · obtain ⟨m, hm⟩ := answering_after h n
    exact hm.not_wedged
  · exact accepts_again h
  · intro h n
    rcases Nat.lt_or_ge n 24205 with hlt | hge
    · have hstop := pmStop_early h (Nat.le_of_lt_succ hlt)
      simp [Core.Masked, hstop]
    · obtain ⟨k, rfl⟩ := Nat.exists_eq_add_of_le hge
      obtain ⟨hstartup, -, hm⟩ := startup_after h
      rw [startup_loadingMode] at hstartup
      obtain ⟨m, hm, hsettled⟩ :=
        settled_after (by decide) (congrArg Startup.core hstartup) hm k
      exact hsettled.masked_iff hm.motion

/-- The host has four words to write when the initialisation is over. -/
def fourWords : Edge where
  ports := ⟨0, 0x1ffffff, 4, false, 0, 0x1ffffff, 1, false⟩
  rusedw := 4
  wusedw := 1
  dq := 0

def writesFour (n : ℕ) : Edge := if n < 24221 then loading else fourWords

theorem writesFour_loading {n : ℕ} (hn : n < 24221) : writesFour n = loading := if_pos hn

theorem wedged_iff_writesFour : (after writesFour 24235).core.Masked ↔
    (after writesFour 24235).core.ctl.pmStop = true ∧ (after writesFour 24235).path.mLength = 4 :=
  (wedged_iff writesFour).2 (fun n hn => starts_of_wrLoad (by
    rw [writesFour_loading (by omega)]
    rfl)) 24235

/-- The write of four words wedges the command block: 18 cycles later it is over. -/
theorem wedged_writesFour : (after writesFour (24221 + 18)).core.Wedged := by
  have hfour (n : ℕ) : writesFour (24221 + n) = fourWords := if_neg (by omega)
  rw [after, follow_eq_run, map_range_add (fun n hn => writesFour_loading hn) hfour, run_append,
    run_loading_ready]
  decide +kernel

end Controller

end TetrisFpga.Sdram
