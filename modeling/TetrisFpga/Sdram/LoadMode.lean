import TetrisFpga.Sdram.PowerUp

/-!
# The initialisation comes first

No `ACTIVATE`, `READ` or `WRITE` before `LOAD MODE`, and no acknowledge of the initialisation
for a transaction of the host: if the host waits for the end of the initialisation. The
controller does not make it wait.
-/

namespace TetrisFpga.Sdram
open Machine

/-! ## What is watched -/

/-- Whether `LOAD MODE` has been on the pins, and whether `CM_ACK` and `CMD_ACK` answer a command
of the initialisation. -/
structure Watch where
  loaded : Bool := false
  cmAck : Bool := false
  cmdAck : Bool := false
  deriving DecidableEq

/-- `CM_ACK` keeps its value while `REF_ACK` answers the refresh timer. -/
def Watch.next (w : Watch) (c : Core) : Watch where
  loaded := w.loaded || c.ctl.strobes == .loadMode
  cmAck := if c.cmd.doRefresh && c.ci.refReq then w.cmAck
    else c.cmd.doRefresh || c.cmd.doPrecharge || c.cmd.doLoadMode
  cmdAck := w.cmAck

/-- The initialisation comes first, in this cycle. -/
structure Watch.Safe (w : Watch) (c : Core) : Prop where
  pins : c.ctl.strobes ∈ [Strobes.activate, .read, .write] → w.loaded = true
  acks : c.ctl.st = 1 → c.ci.cmdAck = true → w.cmdAck = false

instance (w : Watch) (c : Core) : Decidable (w.Safe c) :=
  decidable_of_iff ((c.ctl.strobes ∈ [Strobes.activate, .read, .write] → w.loaded = true) ∧
    (c.ctl.st = 1 → c.ci.cmdAck = true → w.cmdAck = false))
    ⟨fun h => ⟨h.1, h.2⟩, fun h => ⟨h.1, h.2⟩⟩

def Controller.watched (s : Watch × Controller) (e : Edge) : Watch × Controller :=
  (s.1.next s.2.core, s.2.edge e)

/-! ## The initialisation -/

namespace Startup

def watched (s : Watch × Startup) (_ : Unit) : Watch × Startup := (s.1.next s.2.core, s.2.next)

/-- The registers and the watch after `n` edges. -/
def watchedAfter (n : ℕ) : Watch × Startup := run watched ({}, {}) (List.replicate n ())

theorem watchedAfter_add (n k : ℕ) :
    watchedAfter (n + k) = run watched (watchedAfter n) (List.replicate k ()) := by
  rw [watchedAfter, ← List.replicate_append_replicate, run_append]
  rfl

theorem watchedAfter_snd (n : ℕ) : (watchedAfter n).2 = after n := by
  induction n with
  | zero => rfl
  | succ n ih =>
    rw [watchedAfter_add, after_succ, ← ih]
    rfl

/-- Nothing happens before `init_timer` reaches `INIT_PER`. -/
theorem watchedAfter_eq_held (n : ℕ) (hn : n + 2 ≤ 24000) :
    watchedAfter (n + 2) = ({}, ⟨held, refPer + 200, BitVec.ofNat 16 (n + 2)⟩) := by
  induction n with
  | zero => decide
  | succ n ih =>
    have hsucc : BitVec.ofNat 16 (n + 2 + 1) = BitVec.ofNat 16 (n + 2) + 1 := BitVec.ofNat_add ..
    have hlt : BitVec.ofNat 16 (n + 2) < initPer := ofNat_lt_initPer (by omega)
    rw [Nat.add_right_comm, watchedAfter_add, ih (by omega), hsucc]
    exact congrArg (Prod.mk ({} : Watch)) (held_next hlt)

theorem watchedAfter_initPer (k : ℕ) : watchedAfter (24000 + k) =
    run watched ({}, ⟨held, refPer + 200, initPer⟩) (List.replicate k ()) := by
  rw [watchedAfter_add, watchedAfter_eq_held 23998 (by decide)]
  rfl

/-- `LOAD MODE` is about to be on the pins, and its acknowledge is on the way. -/
def loadingMode : Core where
  ci := { nop := true }
  cmd := { commandDone := true, commandDelay := 0xff, cmAck := true, strobes := .loadMode }
  ctl := { dqm := 3, strobes := .nop }

theorem watchedAfter_loadingMode :
    watchedAfter 24203 = ({ cmAck := true }, ⟨loadingMode, 1022, initPer + 201⟩) := by
  rw [watchedAfter_initPer 203]
  decide +kernel

end Startup

namespace Controller

/-- Without transactions the watch sees the registers of the initialisation. -/
theorem watched_idle {s : Watch × Controller} {n : ℕ} {is : List Edge}
    (hs : (s.1, s.2.startup) = Startup.watchedAfter n) (hlen : s.2.path.mLength = 0)
    (h : Idle s.2 is) :
    ((run watched s is).1, (run watched s is).2.startup) = Startup.watchedAfter (n + is.length) ∧
      (run watched s is).2.path.mLength = 0 := by
  induction is generalizing s n with
  | nil => exact ⟨hs, hlen⟩
  | cons e is ih =>
    obtain ⟨hnext, hlen⟩ := startup_edge hlen h.1
    have hwatched : ((watched s e).1, (watched s e).2.startup) = Startup.watchedAfter (n + 1) := by
      rw [Startup.watchedAfter_add, ← hs]
      exact Prod.ext rfl hnext
    have hrun := ih hwatched hlen h.2
    rwa [Nat.add_assoc, Nat.add_comm 1] at hrun

end Controller

/-! ## After the initialisation -/

/-- The command block only gets commands of the host and of the refresh timer. -/
structure Core.Initialised (c : Core) : Prop where
  initReq : c.ci.initReq = false
  refresh : c.ci.refresh = false
  precharge : c.ci.precharge = false
  loadMode : c.ci.loadMode = false
  doPrecharge : c.cmd.doPrecharge = false
  doLoadMode : c.cmd.doLoadMode = false
  refReq : c.cmd.doRefresh = true → c.ci.refReq = true
  refAck : c.cmd.refAck = true → c.cmd.commandDone = true

theorem Command.commandDone_of_refAck {r : Command} {ci : ControlInterface} {pmStop : Bool}
    (hinit : ci.initReq = false) (h : (r.next ci pmStop).refAck = true) :
    (r.next ci pmStop).commandDone = true := by
  simp only [Command.next, hinit] at h ⊢
  grind

/-- A refresh that is acknowledged keeps the command block busy, so that none is taken without
a request that stays. -/
theorem Core.refReq_of_doRefresh {c : Core} (hinit : c.ci.initReq = false)
    (hrefresh : c.ci.refresh = false) (hrefAck : c.cmd.refAck = true → c.cmd.commandDone = true)
    {len : BitVec 9} {t : BitVec 16} {timerZero : Bool} {start : Option Op}
    (h : (c.next len t timerZero start).cmd.doRefresh = true) :
    (c.next len t timerZero start).ci.refReq = true := by
  simp only [Core.next, Command.next, ControlInterface.next, hinit, hrefresh] at h ⊢
  grind

theorem Core.Initialised.next {c : Core} (h : c.Initialised) (len : BitVec 9) (timerZero : Bool)
    (start : Option Op) : (c.next len (initPer + 201) timerZero start).Initialised := by
  constructor
  · show decide ((initPer + 201 : BitVec 16) < initPer) = false
    decide
  · show initRefreshes.contains (initPer + 201) = false
    decide
  · show ((initPer + 201 : BitVec 16) == initPer + 20) = false
    decide
  · show ((initPer + 201 : BitVec 16) == initPer + 200) = false
    decide
  · simp [Core.next, Command.next, h.precharge]
  · simp [Core.next, Command.next, h.loadMode]
  · exact Core.refReq_of_doRefresh h.initReq h.refresh h.refAck
  · exact Command.commandDone_of_refAck h.initReq

namespace Controller

variable {s : Watch × Controller}

/-- `LOAD MODE` has been on the pins, and its acknowledge is over. -/
structure Loaded (s : Watch × Controller) : Prop where
  loaded : s.1.loaded = true
  cmAck : s.1.cmAck = false
  cmdAck : s.1.cmdAck = false
  core : s.2.core.Initialised
  initTimer : s.2.initTimer = initPer + 201

theorem Loaded.safe (h : Loaded s) : s.1.Safe s.2.core := ⟨fun _ => h.loaded, fun _ _ => h.cmdAck⟩

/-- The watch of a command block that only answers the host and the refresh timer. -/
theorem watch_cmAck {w : Watch} {c : Core} (h : c.Initialised) (hw : w.cmAck = false) :
    (w.next c).cmAck = false := by
  simp only [Watch.next, h.doPrecharge, h.doLoadMode, hw]
  have hrefReq := h.refReq
  grind

theorem initialised_edge {c : Controller} (h : c.core.Initialised)
    (ht : c.initTimer = initPer + 201) (e : Edge) :
    (c.edge e).core.Initialised ∧ (c.edge e).initTimer = initPer + 201 := by
  constructor
  · show (c.core.next _ c.initTimer _ _).Initialised
    rw [ht]
    exact h.next ..
  · show nextInitTimer c.initTimer = _
    rw [ht]
    rfl

theorem Loaded.watched (h : Loaded s) (e : Edge) : Loaded (watched s e) := by
  obtain ⟨hcore, ht⟩ := initialised_edge h.core h.initTimer e
  exact {
    loaded := by
      show (s.1.loaded || _) = true
      rw [h.loaded, Bool.true_or]
    cmAck := watch_cmAck h.core h.cmAck
    cmdAck := h.cmAck
    core := hcore
    initTimer := ht }

theorem loadingMode_initialised : Startup.loadingMode.Initialised := by
  constructor <;> decide

/-- The edge with which `LOAD MODE` gets to the pins, whatever the host does. -/
theorem loadingMode_next (timerZero : Bool) (start : Option Op) :
    (Startup.loadingMode.next 0 (initPer + 201) timerZero start).ctl.strobes = .loadMode ∧
      (Startup.loadingMode.next 0 (initPer + 201) timerZero start).ctl.st = 0 := by
  obtain _ | _ | _ := start <;> cases timerZero <;> decide

/-- With one more edge `LOAD MODE` is on the pins, and with two its acknowledge is over. -/
theorem safe_of_loadingMode (hw : s.1 = { cmAck := true })
    (hc : s.2.startup = ⟨Startup.loadingMode, 1022, initPer + 201⟩) (hlen : s.2.path.mLength = 0)
    (e : Edge) (is : List Edge) :
    (run watched s (e :: is)).1.Safe (run watched s (e :: is)).2.core := by
  have hcore : s.2.core = Startup.loadingMode := congrArg Startup.core hc
  have ht : s.2.initTimer = initPer + 201 := congrArg Startup.initTimer hc
  have hwatch : (watched s e).1 = { cmdAck := true } := by
    show s.1.next s.2.core = _
    rw [hw, hcore]
    rfl
  have hedge : (s.2.edge e).core =
      Startup.loadingMode.next 0 (initPer + 201) (s.2.timer == 0) (s.2.starts e) := by
    rw [← hcore, ← ht, ← hlen]
    rfl
  obtain ⟨hpins, hst⟩ := loadingMode_next (s.2.timer == 0) (s.2.starts e)
  rw [← hedge] at hpins hst
  obtain ⟨hready, ht⟩ := initialised_edge (hcore ▸ loadingMode_initialised) ht e
  cases is with
  | nil =>
    refine ⟨fun hp => absurd (hpins ▸ hp) (by decide), fun h1 => ?_⟩
    exact absurd (hst.symm.trans h1) (by decide)
  | cons e' is =>
    obtain ⟨hready', ht'⟩ := initialised_edge hready ht e'
    have hloaded : Loaded (watched (watched s e) e') :=
      { loaded := by
          show ((watched s e).1.loaded || (s.2.edge e).core.ctl.strobes == .loadMode) = true
          rw [hpins, hwatch]
          decide
        cmAck := watch_cmAck hready (congrArg Watch.cmAck hwatch)
        cmdAck := congrArg Watch.cmAck hwatch
        core := hready'
        initTimer := ht' }
    have hstep : ∀ s e, Loaded s → Loaded (watched s e) := fun _ e h => h.watched e
    exact (run_invariant hstep hloaded is).safe

theorem run_watched (s : Watch × Controller) (is : List Edge) :
    (run watched s is).2 = run edge s.2 is := by
  induction is generalizing s with
  | nil => rfl
  | cons e is ih => exact ih _

/-- The initialisation comes first if the host starts no transaction before its end. -/
theorem load_mode_first (is : List Edge) (h : Idle {} (is.take 24203)) :
    (run watched ({}, {}) is).1.Safe (run watched ({}, {}) is).2.core := by
  obtain ⟨hstartup, hlen⟩ := watched_idle (s := ({}, {})) (n := 0) rfl rfl h
  rw [Nat.zero_add] at hstartup
  obtain ⟨hw, hc⟩ := Prod.ext_iff.mp hstartup
  rcases Nat.lt_or_ge 24203 is.length with hlt | hle
  · rw [List.length_take_of_le (Nat.le_of_lt hlt), Startup.watchedAfter_loadingMode] at hw hc
    obtain ⟨e, rest, hrest⟩ := List.exists_cons_of_length_pos (l := is.drop 24203) (by simp; omega)
    rw [← List.take_append_drop 24203 is, run_append, hrest]
    exact safe_of_loadingMode hw hc hlen e rest
  · rw [List.take_of_length_le hle] at h
    have hquiet := Startup.quiet_after (n := is.length) (by omega)
    rw [← (startup_powerUp h).1, ← run_watched ({}, {})] at hquiet
    refine ⟨fun hp => absurd hp hquiet.1, fun h1 => ?_⟩
    exact absurd (hquiet.2.symm.trans h1) (by decide)

theorem idle_take (n : ℕ) (is : List Edge) :
    Idle {} ((List.replicate n loading ++ is).take n) := by
  rw [List.take_left' List.length_replicate]
  exact idle_loading {} n

theorem load_mode_first_offering :
    (run watched ({}, {}) (List.replicate 24203 loading ++ List.replicate 40 offering)).1.Safe
      (run watched ({}, {}) (List.replicate 24203 loading ++ List.replicate 40 offering)).2.core :=
  load_mode_first _ (idle_take 24203 _)

/-- The wait of the initialisation, while the host loads. -/
theorem watched_loading (n : ℕ) (hn : n + 2 ≤ 24000) :
    run watched ({}, {}) (List.replicate (n + 2) loading) =
      ({}, held (BitVec.ofNat 16 (n + 2))) := by
  obtain ⟨hstartup, -⟩ := watched_idle (s := ({}, {})) (n := 0) rfl rfl (idle_loading {} (n + 2))
  rw [List.length_replicate, Nat.zero_add, Startup.watchedAfter_eq_held n hn] at hstartup
  refine Prod.ext (Prod.ext_iff.mp hstartup).1 ?_
  rw [run_watched]
  exact run_loading n hn

/-- A word that comes when `INIT_PER` edges have passed is written before the initialisation:
`ACTIVATE` is on the pins seven edges later. -/
theorem early_write :
    ¬(run watched ({}, {}) (List.replicate 24000 loading ++ List.replicate 7 offering)).1.Safe
      (run watched ({}, {})
        (List.replicate 24000 loading ++ List.replicate 7 offering)).2.core := by
  have hwait := watched_loading 23998 (by decide)
  rw [run_append, hwait]
  decide +kernel

end Controller

end TetrisFpga.Sdram
