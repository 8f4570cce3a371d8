import TetrisFpga.Machine.Trace
import TetrisFpga.Sdram.LoadMode

/-!
# What holds the command block back

`ex_read` and `ex_write` hold the command block back until `PM_STOP` has come, and `PM_STOP` is
not seen in the cycle in which the command delay expires. In a run in which the two never meet
the command block accepts again and again; if they meet it is wedged four cycles later.

## Main results

- `Controller.wedged_of_masked`: a `PM_STOP` that is masked wedges the command block
- `Controller.accepts_again`: without one it always comes back
-/

namespace TetrisFpga.Sdram
open Machine

namespace Command

/-- The cycle in which the command delay ends. -/
def expires (r : Command) : Bool := r.commandDone && !r.commandDelay.getLsbD 0

/-- `ex_read` or `ex_write`. -/
def transfers (r : Command) : Bool := r.exRead || r.exWrite

/-- The command block takes what is requested: a refresh, else `READA` or `WRITEA`. -/
def Accepts (r : Command) : Prop := ∀ (ci : ControlInterface) pmStop, ci.initReq = false →
  (r.next ci pmStop).doRefresh = (ci.refReq || ci.refresh) ∧
    (r.next ci pmStop).doReada = (ci.reada && !ci.refReq) ∧
    (r.next ci pmStop).doWritea = (ci.writea && !ci.refReq)

end Command

namespace Core

/-- `PM_STOP` comes when the command block does not see it. -/
def Masked (c : Core) : Prop :=
  c.ctl.pmStop = true ∧ c.cmd.transfers = true ∧ c.cmd.expires = true

/-- The transaction is over, and still holds the command block back. -/
def Wedged (c : Core) : Prop :=
  c.cmd.rpDone = true ∧ c.cmd.transfers = true ∧ c.ctl.st = 0

instance (c : Core) : Decidable c.Masked := inferInstanceAs (Decidable (_ ∧ _))

instance (c : Core) : Decidable c.Wedged := inferInstanceAs (Decidable (_ ∧ _))

/-- `READA` or `WRITEA`. -/
def asks (c : Core) : Op → Bool
  | .read => c.ci.reada
  | .write => c.ci.writea

end Core

/-! ## One edge of the command block -/

namespace Command

variable {r : Command} {ci : ControlInterface} {pmStop : Bool}

/-- `do_reada` or `do_writea`. -/
def does (r : Command) : Op → Bool
  | .read => r.doReada
  | .write => r.doWritea

def takes (r : Command) : Bool := r.does .read || r.does .write

/-- Nothing is being done, and no delay is running. -/
def free (r : Command) : Bool :=
  !r.takes && !r.doRefresh && !r.doPrecharge && !r.doLoadMode && !r.commandDone && !r.rpDone

theorem accepts_of_free (h : r.free = true) : r.Accepts := by
  intro ci pmStop hinit
  simp only [free, takes, does, next] at h ⊢
  grind

theorem takes_next (h : (r.next ci pmStop).takes = true) : ci.refReq = false ∧
    r.commandDone = false ∧ r.rpDone = false := by
  simp only [takes, does, next] at h
  grind

theorem reada_of_doReada (h : (r.next ci pmStop).doReada = true) :
    ci.reada = true ∧ r.doReada = false := by
  simp only [next] at h
  grind

theorem writea_of_doWritea (h : (r.next ci pmStop).doWritea = true) :
    ci.writea = true ∧ r.doWritea = false := by
  simp only [next] at h
  grind

theorem doRefresh_of_request (hreq : ci.refReq = false) (hrefresh : ci.refresh = false) :
    (r.next ci pmStop).doRefresh = false := by
  simp [next, hreq, hrefresh]

/-- What is taken holds the command block back. -/
theorem transfers_taken (h : (r.next ci pmStop).takes = true)
    (hstop : r.transfers = true → pmStop = false) : (r.next ci pmStop).transfers = true := by
  simp only [takes, does, transfers, next] at h hstop ⊢
  grind

/-- What holds the command block back afterwards. -/
theorem transfers_next (h : (r.next ci pmStop).transfers = true) :
    ci.initReq = false ∧ ((r.next ci pmStop).takes = true ∨ r.transfers = true) ∧
      (r.transfers = true → pmStop = true → r.expires = true) := by
  simp only [takes, does, transfers, next, expires] at h ⊢
  grind

/-- Without `PM_STOP`, or if it is masked, the command block stays held back. -/
theorem transfers_kept (hinit : ci.initReq = false) (h : r.transfers = true)
    (hstop : pmStop = true → r.expires = true) : (r.next ci pmStop).transfers = true := by
  simp only [transfers, next, expires] at h hstop ⊢
  grind

theorem rpDone_kept (hinit : ci.initReq = false) (h : r.transfers = true)
    (hrp : r.rpDone = true ∨ r.expires = true) (hstop : pmStop = true → r.expires = true) :
    (r.next ci pmStop).rpDone = true := by
  simp only [transfers, next, expires] at h hrp hstop ⊢
  grind

/-- The command that was taken is acknowledged. -/
theorem cmAck_next (h : r.takes = true) (hrefresh : (r.doRefresh && ci.refReq) = false) :
    (r.next ci pmStop).cmAck = true := by
  simp only [takes, does, next, hrefresh] at h ⊢
  grind

end Command

namespace Motion

/-- A transaction up to its `PM_STOP`. -/
def Open (len : ℕ) : Motion → Prop
  | waiting _ => True
  | moving _ st => st ≤ len + 4
  | _ => False

end Motion

/-! ## The initialisation in any run -/

namespace Controller

/-- The controller after `n` edges. -/
def after (e : ℕ → Edge) (n : ℕ) : Controller := follow edge {} e n

variable {e : ℕ → Edge} {n : ℕ}

theorem after_succ (e : ℕ → Edge) (n : ℕ) : after e (n + 1) = (after e n).edge (e n) := rfl

theorem exists_at_after (e : ℕ → Edge) (n : ℕ) : ∃ m, (after e n).At m := by
  induction n with
  | zero => exact ⟨_, at_powerUp⟩
  | succ n ih =>
    obtain ⟨m, hm⟩ := ih
    exact ⟨_, hm.edge (e n)⟩

theorem ofNat_lt {k : ℕ} (hk : k ≤ 24201) (t : BitVec 16) :
    BitVec.ofNat 16 k < t ↔ k < t.toNat := by
  rw [BitVec.lt_def, BitVec.toNat_ofNat, Nat.mod_eq_of_lt (by omega)]

/-- `init_timer` counts whatever the host does. -/
theorem initTimer_after (e : ℕ → Edge) (n : ℕ) :
    (after e n).initTimer = BitVec.ofNat 16 (min n 24201) := by
  induction n with
  | zero => rfl
  | succ n ih =>
    show nextInitTimer (after e n).initTimer = _
    rw [ih]
    rcases Nat.lt_or_ge n 24201 with hn | hn
    · rw [Nat.min_eq_left (by omega), Nat.min_eq_left (by omega), nextInitTimer,
        if_pos ((ofNat_lt (by omega) _).mpr hn), BitVec.ofNat_add]
      rfl
    · rw [Nat.min_eq_right hn, Nat.min_eq_right (by omega)]
      rfl

theorem initReq_succ (e : ℕ → Edge) (n : ℕ) :
    (after e (n + 1)).core.ci.initReq = decide (n < 24000) := by
  show decide ((after e n).initTimer < initPer) = _
  rw [initTimer_after, decide_eq_decide, ofNat_lt (by omega)]
  show min n 24201 < 24000 ↔ _
  omega

theorem initReq_late (hn : 24001 ≤ n) : (after e n).core.ci.initReq = false := by
  obtain ⟨n, rfl⟩ := Nat.exists_eq_add_of_lt (Nat.lt_of_lt_of_le (by decide : 0 < 24001) hn)
  rw [initReq_succ]
  exact decide_eq_false (by omega)

/-- The refresh timer does not ask for a refresh before the initialisation is over. -/
theorem refReq_initialising (e : ℕ → Edge) (n : ℕ) (hn : n ≤ 24200) :
    (after e (n + 2)).core.ci.refReq = false ∧ (after e (n + 2)).core.cmd.refAck = false ∧
      (after e (n + 2)).timer = BitVec.ofNat 16 (1224 - (n - 23999)) := by
  induction n with
  | zero => exact ⟨rfl, rfl, rfl⟩
  | succ n ih =>
    obtain ⟨hreq, hack, htimer⟩ := ih (by omega)
    obtain ⟨t, ht⟩ : ∃ t, 1224 - (n - 23999) = t + 1 := ⟨1224 - (n - 23999) - 1, by omega⟩
    rw [ht] at htimer
    refine ⟨?_, ?_, ?_⟩
    · have hne : ((after e (n + 2)).timer == 0) = false := by
        rw [htimer, beq_eq_false_iff_ne, Ne, ← BitVec.toNat_inj, BitVec.toNat_ofNat]
        show ¬(t + 1) % 65536 = 0
        omega
      show ((after e (n + 2)).timer == 0 || (_ && (after e (n + 2)).core.ci.refReq)) = false
      rw [hne, hreq, Bool.and_false, Bool.or_false]
    · show (((after e (n + 2)).core.cmd.doRefresh && (after e (n + 2)).core.ci.refReq) ||
        (_ && (after e (n + 2)).core.cmd.refAck)) = false
      rw [hreq, hack, Bool.and_false, Bool.and_false, Bool.or_false]
    · show nextTimer (after e (n + 2)).core.cmd.refAck (after e (n + 2)).core.ci.initReq
        (after e (n + 2)).timer = _
      rw [hack, initReq_succ, htimer]
      rcases Nat.lt_or_ge (n + 1) 24000 with hlt | hge
      · rw [decide_eq_true hlt, Nat.sub_eq_zero_of_le (by omega : n + 1 ≤ 23999)]
        rfl
      · have ht' : 1224 - (n + 1 - 23999) = t := by
          rw [Nat.sub_add_comm (by omega : 23999 ≤ n)]
          omega
        rw [decide_eq_false (Nat.not_lt.mpr hge), ht']
        show BitVec.ofNat 16 (t + 1) - 1 = _
        rw [BitVec.ofNat_add]
        exact BitVec.add_sub_cancel ..

/-- `control_interface` after the initialisation. -/
theorem requests_late (e : ℕ → Edge) (n : ℕ) (hn : 24201 ≤ n) :
    (after e (n + 1)).core.ci.initReq = false ∧ (after e (n + 1)).core.ci.refresh = false ∧
      (after e (n + 1)).core.ci.precharge = false ∧
      (after e (n + 1)).core.ci.loadMode = false := by
  have ht : (after e n).initTimer = initPer + 201 := by
    rw [initTimer_after, Nat.min_eq_right hn]
    rfl
  refine ⟨initReq_late (by omega), ?_, ?_, ?_⟩
  · show initRefreshes.contains (after e n).initTimer = false
    rw [ht]
    decide
  · show ((after e n).initTimer == initPer + 20) = false
    rw [ht]
    decide
  · show ((after e n).initTimer == initPer + 200) = false
    rw [ht]
    decide

theorem initialised_late (hn : 24204 ≤ n) : (after e n).core.Initialised := by
  obtain ⟨n, rfl⟩ : ∃ k, n = k + 3 := ⟨n - 3, by omega⟩
  obtain ⟨hinit'', -, -, -⟩ := requests_late e n (by omega)
  obtain ⟨hinit', hrefresh', hprecharge', hloadMode'⟩ := requests_late e (n + 1) (by omega)
  obtain ⟨hinit, hrefresh, hprecharge, hloadMode⟩ := requests_late e (n + 2) (by omega)
  have hcmd : (after e (n + 3)).core.cmd =
      (after e (n + 2)).core.cmd.next (after e (n + 2)).core.ci (after e (n + 2)).core.ctl.pmStop :=
    rfl
  exact {
    initReq := hinit
    refresh := hrefresh
    precharge := hprecharge
    loadMode := hloadMode
    doPrecharge := by simp [hcmd, Command.next, hprecharge']
    doLoadMode := by simp [hcmd, Command.next, hloadMode']
    refReq := Core.refReq_of_doRefresh hinit' hrefresh' (Command.commandDone_of_refAck hinit'')
    refAck := Command.commandDone_of_refAck hinit' }

/-- No transaction is taken together with a refresh that the refresh timer asked for. -/
theorem refresh_of_takes (e : ℕ → Edge) (n : ℕ) (h : (after e n).core.cmd.takes = true) :
    ((after e n).core.cmd.doRefresh && (after e n).core.ci.refReq) = false := by
  match n with
  | 0 => rfl
  | 1 => cases h
  | n + 2 =>
    rcases Nat.lt_or_ge n 24201 with hlt | hge
    · rw [(refReq_initialising e n (by omega)).1, Bool.and_false]
    · -- A refresh would have been asked for when the transaction was taken.
      have hrefresh := (requests_late e n hge).2.1
      obtain ⟨hreq, -⟩ := Command.takes_next h
      have hdo : (after e (n + 2)).core.cmd.doRefresh = false :=
        Command.doRefresh_of_request hreq hrefresh
      rw [hdo, Bool.false_and]

/-! ## Requests and motions -/

variable {c : Controller} {m : Motion} {o : Op}

theorem At.st_toNat (h : c.At m) : c.core.ctl.st.toNat = m.st := by
  rw [h.ctl]
  exact (BitVec.toNat_ofNat ..).trans (Nat.mod_eq_of_lt h.within.st_lt)

theorem At.pmStop (h : c.At m) :
    c.core.ctl.pmStop = true ↔ ∃ o, m = .moving o (c.path.mLength.toNat + 4) := by
  rw [h.ctl]
  obtain _ | _ | _ | ⟨o, st⟩ | _ := m
  all_goals simp [Motion.ctl]

theorem At.asks_edge (h : c.At m) {i : Edge} (ha : (c.edge i).core.asks o = true) :
    m = .waiting o := by
  have hcode : c.core.ctl.cmd = o.code := by
    cases o
    · exact (by decide : ∀ x : BitVec 2, (x.setWidth 3 == (2 : BitVec 3)) = true → x = 2) _ ha
    · exact (by decide : ∀ x : BitVec 2, (x.setWidth 3 == (1 : BitVec 3)) = true → x = 1) _ ha
  rw [h.ctl] at hcode
  cases m with
  | waiting o' => cases o <;> cases o' <;> first | rfl | cases hcode
  | _ => cases o <;> cases hcode

/-- The requests that are seen belong to the motion, and what is taken holds the command block
back. -/
structure Asking (c : Controller) (m : Motion) : Prop where
  motion : c.At m
  asks : ∀ o, c.core.asks o = true → m = .waiting o ∨ m = .moving o 2
  taken : c.core.cmd.takes = true → c.core.cmd.transfers = true

theorem asking_powerUp : Asking {} .idle where
  motion := at_powerUp
  asks o ha := by cases o <;> cases ha
  taken ht := by cases ht

/-- What is taken was asked for. -/
theorem exists_asks {i : Edge} (h : (c.edge i).core.cmd.takes = true) :
    ∃ o, c.core.asks o = true ∧ (c.edge i).core.cmd.does o = true := by
  rcases Bool.or_eq_true_iff.mp h with hr | hw
  · exact ⟨.read, (Command.reada_of_doReada hr).1, hr⟩
  · exact ⟨.write, (Command.writea_of_doWritea hw).1, hw⟩

theorem Asking.edge (h : Asking c m) (i : Edge) :
    Asking (c.edge i) (m.next c.path.mLength.toNat c.core.ci.cmdAck (c.starts i)) where
  motion := h.motion.edge i
  asks o ha := by
    obtain rfl := h.motion.asks_edge ha
    cases hack : c.core.ci.cmdAck
    · exact .inl rfl
    · exact .inr rfl
  taken ht := by
    refine Command.transfers_taken ht fun _ => ?_
    rw [Bool.eq_false_iff]
    intro hstop
    obtain ⟨o, hm⟩ := h.motion.pmStop.mp hstop
    obtain ⟨o', ho', -⟩ := exists_asks ht
    rcases h.asks o' ho' with rfl | rfl <;> simp at hm

/-- While no `PM_STOP` is masked: only a transaction that waits for it holds the command block
back, and it is acknowledged. -/
structure Answering (c : Controller) (m : Motion) : Prop extends Asking c m where
  held : c.core.cmd.transfers = true → m.Open c.path.mLength.toNat
  acks : c.core.cmd.transfers = true → m.st = 1 →
    c.core.cmd.takes = true ∨ c.core.cmd.cmAck = true ∨ c.core.ci.cmdAck = true

theorem answering_powerUp : Answering {} .idle where
  toAsking := asking_powerUp
  held ht := by cases ht
  acks ht := by cases ht

theorem Asking.open_next (h : Asking c m) {i : Edge} (ht : (c.edge i).core.cmd.takes = true) :
    (m.next c.path.mLength.toNat c.core.ci.cmdAck (c.starts i)).Open
      (c.edge i).path.mLength.toNat := by
  obtain ⟨o, ho, -⟩ := exists_asks ht
  rcases h.asks o ho with rfl | rfl
  · cases c.core.ci.cmdAck
    · trivial
    · exact (by omega : 2 ≤ _ + 4)
  · obtain ⟨h1, -, -⟩ := h.motion.within
    rw [h.motion.length_edge nofun, Motion.next_moving (by omega)]
    exact (by omega : 3 ≤ _ + 4)

theorem Answering.edge (h : Answering c m) (hmask : ¬c.core.Masked)
    (hrefresh : c.core.cmd.takes = true → (c.core.cmd.doRefresh && c.core.ci.refReq) = false)
    (i : Edge) :
    Answering (c.edge i) (m.next c.path.mLength.toNat c.core.ci.cmdAck (c.starts i)) where
  toAsking := h.toAsking.edge i
  held ht := by
    obtain ⟨-, htaken | hold, hstop⟩ := Command.transfers_next ht
    · exact h.open_next htaken
    · have hopen := h.held hold
      cases m with
      | waiting o =>
        cases c.core.ci.cmdAck
        · trivial
        · exact (by omega : 2 ≤ _ + 4)
      | moving o st =>
        have hst : st ≤ c.path.mLength.toNat + 4 := hopen
        have hne : st ≠ c.path.mLength.toNat + 4 := by
          rintro rfl
          -- the `PM_STOP` of this state is not masked, so it ends the hold
          have hpm := h.motion.pmStop.mpr ⟨o, rfl⟩
          exact hmask ⟨hpm, hold, hstop hold hpm⟩
        rw [h.motion.length_edge nofun, Motion.next_moving (by omega)]
        show st + 1 ≤ c.path.mLength.toNat + 4
        omega
      | _ => exact hopen.elim
  acks ht hst := by
    obtain ⟨-, htaken | hold, -⟩ := Command.transfers_next ht
    · exact .inl htaken
    · have hopen := h.held hold
      cases m with
      | waiting o =>
        cases hack : c.core.ci.cmdAck
        · right
          -- the acknowledge goes from `CM_ACK` to `CMDACK` in two cycles
          rcases h.acks hold rfl with htakes | hcm | hcmd
          · exact .inl (Command.cmAck_next htakes (hrefresh htakes))
          · right
            show (c.core.cmd.cmAck && !c.core.ci.cmdAck) = true
            rw [hcm, hack]
            rfl
          · rw [hack] at hcmd
            cases hcmd
        · rw [hack] at hst
          cases hst
      | moving o st =>
        obtain ⟨-, h2, -⟩ := h.motion.within
        simp only [Motion.next] at hst
        split at hst
        · exact absurd (Nat.succ.inj hst) (by omega)
        · cases o <;> cases hst
      | _ => exact hopen.elim

theorem answering_after (h : ∀ n, ¬(after e n).core.Masked) (n : ℕ) :
    ∃ m, Answering (after e n) m := by
  induction n with
  | zero => exact ⟨_, answering_powerUp⟩
  | succ n ih =>
    obtain ⟨m, hm⟩ := ih
    exact ⟨_, hm.edge (h n) (refresh_of_takes e n) (e n)⟩

/-- If no `PM_STOP` is masked the command block does not wedge. -/
theorem Answering.not_wedged (h : Answering c m) : ¬c.core.Wedged := by
  rintro ⟨-, htr, hst⟩
  have hopen := h.held htr
  have h0 : m.st = 0 := h.motion.st_toNat.symm.trans (congrArg BitVec.toNat hst)
  cases m with
  | waiting o => cases h0
  | moving o st =>
    obtain ⟨-, h2, -⟩ := h.motion.within
    exact absurd h0 (by simp only [Motion.st]; omega)
  | _ => exact hopen

/-! ## A stop that is masked -/

theorem late_of_transfers (h : (after e n).core.cmd.transfers = true) : 24001 ≤ n := by
  match n with
  | 0 => cases h
  | 1 => cases h
  | n + 2 =>
    have hinit : (after e (n + 1)).core.ci.initReq = false := (Command.transfers_next h).1
    rw [initReq_succ, decide_eq_false_iff_not] at hinit
    omega

/-- After its `PM_STOP` a transaction holds the command block back for good. -/
theorem At.stuck {st : ℕ} (h : c.At (.moving o st)) (hst : c.path.mLength.toNat + 4 < st)
    (hinit : c.core.ci.initReq = false) (htr : c.core.cmd.transfers = true)
    (hrp : c.core.cmd.rpDone = true) (i : Edge) :
    (c.edge i).core.cmd.transfers = true ∧ (c.edge i).core.cmd.rpDone = true := by
  have hstop : c.core.ctl.pmStop = true → c.core.cmd.expires = true := by
    intro hpm
    obtain ⟨o', ho'⟩ := h.pmStop.mp hpm
    rw [Motion.moving.injEq] at ho'
    omega
  exact ⟨Command.transfers_kept hinit htr hstop, Command.rpDone_kept hinit htr (.inl hrp) hstop⟩

/-- The cycles up to the end of the transaction. -/
theorem stuck_after {len : ℕ} (hlen : (after e n).path.mLength.toNat = len)
    (hm : (after e n).At (.moving o (len + 4))) (h : (after e n).core.Masked) (k : ℕ)
    (hk : k ≤ 2) :
    (after e (n + 1 + k)).At (.moving o (len + 5 + k)) ∧
      (after e (n + 1 + k)).path.mLength.toNat = len ∧
      (after e (n + 1 + k)).core.cmd.transfers = true ∧
      (after e (n + 1 + k)).core.cmd.rpDone = true := by
  have hlate := late_of_transfers h.2.1
  induction k with
  | zero =>
    obtain ⟨-, htr, hexp⟩ := h
    have hnext := hm.edge (e n)
    rw [hlen, Motion.next_moving (by omega)] at hnext
    exact ⟨hnext, (congrArg BitVec.toNat (hm.length_edge nofun _)).trans hlen,
      Command.transfers_kept (initReq_late hlate) htr fun _ => hexp,
      Command.rpDone_kept (initReq_late hlate) htr (.inr hexp) fun _ => hexp⟩
  | succ k ih =>
    obtain ⟨hm, hlen, htr, hrp⟩ := ih (by omega)
    have hnext := hm.edge (e (n + 1 + k))
    rw [hlen, Motion.next_moving (by omega)] at hnext
    exact ⟨hnext, (congrArg BitVec.toNat (hm.length_edge nofun _)).trans hlen,
      hm.stuck (by omega) (initReq_late (by omega)) htr hrp _⟩

/-- Four cycles after a `PM_STOP` that is masked the command block is wedged. -/
theorem wedged_of_masked (h : (after e n).core.Masked) : (after e (n + 4)).core.Wedged := by
  obtain ⟨m, hm⟩ := exists_at_after e n
  obtain ⟨o, rfl⟩ := hm.pmStop.mp h.1
  have hlate := late_of_transfers h.2.1
  generalize hn : (after e n).path.mLength.toNat = len at hm
  obtain ⟨hm, hlen, htr, hrp⟩ := stuck_after hn hm h 2 (Nat.le_refl 2)
  obtain ⟨htr, hrp⟩ := hm.stuck (by omega) (initReq_late (by omega)) htr hrp (e (n + 3))
  have hnext := hm.edge (e (n + 3))
  have hend : ¬(len + 5 + 2 < len + 7) := Nat.lt_irrefl _
  simp only [hlen, Motion.next, if_neg hend] at hnext
  refine ⟨hrp, htr, (congrArg SdramControl.st hnext.ctl).trans ?_⟩
  cases o <;> rfl

end Controller

/-! ## The way back -/

namespace Command

variable {r : Command} {ci : ControlInterface} {pmStop : Bool}

/-- Gets smaller while the delays run. -/
def debt (r : Command) : ℕ :=
  40 * r.commandDelay.toNat + (if r.commandDone then 20 else 0) +
    if r.rpDone then 1 + r.rpShift.toNat else 0

theorem debt_lt (r : Command) : r.debt < 11000 := by
  have hdelay := r.commandDelay.isLt
  have hshift := r.rpShift.isLt
  unfold debt
  split <;> split <;> omega

theorem debt_next (hinit : ci.initReq = false) (htakes : r.takes = false)
    (hrefresh : r.doRefresh = false) (hprecharge : r.doPrecharge = false)
    (hload : r.doLoadMode = false) (htr : r.transfers = false)
    (h : r.commandDone = true ∨ r.rpDone = true) : (r.next ci pmStop).debt < r.debt := by
  simp only [takes, does, transfers, Bool.or_eq_false_iff] at htakes htr
  have hhalf {w : ℕ} (x : BitVec w) : (x >>> 1).toNat = x.toNat / 2 := by
    rw [BitVec.toNat_ushiftRight, Nat.shiftRight_eq_div_pow]
  have hodd {w : ℕ} (x : BitVec w) (hx : x.getLsbD 0 = true) : 1 ≤ x.toNat := by
    have hmod : x.toNat % 2 = 1 := of_decide_eq_true ((Nat.testBit_zero _).symm.trans hx)
    omega
  have hdelay := hodd r.commandDelay
  have hshift := hodd r.rpShift
  have hlt := r.rpShift.isLt
  simp only [debt, next, hinit, htakes, htr, hrefresh, hprecharge, hload]
  -- The delays halve, and one that reaches 0 starts the next.
  cases hd : r.commandDelay.getLsbD 0 <;> cases hs : r.rpShift.getLsbD 0 <;>
    cases hdone : r.commandDone <;> cases hrp : r.rpDone <;>
    simp [hdone, hrp, hhalf] at h ⊢ <;> grind

end Command

/-- Gets smaller until the command block accepts: the rest of a transaction, and the delays. -/
def Core.debt (c : Core) : ℕ :=
  if c.cmd.transfers then
    if c.ctl.st = 1 then 22000 + if c.ci.cmdAck then 0 else if c.cmd.cmAck then 1 else 2
    else 21024 - c.ctl.st.toNat
  else if c.cmd.doRefresh then 15000 else c.cmd.debt

namespace Controller

variable {e : ℕ → Edge} {n : ℕ} {c : Controller} {m : Motion}

theorem debt_of_transfers (h : c.core.cmd.transfers = true) : 20000 ≤ c.core.debt := by
  have hst := c.core.ctl.st.isLt
  rw [Core.debt, if_pos h]
  split <;> omega

theorem debt_lt (h : c.core.cmd.transfers = false) : c.core.debt < 20000 := by
  have hcmd := c.core.cmd.debt_lt
  rw [Core.debt, if_neg (by rw [h]; nofun)]
  split <;> omega

theorem debt_waiting {o : Op} (h : c.At (.waiting o)) (ht : c.core.cmd.transfers = true) :
    c.core.debt = 22000 + if c.core.ci.cmdAck then 0 else if c.core.cmd.cmAck then 1 else 2 := by
  rw [Core.debt, if_pos ht, if_pos (BitVec.eq_of_toNat_eq h.st_toNat)]

theorem debt_moving {o : Op} {st : ℕ} (h : c.At (.moving o st))
    (ht : c.core.cmd.transfers = true) : c.core.debt = 21024 - st := by
  obtain ⟨-, h2, -⟩ := h.within
  have hst : c.core.ctl.st.toNat = st := h.st_toNat
  have hne : c.core.ctl.st ≠ 1 := by
    intro h1
    rw [h1] at hst
    exact absurd hst (Nat.ne_of_lt h2)
  rw [Core.debt, if_pos ht, if_neg hne, hst]

/-- A transaction that holds the command block back goes on. -/
theorem Answering.debt_next_of_transfers (h : Answering c m) {i : Edge} {m' : Motion}
    (hm' : m' = m.next c.path.mLength.toNat c.core.ci.cmdAck (c.starts i))
    (h' : Answering (c.edge i) m')
    (hrefresh : c.core.cmd.takes = true → (c.core.cmd.doRefresh && c.core.ci.refReq) = false)
    (ht : c.core.cmd.transfers = true) : (c.edge i).core.debt < c.core.debt := by
  cases ht' : (c.edge i).core.cmd.transfers with
  | false => exact Nat.lt_of_lt_of_le (debt_lt ht') (debt_of_transfers ht)
  | true =>
    have hopen := h.held ht
    cases m with
    | waiting o =>
      rw [debt_waiting h.motion ht]
      cases hack : c.core.ci.cmdAck with
      | true =>
        rw [hack] at hm'
        rw [debt_moving (hm' ▸ h'.motion) ht']
        omega
      | false =>
        rw [hack] at hm'
        rw [debt_waiting (hm' ▸ h'.motion) ht']
        have hcmdAck : (c.edge i).core.ci.cmdAck = (c.core.cmd.cmAck && !c.core.ci.cmdAck) := rfl
        have hcmAck (htakes : c.core.cmd.takes = true) : (c.edge i).core.cmd.cmAck = true :=
          Command.cmAck_next htakes (hrefresh htakes)
        have hacks := h.acks ht rfl
        rw [hcmdAck, hack]
        grind
    | moving o st =>
      have hst : st ≤ c.path.mLength.toNat + 4 := hopen
      have hlt := c.path.mLength.isLt
      rw [Motion.next_moving (by omega)] at hm'
      rw [debt_moving h.motion ht, debt_moving (hm' ▸ h'.motion) ht']
      omega
    | _ => exact hopen.elim

/-- Without one the delays run. -/
theorem Asking.debt_next (h : Asking c m) (hc : c.core.Initialised) {i : Edge}
    (hfree : c.core.cmd.free = false) (ht : c.core.cmd.transfers = false) :
    (c.edge i).core.debt < c.core.debt := by
  have htakes : c.core.cmd.takes = false := by
    cases hq : c.core.cmd.takes with
    | false => rfl
    | true => exact absurd (h.taken hq) (by rw [ht]; nofun)
  have hfree' : c.core.cmd.doRefresh = true ∨ c.core.cmd.commandDone = true ∨
      c.core.cmd.rpDone = true := by
    simp only [Command.free, htakes, hc.doPrecharge, hc.doLoadMode] at hfree
    grind
  have htakes' : (c.edge i).core.cmd.takes = false := by
    rw [Bool.eq_false_iff]
    intro hq
    obtain ⟨hreq, hdone, hrp⟩ := Command.takes_next hq
    have hrefReq := hc.refReq
    grind
  have ht' : (c.edge i).core.cmd.transfers = false := by
    rw [Bool.eq_false_iff]
    intro hq
    obtain ⟨-, hq | hq, -⟩ := Command.transfers_next hq
    · exact Bool.eq_false_iff.mp htakes' hq
    · exact Bool.eq_false_iff.mp ht hq
  have hrefresh' : (c.edge i).core.cmd.doRefresh = false := by
    show (c.core.cmd.next c.core.ci c.core.ctl.pmStop).doRefresh = false
    simp only [Command.next]
    grind
  rw [Core.debt, ht', hrefresh', Core.debt, ht]
  cases hrefresh : c.core.cmd.doRefresh with
  | true => exact Nat.lt_trans (Command.debt_lt _) (by decide : 11000 < 15000)
  | false =>
    rw [hrefresh] at hfree'
    exact Command.debt_next hc.initReq htakes hrefresh hc.doPrecharge hc.doLoadMode ht
      (hfree'.resolve_left nofun)

/-- If no `PM_STOP` is masked the command block accepts again and again. -/
theorem accepts_again (h : ∀ n, ¬(after e n).core.Masked) (n : ℕ) :
    ∃ k, n ≤ k ∧ (after e k).core.cmd.Accepts := by
  refine recurs_of_rank (fun n => (after e n).core.debt) (fun n (hn : 24204 ≤ n) hacc => ?_) n
  obtain ⟨m, hm⟩ := answering_after h n
  have hfree : (after e n).core.cmd.free = false := by
    rw [Bool.eq_false_iff]
    exact fun hq => hacc (Command.accepts_of_free hq)
  cases ht : (after e n).core.cmd.transfers with
  | true =>
    exact hm.debt_next_of_transfers rfl (hm.edge (h n) (refresh_of_takes e n) (e n))
      (refresh_of_takes e n) ht
  | false => exact hm.debt_next (initialised_late hn) hfree ht

end Controller

end TetrisFpga.Sdram
