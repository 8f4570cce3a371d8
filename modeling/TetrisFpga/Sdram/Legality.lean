import TetrisFpga.Sdram.PowerUp
import TetrisFpga.Sdram.Transaction

/-!
# The commands are legal

With transfers of length 1, and with no transaction before the SDRAM has been initialised, the
commands on the pins keep the order and the distances that the SDRAM asks for: for every use of
the host side, and whenever the refresh timer runs out.
-/

namespace TetrisFpga.Sdram
open Machine

/-! ## What the SDRAM asks for -/

/-- Which banks have an open row, the bank that was activated last, and the number of cycles
since then. -/
structure Banks where
  active : BitVec 2 → Bool := fun _ => false
  last : BitVec 2 := 0
  age : ℕ := 0

namespace Banks

def idle (b : Banks) : Prop := ∀ bank, b.active bank = false

/-- A cycle with these commands on the pins. `SA[10]` asks for a precharge of all banks. -/
def next (b : Banks) (pins : Strobes) (ba : BitVec 2) (sa : BitVec 13) : Banks :=
  if pins = .activate then
    { active := fun bank => bank == ba || b.active bank, last := ba, age := 1 }
  else
    { b with
      active := fun bank => b.active bank &&
        !(pins == .prechargeBank && (sa.getLsbD 10 || bank == ba))
      age := b.age + 1 }

/-- The command on the pins is legal. -/
structure Legal (b : Banks) (pins : Strobes) (ba : BitVec 2) : Prop where
  known : pins ∈ [Strobes.nop, .activate, .read, .write, .prechargeBank, .autoRefresh]
  activate : pins = .activate → b.idle
  access : pins = .read ∨ pins = .write → ba = b.last ∧ b.active ba = true ∧ b.age = 3
  precharge : pins = .prechargeBank → ba = b.last
  refresh : pins = .autoRefresh → b.idle

section Legal

variable {b : Banks} {ba : BitVec 2} {sa : BitVec 13}

theorem legal_nop : b.Legal .nop ba := by
  constructor
  · decide
  all_goals exact fun h => absurd h (by decide)

theorem legal_activate (hb : b.idle) : b.Legal .activate ba := by
  constructor
  · decide
  · exact fun _ => hb
  all_goals exact fun h => absurd h (by decide)

theorem legal_access {pins : Strobes} (hp : pins = .read ∨ pins = .write) (hba : ba = b.last)
    (hactive : b.active ba = true) (hage : b.age = 3) : b.Legal pins ba := by
  obtain rfl | rfl := hp
  all_goals
    constructor
    · decide
    · exact fun h => absurd h (by decide)
    · exact fun _ => ⟨hba, hactive, hage⟩
    all_goals exact fun h => absurd h (by decide)

theorem legal_precharge (hba : ba = b.last) : b.Legal .prechargeBank ba := by
  constructor
  · decide
  · exact fun h => absurd h (by decide)
  · exact fun h => absurd h (by decide)
  · exact fun _ => hba
  · exact fun h => absurd h (by decide)

theorem legal_refresh (hb : b.idle) : b.Legal .autoRefresh ba := by
  constructor
  · decide
  · exact fun h => absurd h (by decide)
  · exact fun h => absurd h (by decide)
  · exact fun h => absurd h (by decide)
  · exact fun _ => hb

end Legal

theorem next_activate (b : Banks) (ba : BitVec 2) (sa : BitVec 13) : b.next .activate ba sa =
    { active := fun bank => bank == ba || b.active bank, last := ba, age := 1 } := if_pos rfl

theorem next_precharge (b : Banks) (ba : BitVec 2) (sa : BitVec 13) :
    b.next .prechargeBank ba sa =
      { b with
        active := fun bank => b.active bank && !(sa.getLsbD 10 || bank == ba)
        age := b.age + 1 } := rfl

/-- No other command opens or closes a row. -/
theorem next_of_ne {b : Banks} {pins : Strobes} (h1 : pins ≠ .activate)
    (h2 : pins ≠ .prechargeBank) (ba : BitVec 2) (sa : BitVec 13) :
    b.next pins ba sa = { b with age := b.age + 1 } := by
  rw [next, if_neg h1]
  congr 1
  funext bank
  rw [beq_false_of_ne h2]
  simp

theorem idle.next {b : Banks} (h : b.idle) {pins : Strobes} (hp : pins ≠ .activate)
    (ba : BitVec 2) (sa : BitVec 13) : (b.next pins ba sa).idle := by
  intro bank
  rw [Banks.next, if_neg hp]
  show (b.active bank && _) = false
  rw [h bank, Bool.false_and]

end Banks

/-! ## What the controller drives -/

namespace Controller

/-- The way of the bank towards the pins. -/
def BankAt (r : Path) : Phase → Prop
  | .rest (.issued _) _ _ _ | .rest (.waiting _) _ _ _ => r.saddr = r.mAddr
  | .run _ k _ _ => r.saddr = r.mAddr ∧ (1 ≤ k.val → r.iba = bankaddr r.mAddr) ∧
      (2 ≤ k.val → r.ba = bankaddr r.mAddr)
  | _ => True

/-- The controller in a phase. -/
structure Drives (c : Controller) (p : Phase) : Prop where
  core : c.core = p.core
  initTimer : c.initTimer = 24201
  length : c.path.mLength = 1 ∨ c.path.mLength = 0 ∧ p.untouched = true
  bank : BankAt c.path p

/-- The open rows in a phase: from the cycle after `ACTIVATE` up to `PRECHARGE`. -/
def BanksAt (b : Banks) (bank : BitVec 2) : Phase → Prop
  | .run _ k _ _ => if 3 ≤ k.val ∧ k.val ≤ 6 then
      (∀ x, b.active x = (x == bank)) ∧ b.last = bank ∧ b.age + 2 = k.val
    else b.idle
  | _ => b.idle

variable {c : Controller} {p : Phase} {b : Banks}

theorem Drives.legal (h : Drives c p) (hb : BanksAt b (bankaddr c.path.mAddr) p) :
    b.Legal c.core.ctl.strobes c.path.ba := by
  rw [h.core]
  cases p with
  | rest task block ref rw =>
    by_cases hblock : block = .refreshing 2
    · subst hblock
      exact Banks.legal_refresh hb
    · have hpins : (Phase.rest task block ref rw).core.ctl.strobes = .nop := if_neg hblock
      rw [hpins]
      exact Banks.legal_nop
  | run o k ref rw =>
    obtain ⟨k, hk⟩ := k
    match k, hk with
    | 2, _ => exact Banks.legal_activate hb
    | 5, _ =>
      obtain ⟨hactive, hlast, hage⟩ := hb
      have hba := h.bank.2.2 (show 2 ≤ 5 by decide)
      have hpins : (Phase.run o 5 ref rw).core.ctl.strobes = .read ∨
          (Phase.run o 5 ref rw).core.ctl.strobes = .write := by
        cases o
        · exact .inr rfl
        · exact .inl rfl
      refine Banks.legal_access hpins (hba.trans hlast.symm) ?_ (Nat.add_right_cancel hage)
      rw [hactive, hba]
      exact beq_self_eq_true _
    | 6, _ =>
      obtain ⟨-, hlast, -⟩ := hb
      exact Banks.legal_precharge ((h.bank.2.2 (show 2 ≤ 6 by decide)).trans hlast.symm)
    | 0, _ | 1, _ | 3, _ | 4, _ | 7, _ | 8, _ | 9, _ => exact Banks.legal_nop
  | readDone ref => exact Banks.legal_nop
  | ended o ref => exact Banks.legal_nop

theorem Drives.starts_eq_none (h : Drives c p) (hp : p.free ≠ true) (e : Edge) :
    c.starts e = none := by
  refine Decidable.not_not.mp fun hs => hp ?_
  rw [← p.core_free, ← h.core]
  exact starts_free hs

/-- One edge, which starts no transaction of another length than 1. -/
theorem Drives.edge (h : Drives c p) {e : Edge} (hone : ∀ o, c.starts e = some o → e.length o = 1) :
    Drives (c.edge e) (p.next (c.timer == 0) (c.starts e)) where
  core := by
    show c.core.next _ c.initTimer _ _ = _
    rw [h.core, h.initTimer]
    refine core_next p _ _ _ (fun hs => ?_) h.length
    rw [← p.core_free, ← h.core]
    exact starts_free hs
  initTimer := by
    show nextInitTimer c.initTimer = _
    rw [h.initTimer]
    rfl
  length := by
    have hlen : (c.edge e).path.mLength = _ := mLength_answered (c := c) (c.core.ci.cmdAck, e)
    rw [hlen]
    cases hs : c.starts e with
    | some o => exact .inl (hone o hs)
    | none => exact h.length.imp_right fun ⟨h0, hp⟩ => ⟨h0, p.untouched_next _ hp⟩
  bank := by
    have hsaddr (hp : p.free ≠ true) : (c.edge e).path.saddr = (c.edge e).path.mAddr :=
      (mAddr_edge (h.starts_eq_none hp e)).symm
    cases p with
    | rest task block ref rw =>
      obtain _ | o | o | o := task
      · generalize c.starts e = start
        cases start <;> trivial
      · exact hsaddr nofun
      · exact hsaddr nofun
      · obtain _ | n | n := block <;> cases ref
        · exact ⟨hsaddr nofun, nofun, nofun⟩
        all_goals exact hsaddr nofun
    | run o k ref rw =>
      -- during a transaction the bank stays the one of its address
      by_cases hk : k.val + 1 < 10
      · rw [Phase.next_run hk]
        have hmAddr := mAddr_edge (h.starts_eq_none (p := .run o k ref rw) nofun e)
        obtain ⟨hs, hiba, -⟩ := h.bank
        have hcmd : c.core.cmd.doPrecharge = false ∧ c.core.cmd.doLoadMode = false := by
          rw [h.core]
          exact ⟨rfl, rfl⟩
        refine ⟨hsaddr nofun, fun _ => ?_, fun h2 => ?_⟩
        · show nextIba c.core.cmd c.path.saddr = _
          rw [nextIba, hcmd.1, hcmd.2, hs, hmAddr]
          rfl
        · rw [hmAddr]
          exact hiba (Nat.le_of_succ_le_succ h2)
      · obtain rfl : k = 9 := Fin.ext (by have := k.isLt; omega)
        rw [Phase.next_run_last]
        cases o <;> trivial
    | readDone ref => trivial
    | ended o ref =>
      generalize c.starts e = start
      cases o <;> cases start <;> trivial

/-- The open rows after a cycle with the pins of the controller. -/
def bus (b : Banks) (c : Controller) : Banks := b.next c.core.ctl.strobes c.path.ba c.path.sa

/-- One cycle. -/
theorem Drives.banks_next (h : Drives c p) (hb : BanksAt b (bankaddr c.path.mAddr) p) (e : Edge) :
    BanksAt (bus b c) (bankaddr (c.edge e).path.mAddr) (p.next (c.timer == 0) (c.starts e)) := by
  rw [bus, h.core]
  cases p with
  | rest task block ref rw =>
    have hpins : (Phase.rest task block ref rw).core.ctl.strobes ≠ .activate := by
      by_cases hblock : block = .refreshing 2
      · subst hblock
        show Strobes.autoRefresh ≠ .activate
        decide
      · rw [show (Phase.rest task block ref rw).core.ctl.strobes = .nop from if_neg hblock]
        decide
    have hidle := Banks.idle.next hb hpins c.path.ba c.path.sa
    obtain _ | _ | _ | _ := task
    · exact hidle
    · exact hidle
    · exact hidle
    · obtain _ | _ | _ := block <;> cases ref <;> exact hidle
  | run o k ref rw =>
    rw [mAddr_edge (h.starts_eq_none nofun e)]
    have hquiet (hp : (Phase.run o k ref rw).core.ctl.strobes = .nop) :
        b.next (Phase.run o k ref rw).core.ctl.strobes c.path.ba c.path.sa =
          { b with age := b.age + 1 } := by
      rw [hp]
      exact Banks.next_of_ne (by decide) (by decide) _ _
    obtain ⟨k, hk⟩ := k
    match k, hk with
    | 0, _ | 1, _ | 7, _ | 8, _ =>
      rw [hquiet rfl]
      exact hb
    | 2, _ =>
      show BanksAt (b.next .activate _ _) _ _
      rw [Banks.next_activate, h.bank.2.2 (show 2 ≤ 2 by decide)]
      refine ⟨fun x => ?_, rfl, rfl⟩
      show (x == _ || b.active x) = _
      rw [hb x, Bool.or_false]
    | 3, _ | 4, _ =>
      rw [hquiet rfl]
      exact ⟨hb.1, hb.2.1, congrArg (· + 1) hb.2.2⟩
    | 5, h5 =>
      have hnext : b.next (Phase.run o ⟨5, h5⟩ ref rw).core.ctl.strobes c.path.ba c.path.sa =
          { b with age := b.age + 1 } := by
        cases o
        · show b.next .write _ _ = _
          exact Banks.next_of_ne (by decide) (by decide) _ _
        · show b.next .read _ _ = _
          exact Banks.next_of_ne (by decide) (by decide) _ _
      rw [hnext]
      exact ⟨hb.1, hb.2.1, congrArg (· + 1) hb.2.2⟩
    | 6, _ =>
      -- The precharge closes the bank that was activated, with `SA[10]` or without.
      show (b.next .prechargeBank _ _).idle
      intro x
      rw [Banks.next_precharge, h.bank.2.2 (show 2 ≤ 6 by decide)]
      show (b.active x && _) = false
      rw [hb.1 x]
      cases x == bankaddr c.path.mAddr <;> simp
    | 9, _ =>
      have hidle : (b.next .nop c.path.ba c.path.sa).idle := Banks.idle.next hb (by decide) _ _
      cases o <;> exact hidle
  | readDone ref =>
    have hidle : (b.next .nop c.path.ba c.path.sa).idle := Banks.idle.next hb (by decide) _ _
    exact hidle
  | ended o ref =>
    have hidle : (b.next .nop c.path.ba c.path.sa).idle := Banks.idle.next hb (by decide) _ _
    cases o <;> exact hidle

/-! ## Runs -/

/-- The controller and the rows that are open. -/
def bussed (s : Banks × Controller) (e : Edge) : Banks × Controller := (bus s.1 s.2, s.2.edge e)

/-- The controller is in a phase, and the rows are open that are open in it. -/
def Tidy (s : Banks × Controller) : Prop :=
  ∃ p, Drives s.2 p ∧ BanksAt s.1 (bankaddr s.2.path.mAddr) p

/-- The refresh timer stands somewhere else. -/
def realigned (s : Banks × Controller) (t : BitVec 16) : Banks × Controller :=
  (s.1, { s.2 with timer := t })

theorem Tidy.realigned {s : Banks × Controller} (h : Tidy s) (t : BitVec 16) :
    Tidy (realigned s t) := by
  obtain ⟨p, hp, hb⟩ := h
  exact ⟨p, ⟨hp.core, hp.initTimer, hp.length, hp.bank⟩, hb⟩

theorem Tidy.run {s : Banks × Controller} (h : Tidy s) {is : List Edge}
    (hone : Along edge (fun c e => ∀ o, c.starts e = some o → e.length o = 1) s.2 is) :
    Tidy (run bussed s is) := by
  induction is generalizing s with
  | nil => exact h
  | cons e is ih =>
    obtain ⟨p, hp, hb⟩ := h
    exact ih ⟨_, hp.edge hone.1, hp.banks_next hb e⟩ hone.2

/-- Before the first transaction no row is open. -/
theorem idle_bussed {s : Banks × Controller} {n : ℕ} {is : List Edge} (hb : s.1.idle)
    (hs : s.2.startup = .after n) (hlen : s.2.path.mLength = 0) (h : Idle s.2 is)
    (hn : n + is.length ≤ 24222) : (Machine.run bussed s is).1.idle := by
  induction is generalizing s n with
  | nil => exact hb
  | cons e is ih =>
    rw [List.length_cons] at hn
    obtain ⟨hnext, hlen⟩ := startup_edge hlen h.1
    rw [hs, ← Startup.after_succ] at hnext
    refine ih (s := bussed s e) (n := n + 1) ?_ hnext hlen h.2 (by omega)
    refine hb.next (fun hp => ?_) _ _
    have hquiet := Startup.quiet_after (n := n) (by omega)
    rw [← hs] at hquiet
    exact hquiet.1 (hp ▸ List.mem_cons_self)

theorem run_bussed (s : Banks × Controller) (is : List Edge) :
    (Machine.run bussed s is).2 = Machine.run edge s.2 is := by
  induction is generalizing s with
  | nil => rfl
  | cons e is ih => exact ih _

/-- The controller at rest after its initialisation. -/
theorem tidy_ready {init : List Edge} (h : Idle {} init) (hn : init.length = 24221) :
    Tidy (Machine.run bussed ({}, {}) init) := by
  have hidle := idle_bussed (s := ({}, {})) (n := 0) (fun _ => rfl) rfl rfl h (by omega)
  obtain ⟨hstartup, hlen⟩ := startup_powerUp h
  rw [hn, Startup.after_ready, ← run_bussed ({}, {})] at hstartup
  rw [← run_bussed ({}, {})] at hlen
  exact ⟨.rest .idle .free false false,
    ⟨congrArg Startup.core hstartup, congrArg Startup.initTimer hstartup, .inr ⟨hlen, rfl⟩,
      trivial⟩, hidle⟩

/-- The commands are legal, after an initialisation without transactions and 20 cycles more, for
every use of the host side, and wherever the refresh timer stands then. -/
theorem commands_legal (init is : List Edge) (t : BitVec 16) (hinit : Idle {} init)
    (h20 : 24221 ≤ init.length)
    (hone : ∀ e ∈ is, e.ports.wrLength = 1 ∧ e.ports.rdLength = 1) :
    let s := Machine.run bussed (realigned (Machine.run bussed ({}, {}) init) t) is
    s.1.Legal s.2.core.ctl.strobes s.2.path.ba := by
  rw [← List.take_append_drop 24221 init] at hinit ⊢
  obtain ⟨hfirst, hrest⟩ := along_append.mp hinit
  rw [← run_bussed ({}, {})] at hrest
  have hready := tidy_ready hfirst (List.length_take_of_le h20)
  have htidy : Tidy (Machine.run bussed ({}, {}) (init.take 24221 ++ init.drop 24221)) := by
    rw [run_append]
    exact hready.run (hrest.imp fun c e hs o ho => by rw [hs] at ho; cases ho)
  have hone' (c : Controller) :
      Along edge (fun c e => ∀ o, c.starts e = some o → e.length o = 1) c is :=
    along_of_forall_mem (fun e he _ o _ => by
      cases o
      · exact (hone e he).1
      · exact (hone e he).2) c
  obtain ⟨p, hp, hb⟩ := (htidy.realigned t).run (hone' _)
  exact hp.legal hb

theorem commands_legal_loading :
    let s := Machine.run bussed
      (realigned (Machine.run bussed ({}, {}) (List.replicate 24221 loading)) 5)
      (List.replicate 100 offering)
    s.1.Legal s.2.core.ctl.strobes s.2.path.ba :=
  commands_legal _ _ 5 (idle_loading {} 24221) (Nat.le_of_eq List.length_replicate.symm)
    (fun e he => by rw [List.eq_of_mem_replicate he]; exact ⟨rfl, rfl⟩)

end Controller

end TetrisFpga.Sdram
