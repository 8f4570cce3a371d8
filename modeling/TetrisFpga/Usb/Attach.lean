import TetrisFpga.Machine.LeadsTo
import TetrisFpga.Usb.Oscillator
import TetrisFpga.Usb.Replies

/-!
# A device is attached

From power-up the program gets through the start of the chip, the settle delay and the bus reset to
the state in which it asks the device for its descriptor. The delay is over because the clock goes
on, and the waits are over because the chip shows in the end what the program waits for.

## Main results

- `mainInit_serves`: the start
- `attachedStates_leadsTo`: the rounds in the attached states
-/

namespace TetrisFpga.Usb
open Program

section Attach

variable {χ : Type} [Platform χ] {dev : Device} {pace : Pace} {At : Moment → Time → χ → Prop}
variable {fuel : Fuel}

/-! ## A round -/

/-- The driver leaves the variables alone if its interrupt handler does. -/
theorem max3421eTask_quiet (h : Serves dev pace At) {m : Moment} {t : Time} {w : World χ}
    (hw : At m t w.chip)
    (hirq : (Platform.irq w.chip).1 = 0 → ∀ w₁ : World χ, At m t w₁.chip → w₁.host = w.host →
      ∃ w₂, maxIntHandler w₁ = .ok () w₂ ∧ At m t w₂.chip ∧ w₂.host = w₁.host ∧ w₂.pio = w₁.pio) :
    ∃ w', max3421eTask w = .ok () w' ∧ At m t w'.chip ∧ w'.host = w.host ∧ w'.pio = w.pio := by
  let w₁ : World χ := { w with
    chip := (Platform.irq w.chip).2, log := .irq (Platform.irq w.chip).1 :: w.log }
  have hr₁ : usbIrq w = .ok (Platform.irq w.chip).1 w₁ := rfl
  have hhandler : ∃ w₂, when ((Platform.irq w.chip).1 = 0) maxIntHandler w₁ = .ok () w₂ ∧
      At m t w₂.chip ∧ w₂.host = w.host ∧ w₂.pio = w.pio := by
    by_cases hzero : (Platform.irq w.chip).1 = 0
    · obtain ⟨w₂, hr₂, hframe⟩ := hirq hzero w₁ (h.irq hw) rfl
      exact ⟨w₂, (congrFun (if_pos hzero) w₁).trans hr₂, hframe⟩
    · exact ⟨w₁, congrFun (if_neg hzero) w₁, h.irq hw, rfl, rfl⟩
  obtain ⟨w₂, hr₂, hat₂, hframe⟩ := hhandler
  let w₃ : World χ := { w₂ with
    chip := (Platform.gpx w₂.chip).2, log := .gpx (Platform.gpx w₂.chip).1 :: w₂.log }
  have hr₃ : usbGpx w₂ = .ok (Platform.gpx w₂.chip).1 w₃ := rfl
  rw [max3421eTask, bind_of_ok hr₁, bind_of_ok hr₂, bind_of_ok hr₃]
  by_cases hgpx : (Platform.gpx w₂.chip).1 = 1
  · exact ⟨w₃.afterRd rGPINIRQ, congrFun (if_pos hgpx) w₃, h.gpin (h.gpx hat₂), hframe⟩
  · exact ⟨w₃, congrFun (if_neg hgpx) w₃, h.gpx hat₂, hframe⟩

/-- Outside a bus reset there is no interrupt. -/
theorem max3421eTask_serves (h : Serves dev pace At) {m : Moment} (hm : ∀ l n, m ≠ .resetting l n)
    {t : Time} {w : World χ} (hw : At m t w.chip) :
    ∃ w', max3421eTask w = .ok () w' ∧ At m t w'.chip ∧ w'.host = w.host ∧ w'.pio = w.pio :=
  max3421eTask_quiet h hw fun hzero => absurd hzero (h.calm hm hw)

variable (fuel) in
/-- The task starts with a fresh buffer. -/
theorem usbTask_starts (h : Serves dev pace At) {m : Moment} {t : Time} {w : World χ}
    (hw : At m t w.chip) :
    ∃ w', At m t w'.chip ∧ w'.host = w.host ∧ w'.pio = w.pio ∧
      usbTask fuel w =
        (if w.host.usbTaskState &&& usbStateMask = usbStateDetached then
          detachedTask w.host.usbTaskState
        else if w.host.usbTaskState &&& usbStateMask = usbStateAttached then
          attachedTask fuel w.host.usbTaskState
        else if w.host.usbTaskState &&& usbStateMask = usbStateAddressing then addressingTask fuel
        else if w.host.usbTaskState &&& usbStateMask = usbStateConfiguring then configuringTask fuel
        else pure () : Prog χ Unit) w' := by
  refine ⟨{ w with
    chip := (Platform.stack w.chip).2
    mem := fun o => if o = .buf then (Platform.stack w.chip).1 else w.mem o }, h.stack hw, rfl, rfl,
    ?_⟩
  rfl

theorem altMs_frame {now : DWORD} {w w' : World χ} (hr : altMs w = .ok now w') :
    w'.host = w.host ∧ w'.pio = w.pio := by
  cases hr
  exact ⟨rfl, rfl⟩

/-- What follows the task while it is on its way. -/
theorem mainRound_works {w w₁ w₂ : World χ} (hirq : max3421eTask w = .ok () w₁)
    (htask : usbTask fuel w₁ = .ok () w₂) (hrunning : w₂.host.usbTaskState ≠ usbStateRunning)
    (herror : w₂.host.usbTaskState ≠ usbStateError) (hflag : w₂.host.runningdebugflag = 0) :
    ∃ w', mainRound fuel w = .ok () w' ∧ w'.chip = w₂.chip ∧
      w'.host = { w₂.host with errorflag := 0 } := by
  have hget : (getHost : Prog χ Host) w₂ = .ok w₂.host w₂ := rfl
  have hskip : when (w₂.host.runningdebugflag ≠ 0) (restart fuel) w₂ = .ok () w₂ :=
    congrFun (if_neg (not_not_intro hflag)) w₂
  have hrest : ∃ w', whileNotRunning fuel w₂ = .ok () w' ∧ w'.chip = w₂.chip ∧
      w'.host = { w₂.host with errorflag := 0 } := by
    rw [whileNotRunning, bind_of_ok hget, bind_of_ok hskip]
    exact ⟨_, rfl, rfl, rfl⟩
  obtain ⟨w', hr, hchip, hhost⟩ := hrest
  refine ⟨w', ?_, hchip, hhost⟩
  rw [mainRound, bind_of_ok hirq, bind_of_ok htask, bind_of_ok hget, if_neg hrunning, if_neg herror]
  exact hr

/-- `R` is kept by the end of a round, and the task is on its way in `R`. -/
structure Underway (R : Host → χ → Prop) : Prop where
  errorflag : ∀ {h c}, R h c → R { h with errorflag := 0 } c
  running : ∀ {h c}, R h c → h.usbTaskState ≠ usbStateRunning
  error : ∀ {h c}, R h c → h.usbTaskState ≠ usbStateError
  flag : ∀ {h c}, R h c → h.runningdebugflag = 0

/-- `R` of the variables and the board. -/
def Meets (R : Host → χ → Prop) (w : World χ) : Prop := R w.host w.chip

/-- A round in which the task gets to `R`. -/
theorem mainRound_serves {R : Host → χ → Prop} (hR : Underway R) {w w₁ : World χ}
    (hirq : max3421eTask w = .ok () w₁) (htask : ∃ w₂, usbTask fuel w₁ = .ok () w₂ ∧ Meets R w₂) :
    ∃ w', mainRound fuel w = .ok () w' ∧ Meets R w' := by
  obtain ⟨w₂, hr₂, hw₂⟩ := htask
  obtain ⟨w', hr, hchip, hhost⟩ :=
    mainRound_works hirq hr₂ (hR.running hw₂) (hR.error hw₂) (hR.flag hw₂)
  refine ⟨w', hr, ?_⟩
  rw [Meets, hchip, hhost]
  exact hR.errorflag hw₂

/-! ## The attached states -/

/-- The task is in the state `s`, and no device is entered. -/
structure Unattached (s : BYTE) (h : Host) : Prop where
  state : h.usbTaskState = s
  flag : h.runningdebugflag = 0
  emptied : Emptied h
  noReset : NoReset h

omit [Platform χ] in
theorem underway_unattached {s : BYTE} (hrunning : s ≠ usbStateRunning) (herror : s ≠ usbStateError)
    {p : Host → χ → Prop} (hp : ∀ {h c}, p h c → p { h with errorflag := 0 } c) :
    Underway fun h c => Unattached s h ∧ p h c where
  errorflag hh := ⟨⟨hh.1.state, hh.1.flag, ⟨hh.1.emptied.entry, hh.1.emptied.root⟩, hh.1.noReset⟩,
    hp hh.2⟩
  running hh := hh.1.state ▸ hrunning
  error hh := hh.1.state ▸ herror
  flag hh := hh.1.flag

omit [Platform χ] in
theorem Underway.or {R R' : Host → χ → Prop} (h : Underway R) (h' : Underway R') :
    Underway fun k c => R k c ∨ R' k c where
  errorflag hh := hh.imp h.errorflag h'.errorflag
  running hh := hh.elim h.running h'.running
  error hh := hh.elim h.error h'.error
  flag hh := hh.elim h.flag h'.flag

omit [Platform χ] in
theorem Underway.exists {ι : Type} {p : ι → Prop} {R : ι → Host → χ → Prop}
    (h : ∀ i, Underway (R i)) : Underway fun k c => ∃ i, p i ∧ R i k c where
  errorflag := fun ⟨i, hi, hh⟩ => ⟨i, hi, (h i).errorflag hh⟩
  running := fun ⟨i, _, hh⟩ => (h i).running hh
  error := fun ⟨i, _, hh⟩ => (h i).error hh
  flag := fun ⟨i, _, hh⟩ => (h i).flag hh

/-- A round in one of the attached states. -/
theorem attachedRound_serves (h : Serves dev pace At) {s : BYTE}
    (hgroup : s &&& usbStateMask = usbStateAttached) {m : Moment} {t : Time} {w w₁ : World χ}
    (hs : w.host.usbTaskState = s) (hirq : max3421eTask w = .ok () w₁) (hat : At m t w₁.chip)
    (hhost : w₁.host = w.host) {R : Host → χ → Prop} (hR : Underway R)
    (htask : ∀ w₂, At m t w₂.chip → w₂.host = w.host →
      ∃ w₃, attachedTask fuel s w₂ = .ok () w₃ ∧ Meets R w₃) :
    ∃ w', mainRound fuel w = .ok () w' ∧ Meets R w' := by
  refine mainRound_serves hR hirq ?_
  obtain ⟨w₂, hat₂, hhost₂, -, hr₂⟩ := usbTask_starts fuel h hat
  have hnot : ¬s &&& usbStateMask = usbStateDetached := by
    rw [hgroup]
    decide
  rw [hhost, hs, if_neg hnot, if_pos hgroup] at hr₂
  rw [hr₂]
  exact htask w₂ hat₂ (hhost₂.trans hhost)

omit [Platform χ] in
theorem Unattached.setState {s s' : BYTE} {h : Host} (hh : Unattached s h) :
    Unattached s' { h with usbTaskState := s' } :=
  ⟨rfl, hh.flag, ⟨hh.emptied.entry, hh.emptied.root⟩, hh.noReset⟩

theorem Pace.lag_le (pace : Pace) : pace.lag ≤ 24 := by
  have hpace := pace.in_time
  have hpolls : 201 * pace.lag ≤ (200 * (pace.polls + 1) + 1) * pace.lag :=
    Nat.mul_le_mul_right _ (by omega)
  omega

/-- Before the milliseconds start again a deadline is due on time. -/
theorem due_of_le {t₀ d t : ℕ} (hle : t₀ + d ≤ t) (ht : t < 4294967) : Due t₀ d t := by
  unfold Due product
  omega

/-- The milliseconds of the settle delay that begins at `t₀` are not over. -/
structure Settle (pace : Pace) (At : Moment → Time → χ → Prop) (l : Link) (t₀ : ℕ) (i : ℕ × ℕ)
    (h : Host) (c : χ) : Prop where
  host : Unattached usbAttachedSubstateSettle h
  delay : h.usbDelay = ms (BitVec.ofNat 32 t₀) + 200
  time : ∃ t, At (.idle l) t c ∧ t₀ ≤ t.ms ∧ t.ms ≤ t₀ + 200 + pace.lag ∧
    i = (t₀ + 200 + pace.lag - t.ms, t.reads)

omit [Platform χ] in
theorem underway_settle (l : Link) (t₀ : ℕ) (i : ℕ × ℕ) : Underway (Settle pace At l t₀ i) where
  errorflag hh := ⟨⟨hh.host.state, hh.host.flag, ⟨hh.host.emptied.entry, hh.host.emptied.root⟩,
    hh.host.noReset⟩, hh.delay, hh.time⟩
  running hh := hh.host.state ▸ by decide
  error hh := hh.host.state ▸ by decide
  flag hh := hh.host.flag

/-- The device is on the bus, and the chip is idle. -/
def Attached (At : Moment → Time → χ → Prop) (s : BYTE) (n : ℕ) (h : Host) (c : χ) : Prop :=
  Unattached s h ∧ ∃ l t, l.sent = n ∧ At (.idle l) t c

/-- The device has its address from the bus reset, and nothing is under way. -/
def Unaddressed (At : Moment → Time → χ → Prop) (s : BYTE) (n : ℕ) (h : Host) (c : χ) : Prop :=
  Unattached s h ∧ ∃ p t, At (.idle (.quiet p 0 n)) t c

omit [Platform χ] in
theorem underway_attached {s : BYTE} (hrunning : s ≠ usbStateRunning) (herror : s ≠ usbStateError)
    (n : ℕ) : Underway (Attached At s n) :=
  underway_unattached hrunning herror fun hc => hc

omit [Platform χ] in
theorem underway_unaddressed {s : BYTE} (hrunning : s ≠ usbStateRunning)
    (herror : s ≠ usbStateError) (n : ℕ) : Underway (Unaddressed At s n) :=
  underway_unattached hrunning herror fun hc => hc

theorem idle_ne_resetting (l l' : Link) (n : ℕ) : Moment.idle l ≠ .resetting l' n := by
  intro heq
  cases heq

/-- The settle delay is over in time. -/
theorem settle_serves (h : Serves dev pace At) {l : Link} {t₀ : ℕ} (ht₀ : t₀ + 300 < 4294967)
    (i : ℕ × ℕ) : LeadsTo (mainRound fuel) (Meets (Settle pace At l t₀ i))
      (Meets (Attached At usbAttachedSubstateResetDevice l.sent)) := by
  -- the measure is the time that is left, and for equal times the readings that may still show it
  refine leadsTo_of_measure (P := fun i => Meets (Settle pace At l t₀ i)) (fun i => ?_) i
  rintro w ⟨hhost, hdelay, t, hat, hfrom, hto, rfl⟩
  have hlag := pace.lag_le
  obtain ⟨w₁, hr₁, hat₁, hhost₁, -⟩ := max3421eTask_serves h (idle_ne_resetting l) hat
  let R (k : Host) (c : χ) : Prop := Attached At usbAttachedSubstateResetDevice l.sent k c ∨
    ∃ i', Prod.Lex (· < ·) (· < ·) i' (t₀ + 200 + pace.lag - t.ms, t.reads) ∧
      Settle pace At l t₀ i' k c
  have hR : Underway R := (underway_attached (by decide) (by decide) l.sent).or
    (.exists (underway_settle l t₀))
  have htask (w₂ : World χ) (hat₂ : At (.idle l) t w₂.chip) (hhost₂ : w₂.host = w.host) :
      ∃ w₃, attachedTask fuel usbAttachedSubstateSettle w₂ = .ok () w₃ ∧ Meets R w₃ := by
    obtain ⟨now, w₃, hr₃, rfl, t', hticks, hat₃⟩ := altMs_serves h w₂ hat₂
    have hhost₃ : w₃.host = w.host := (altMs_frame hr₃).1.trans hhost₂
    have hget : (getHost : Prog χ Host) w₃ = .ok w₃.host w₃ := rfl
    have hle := hticks.le
    rw [attachedTask, if_neg (by decide), if_pos rfl, bind_of_ok hr₃, bind_of_ok hget, hhost₃,
      hdelay]
    by_cases hdue : ms (BitVec.ofNat 32 t₀) + 200 < ms (BitVec.ofNat 32 t.ms)
    · rw [if_pos hdue]
      refine ⟨_, rfl, .inl ⟨?_, l, t', rfl, hat₃⟩⟩
      rw [hhost₃]
      exact hhost.setState
    · rw [if_neg hdue]
      have hearly : t.ms < t₀ + 201 := by
        by_contra hge
        exact hdue ((deadline_lt_iff t₀ t.ms).mpr (due_of_le (by omega) (by omega)))
      refine ⟨w₃, rfl, .inr ⟨(t₀ + 200 + pace.lag - t'.ms, t'.reads), ?_, hhost₃ ▸ hhost,
        hhost₃ ▸ hdelay, t', hat₃, by omega, by omega, rfl⟩⟩
      obtain ⟨hsame, hfewer⟩ | ⟨hmore, -⟩ := hticks
      · rw [hsame]
        exact .right _ hfewer
      · exact .left _ _ (by omega)
  obtain ⟨w', hr, hw'⟩ :=
    attachedRound_serves h (by decide) hhost.state hr₁ hat₁ hhost₁ hR htask
  exact ⟨(), w', hr, hw'⟩

/-- The delay begins. -/
theorem attached_serves (h : Serves dev pace At) (l : Link) {t : Time} (ht : t.ms + 300 < 4294967) :
    LeadsTo (mainRound fuel)
      (Meets fun k (c : χ) => Unattached usbStateAttached k ∧ At (.idle l) t c)
      (Meets (Attached At usbAttachedSubstateResetDevice l.sent)) := by
  refine LeadsTo.trans (Succeeds.leadsTo ?_) (leadsTo_exists (settle_serves h (l := l) ht))
  rintro w ⟨hhost, hat⟩
  obtain ⟨w₁, hr₁, hat₁, hhost₁, -⟩ := max3421eTask_serves h (idle_ne_resetting l) hat
  let R (k : Host) (c : χ) : Prop := ∃ i, True ∧ Settle pace At l t.ms i k c
  have hR : Underway R := .exists (underway_settle l t.ms)
  have htask (w₂ : World χ) (hat₂ : At (.idle l) t w₂.chip) (hhost₂ : w₂.host = w.host) :
      ∃ w₃, attachedTask fuel usbStateAttached w₂ = .ok () w₃ ∧ Meets R w₃ := by
    obtain ⟨now, w₃, hr₃, rfl, t', hticks, hat₃⟩ := altMs_serves h w₂ hat₂
    have hhost₃ : w₃.host = w.host := (altMs_frame hr₃).1.trans hhost₂
    have hle := hticks.le
    rw [attachedTask, if_pos rfl, bind_of_ok hr₃]
    refine ⟨_, rfl, _, trivial, ⟨rfl, ?_, ?_, ?_⟩, rfl, t', hat₃, by omega, by omega, rfl⟩
    · exact hhost₃ ▸ hhost.flag
    · exact ⟨hhost₃ ▸ hhost.emptied.entry, hhost₃ ▸ hhost.emptied.root⟩
    · exact hhost₃ ▸ hhost.noReset
  obtain ⟨w', hr, i, -, hw'⟩ :=
    attachedRound_serves h (by decide) hhost.state hr₁ hat₁ hhost₁ hR htask
  exact ⟨(), w', hr, i, hw'⟩

/-- The bus is in a reset, for `reads` more reads of `HCTL` at most. -/
def InReset (At : Moment → Time → χ → Prop) (n reads : ℕ) (h : Host) (c : χ) : Prop :=
  Unattached usbAttachedSubstateWaitResetComplete h ∧
    ∃ l t, l.sent = n ∧ At (.resetting l reads) t c

omit [Platform χ] in
theorem underway_inReset (n reads : ℕ) : Underway (InReset At n reads) :=
  underway_unattached (by decide) (by decide) fun hc => hc

/-- The bus reset begins. -/
theorem resetDevice_serves (h : Serves dev pace At) (n : ℕ) :
    Succeeds (Meets (Attached At usbAttachedSubstateResetDevice n)) (mainRound fuel) fun _ w =>
      ∃ reads, Meets (InReset At n reads) w := by
  rintro w ⟨hhost, l, t, hsent, hat⟩
  obtain ⟨w₁, hr₁, hat₁, hhost₁, -⟩ := max3421eTask_serves h (idle_ne_resetting l) hat
  let R (k : Host) (c : χ) : Prop := ∃ reads, True ∧ InReset At n reads k c
  have hR : Underway R := .exists (underway_inReset n)
  have htask (w₂ : World χ) (hat₂ : At (.idle l) t w₂.chip) (hhost₂ : w₂.host = w.host) :
      ∃ w₃, attachedTask fuel usbAttachedSubstateResetDevice w₂ = .ok () w₃ ∧ Meets R w₃ := by
    have hat₃ : At (.idle l) t (Platform.wr w₂.chip rHIRQ bmBUSEVENTIRQ) :=
      h.wr (by decide) (fun heq => absurd heq (by decide)) hat₂
    obtain ⟨reads, hat₄⟩ := h.busReset hat₃
    rw [attachedTask, if_neg (by decide), if_neg (by decide), if_pos rfl]
    refine ⟨_, rfl, reads, trivial, ?_, l, t, hsent, hat₄⟩
    show Unattached _ { w₂.host with usbTaskState := _ }
    rw [hhost₂]
    exact hhost.setState
  obtain ⟨w', hr, reads, -, hw'⟩ :=
    attachedRound_serves h (by decide) hhost.state hr₁ hat₁ hhost₁ hR htask
  exact ⟨(), w', hr, reads, hw'⟩

/-- The probe of the bus in a bus reset: the sample shows the device that is reset. -/
theorem maxBusprobe_inReset (h : Serves dev pace At) {l : Link} {reads : ℕ} {t : Time}
    {w : World χ} (hs : w.host.usbTaskState = usbAttachedSubstateWaitResetComplete)
    (hw : At (.resetting l reads) t w.chip) :
    ∃ w', maxBusprobe w = .ok () w' ∧ At (.resetting l reads) t w'.chip ∧ w'.host = w.host ∧
      w'.pio = w.pio := by
  refine ⟨w.afterRd rHRSL, ?_, h.reset_rd (by decide) hw, rfl, rfl⟩
  have hstart (mode lowSpeedMode : BYTE) :
      startHost mode lowSpeedMode (w.afterRd rHRSL) = .ok () (w.afterRd rHRSL) := by
    have hget : (getHost : Prog χ Host) (w.afterRd rHRSL) = .ok w.host (w.afterRd rHRSL) := rfl
    rw [startHost, bind_of_ok hget, if_neg (not_not_intro hs)]
    rfl
  rw [maxBusprobe, bind_of_ok (maxRegRd_run rHRSL w)]
  obtain hsample | hsample := h.reset_sample hw
  · rw [if_pos hsample, hstart]
  · rw [if_neg (by rw [hsample]; decide), if_pos hsample, hstart]

/-- An interrupt in a bus reset changes nothing. -/
theorem maxIntHandler_inReset (h : Serves dev pace At) {l : Link} {reads : ℕ} {t : Time}
    {w : World χ} (hs : w.host.usbTaskState = usbAttachedSubstateWaitResetComplete)
    (hw : At (.resetting l reads) t w.chip) :
    ∃ w', maxIntHandler w = .ok () w' ∧ At (.resetting l reads) t w'.chip ∧ w'.host = w.host ∧
      w'.pio = w.pio := by
  have hat₁ : At (.resetting l reads) t (w.afterRd rHIRQ).chip := h.reset_rd (by decide) hw
  have hprobe : ∃ w₂, when ((Platform.rd w.chip rHIRQ).1 &&& bmCONDETIRQ ≠ 0) maxBusprobe
      (w.afterRd rHIRQ) = .ok () w₂ ∧ At (.resetting l reads) t w₂.chip ∧ w₂.host = w.host ∧
      w₂.pio = w.pio := by
    by_cases hcondet : (Platform.rd w.chip rHIRQ).1 &&& bmCONDETIRQ ≠ 0
    · rw [when, if_pos hcondet]
      exact maxBusprobe_inReset h hs hat₁
    · exact ⟨_, congrFun (if_neg hcondet) _, hat₁, rfl, rfl⟩
  obtain ⟨w₂, hr₂, hat₂, hhost₂, hpio₂⟩ := hprobe
  have hsend : ∃ w₃, when ((Platform.rd w.chip rHIRQ).1 &&& bmSNDBAVIRQ ≠ 0)
      (maxRegWr rSNDBC 0x00) w₂ = .ok () w₃ ∧ At (.resetting l reads) t w₃.chip ∧
      w₃.host = w.host ∧ w₃.pio = w.pio := by
    by_cases hsndbav : (Platform.rd w.chip rHIRQ).1 &&& bmSNDBAVIRQ ≠ 0
    · exact ⟨_, congrFun (if_pos hsndbav) w₂, h.reset_wr 0x00 (.inr rfl) hat₂, hhost₂, hpio₂⟩
    · exact ⟨_, congrFun (if_neg hsndbav) w₂, hat₂, hhost₂, hpio₂⟩
  obtain ⟨w₃, hr₃, hat₃, hhost₃, hpio₃⟩ := hsend
  have hevent : when ((Platform.rd w.chip rHIRQ).1 &&& bmBUSEVENTIRQ ≠ 0)
      (setHost fun h => { h with usbTaskState := h.usbTaskState + 1 }) w₃ = .ok () w₃ :=
    congrFun (if_neg (not_not_intro (h.reset_hirq hw))) w₃
  rw [maxIntHandler, bind_of_ok (maxRegRd_run rHIRQ w), bind_of_ok hr₂, bind_of_ok hr₃,
    bind_of_ok hevent]
  exact ⟨_, rfl, h.reset_wr _ (.inl rfl) hat₃, hhost₃, hpio₃⟩

/-- The bus reset ends. -/
theorem resetComplete_serves (h : Serves dev pace At) (n reads : ℕ) :
    LeadsTo (mainRound fuel) (Meets (InReset At n reads))
      (Meets (Unaddressed At usbAttachedSubstateWaitSof n)) := by
  refine leadsTo_of_measure (P := fun reads => Meets (InReset At n reads)) (fun reads => ?_) reads
  rintro w ⟨hhost, l, t, hsent, hat⟩
  obtain ⟨w₁, hr₁, hat₁, hhost₁, -⟩ := max3421eTask_quiet h hat fun _ w₁ hat₁ hhost₁ =>
    maxIntHandler_inReset h (hhost₁ ▸ hhost.state) hat₁
  let R (k : Host) (c : χ) : Prop := Unaddressed At usbAttachedSubstateWaitSof n k c ∨
    ∃ reads', reads' < reads ∧ InReset At n reads' k c
  have hR : Underway R := (underway_unaddressed (by decide) (by decide) n).or
    (.exists (underway_inReset n))
  have htask (w₂ : World χ) (hat₂ : At (.resetting l reads) t w₂.chip) (hhost₂ : w₂.host = w.host) :
      ∃ w₃, attachedTask fuel usbAttachedSubstateWaitResetComplete w₂ = .ok () w₃ ∧ Meets R w₃ := by
    rw [attachedTask, if_neg (by decide), if_neg (by decide), if_neg (by decide), if_pos rfl,
      bind_of_ok (maxRegRd_run rHCTL w₂)]
    obtain ⟨hshow, reads', hlt, hat₃⟩ | ⟨hshow, hat₃⟩ := h.resets hat₂
    · rw [if_neg hshow]
      exact ⟨_, rfl, .inr ⟨reads', hlt, hhost₂ ▸ hhost, l, t, hsent, hat₃⟩⟩
    · rw [if_pos hshow]
      have hat₄ : At (.idle l.unaddressed) t
          (Platform.wr (Platform.rd (w₂.afterRd rHCTL).chip rMODE).2 rMODE
            ((Platform.rd (w₂.afterRd rHCTL).chip rMODE).1 ||| bmSOFKAENAB)) :=
        h.wr (by decide) (fun heq => absurd heq (by decide)) (h.rd rMODE hat₃)
      refine ⟨_, rfl, .inl ⟨?_, l.perAddr, t, hsent ▸ hat₄⟩⟩
      show Unattached _ { w₂.host with usbTaskState := _ }
      rw [hhost₂]
      exact hhost.setState
  obtain ⟨w', hr, hw'⟩ :=
    attachedRound_serves h (by decide) hhost.state hr₁ hat₁ hhost₁ hR htask
  exact ⟨(), w', hr, hw'⟩

/-- The device is awaited in the state in which it is asked for its descriptor. -/
theorem waitSof_serves (h : Serves dev pace At) (n : ℕ) :
    Succeeds (Meets (Unaddressed At usbAttachedSubstateWaitSof n)) (mainRound fuel) fun _ =>
      Meets (Unaddressed At usbAttachedSubstateGetDeviceDescriptorSize n) := by
  rintro w ⟨hhost, p, t, hat⟩
  obtain ⟨w₁, hr₁, hat₁, hhost₁, -⟩ := max3421eTask_serves h (idle_ne_resetting _) hat
  have htask (w₂ : World χ) (hat₂ : At (.idle (.quiet p 0 n)) t w₂.chip)
      (hhost₂ : w₂.host = w.host) :
      ∃ w₃, attachedTask fuel usbAttachedSubstateWaitSof w₂ = .ok () w₃ ∧
        Meets (Unaddressed At usbAttachedSubstateGetDeviceDescriptorSize n) w₃ := by
    have hframe : ∀ hirq : BYTE, hirq ||| bmFRAMEIRQ ≠ 0 := by decide +kernel
    rw [attachedTask, if_neg (by decide), if_neg (by decide), if_neg (by decide),
      if_neg (by decide), if_pos rfl, bind_of_ok (maxRegRd_run rHIRQ w₂), if_pos (hframe _)]
    refine ⟨_, rfl, ?_, p, t, h.rd rHIRQ hat₂⟩
    show Unattached _ { w₂.host with usbTaskState := _ }
    rw [hhost₂]
    exact hhost.setState
  obtain ⟨w', hr, hw'⟩ := attachedRound_serves h (by decide) hhost.state hr₁ hat₁ hhost₁
    (underway_unaddressed (by decide) (by decide) n) htask
  exact ⟨(), w', hr, hw'⟩

/-- The rounds in the attached states. -/
theorem attachedStates_leadsTo (h : Serves dev pace At) (l : Link) {t : Time}
    (ht : t.ms + 300 < 4294967) :
    LeadsTo (mainRound fuel)
      (Meets fun k (c : χ) => Unattached usbStateAttached k ∧ At (.idle l) t c)
      (Meets (Unaddressed At usbAttachedSubstateGetDeviceDescriptorSize l.sent)) := by
  have hreset : LeadsTo (mainRound fuel)
      (Meets (Attached At usbAttachedSubstateResetDevice l.sent))
      (Meets (Unaddressed At usbAttachedSubstateWaitSof l.sent)) :=
    (resetDevice_serves h l.sent).leadsTo.trans (leadsTo_exists (resetComplete_serves h l.sent))
  exact (attached_serves h l ht).trans (hreset.trans (waitSof_serves h l.sent).leadsTo)

/-! ## The start -/

/-- The oscillator becomes stable before the fuel is used up. -/
theorem waitOscillator_serves (h : Serves dev pace At) {t : Time} {reads k : ℕ} (hk : reads ≤ k)
    (tmp : BYTE) {w : World χ} (hw : At (.starting reads) t w.chip) :
    ∃ w' l, waitOscillatorFrom k tmp w = .ok () w' ∧ w'.host = w.host ∧ l.sent = 0 ∧
      At (.idle l) t w'.chip := by
  induction reads using Nat.strong_induction_on generalizing k tmp w with
  | _ reads ih =>
    have htest : (do return decide ((← maxRegRd rUSBIRQ) &&& bmOSCOKIRQ = 0) : Prog χ Bool) w =
        .ok (decide ((Platform.rd w.chip rUSBIRQ).1 &&& bmOSCOKIRQ = 0)) (w.afterRd rUSBIRQ) := rfl
    obtain ⟨hlow, reads', hlt, hat⟩ | ⟨hhigh, l, hsent, hat⟩ := h.oscillator hw
    · obtain ⟨k, rfl⟩ : ∃ m, k = m + 1 := ⟨k - 1, by omega⟩
      rw [decide_eq_true hlow] at htest
      obtain ⟨w', l, hr, hhost, hidle⟩ :=
        ih reads' hlt (k := k) (by omega) (tmp + 1) (w := w.afterRd rUSBIRQ) hat
      exact ⟨w', l, (bind_of_ok htest _).trans hr, hhost, hidle⟩
    · rw [decide_eq_false hhigh] at htest
      refine ⟨w.afterRd rUSBIRQ, l, ?_, rfl, hsent, hat⟩
      cases k with
      | zero => exact bind_of_ok htest _
      | succ k => exact bind_of_ok htest _

/-- The device is seen on the bus. -/
theorem maxBusprobe_serves (h : Serves dev pace At) {l : Link} {t : Time} {w : World χ}
    (hs : w.host.usbTaskState ≠ usbAttachedSubstateWaitResetComplete)
    (hw : At (.idle l) t w.chip) :
    ∃ w', maxBusprobe w = .ok () w' ∧ At (.idle l) t w'.chip ∧
      w'.host = { w.host with usbTaskState := usbStateAttached } := by
  have hstart (mode lowSpeedMode : BYTE) : ∃ w',
      startHost mode lowSpeedMode (w.afterRd rHRSL) = .ok () w' ∧ At (.idle l) t w'.chip ∧
        w'.host = { w.host with usbTaskState := usbStateAttached } := by
    have hget : (getHost : Prog χ Host) (w.afterRd rHRSL) = .ok w.host (w.afterRd rHRSL) := rfl
    rw [startHost, bind_of_ok hget, if_pos hs, bind_of_ok (maxRegRd_run rMODE _)]
    refine ⟨_, rfl, ?_, rfl⟩
    exact h.wr (by decide) (fun heq => absurd heq (by decide)) (h.rd rMODE (h.rd rHRSL hw))
  rw [maxBusprobe, bind_of_ok (maxRegRd_run rHRSL w)]
  obtain hsample | hsample := h.sample hw
  · rw [if_pos hsample]
    exact hstart _ _
  · rw [if_neg (by rw [hsample]; decide), if_pos hsample]
    exact hstart _ _

/-- The chip is started, and the device is attached. -/
theorem max3421eInit_serves (h : Serves dev pace At) (hf : Enough pace fuel) {t : Time}
    {w : World χ} (hs : w.host.usbTaskState ≠ usbAttachedSubstateWaitResetComplete)
    (hw : At .off t w.chip) :
    ∃ w' l, max3421eInit fuel w = .ok () w' ∧ l.sent = 0 ∧ At (.idle l) t w'.chip ∧
      w'.host = { w.host with usbTaskState := usbStateAttached } := by
  let w₁ : World χ := { w with
    chip := Platform.wr w.chip rPINCTL (bmFDUPSPI + bmINTLEVEL + bmGPXB)
    log := .wr rPINCTL (bmFDUPSPI + bmINTLEVEL + bmGPXB) :: w.log }
  have hat₁ : At .off t w₁.chip := h.off_wr _ (by decide) hw
  obtain ⟨reads, hreads, hat₂⟩ := h.chipReset hat₁
  let w₂ : World χ := { w₁ with
    chip := Platform.wr (Platform.wr w₁.chip rUSBCTL bmCHIPRES) rUSBCTL 0x00
    log := .wr rUSBCTL 0x00 :: .wr rUSBCTL bmCHIPRES :: .usbRst 1 :: .usbRst 0 :: w₁.log }
  have hat₂ : At (.starting reads) t w₂.chip := h.start hat₂
  obtain ⟨w₃, l, hr₃, hhost₃, hsent, hat₃⟩ :=
    waitOscillator_serves h (le_of_lt (lt_of_le_of_lt hreads hf.reset)) 0 hat₂
  have hreset : max3421eReset fuel w₁ = .ok () w₃ := hr₃
  have hwr (reg val : BYTE) (hreg : reg ∉ [rPERADDR, rSUDFIFO, rHXFR, rUSBCTL])
      (hctl : reg = rHCTL → val &&& bmBUSRST = 0) {w : World χ} (hat : At (.idle l) t w.chip) :
      ∃ w', maxRegWr reg val w = .ok () w' ∧ At (.idle l) t w'.chip ∧ w'.host = w.host :=
    ⟨_, rfl, h.wr hreg hctl hat, rfl⟩
  -- the writes that follow leave the link idle
  obtain ⟨w₄, hr₄, hat₄, hhost₄⟩ :=
    hwr rGPINIEN bmGPINIEN7 (by decide) (by decide) hat₃
  obtain ⟨w₅, hr₅, hat₅, hhost₅⟩ := hwr rMODE
    (bmDPPULLDN ||| bmDMPULLDN ||| bmHOST ||| bmSEPIRQ) (by decide) (by decide) hat₄
  obtain ⟨w₆, hr₆, hat₆, hhost₆⟩ :=
    hwr rHIEN bmCONDETIE (by decide) (by decide) hat₅
  obtain ⟨w₇, hr₇, hat₇, hhost₇⟩ :=
    hwr rHCTL bmSAMPLEBUS (by decide) (by decide) hat₆
  have hhost : w₇.host = w.host := by rw [hhost₇, hhost₆, hhost₅, hhost₄, hhost₃]
  obtain ⟨w₈, hr₈, hat₈, hhost₈⟩ := maxBusprobe_serves h (hhost ▸ hs) hat₇
  obtain ⟨w₉, hr₉, hat₉, hhost₉⟩ :=
    hwr rHIRQ bmCONDETIRQ (by decide) (by decide) hat₈
  obtain ⟨w', hr', hat', hhost'⟩ :=
    hwr rCPUCTL 0x01 (by decide) (by decide) hat₉
  have hr₁ : maxRegWr rPINCTL (bmFDUPSPI + bmINTLEVEL + bmGPXB) w = .ok () w₁ := rfl
  refine ⟨w', l, ?_, hsent, hat', ?_⟩
  · rw [max3421eInit, bind_of_ok hr₁, bind_of_ok hreset, bind_of_ok hr₄, bind_of_ok hr₅,
      bind_of_ok hr₆, bind_of_ok hr₇, bind_of_ok hr₈, bind_of_ok hr₉]
    exact hr'
  · rw [hhost', hhost₉, hhost₈, hhost]

omit [Platform χ] in
/-- The table is emptied, and the toggles of address 0 are set. -/
theorem usbInit_empties {w : World χ} (hflag : w.host.runningdebugflag = 0)
    (hreset : NoReset w.host) :
    ∃ w', usbInit w = .ok () w' ∧ w'.chip = w.chip ∧ Unattached w.host.usbTaskState w'.host := by
  let I (w' : World χ) : Prop := w'.chip = w.chip ∧
    w'.host.usbTaskState = w.host.usbTaskState ∧ w'.host.runningdebugflag = 0 ∧ NoReset w'.host
  have hdev (i : BYTE) (r : Host → DevRecord) :
      Succeeds I (setHost fun h => h.setDev i (r h) : Prog χ Unit) fun _ => I :=
    fun _ hw => ⟨(), _, rfl, hw⟩
  have hep {f : EpRecord → EpRecord}
      (hf : ∀ r, r.rcvToggle &&& bmBUSRST = 0 → (f r).rcvToggle &&& bmBUSRST = 0) :
      Succeeds I (setHost fun h => h.setEp .dev0ep 0 f : Prog χ Unit) fun _ => I :=
    fun _ hw => ⟨(), _, rfl, hw.1, hw.2.1, hw.2.2.1, hw.2.2.2.setEp hf⟩
  have hinit : Succeeds I (usbInit : Prog χ Unit) fun _ => I := by
    refine succeeds_bind (succeeds_forM (fun i =>
      succeeds_bind (hdev i _) fun _ => hdev i _) _) fun _ => ?_
    refine succeeds_bind (hdev 0 _) fun _ => succeeds_bind (hep fun _ hr => hr) fun _ => ?_
    refine succeeds_bind (hep fun _ hr => hr) fun _ => hep fun _ _ => ?_
    exact (by decide : bmRCVTOG0 &&& bmBUSRST = 0)
  obtain ⟨⟨⟩, w', hr, hchip, hstate, hflag', hreset'⟩ := hinit w ⟨rfl, rfl, hflag, hreset⟩
  have htable := triple_usbInit (χ := χ) (S := fun _ => True) (p := fun _ => True)
    (fun _ _ _ _ => trivial) (fun _ _ _ _ _ => trivial) fun _ _ => trivial
  have hemptied := (htable.ok w () w' ⟨trivial, fun _ _ => trivial⟩ hr).1.2
  exact ⟨w', hr, hchip, hstate, hflag', hemptied, hreset'⟩

/-- The program starts with the device attached and no entry in its table. -/
theorem mainInit_serves (h : Serves dev pace At) (hf : Enough pace fuel) {t : Time} {chip : χ}
    (hoff : At .off t chip) (device : BYTE) (mem : Obj → ℤ → BYTE) (pio : Pio) :
    ∃ w' l, mainInit fuel (powerUp chip device mem pio) = .ok () w' ∧ l.sent = 0 ∧
      Unattached usbStateAttached w'.host ∧ At (.idle l) t w'.chip := by
  let w₁ : World χ := (powerUp chip device mem pio).afterRd (0x12 <<< 3)
  have hat₁ : At .off t w₁.chip := h.off_rd _ hoff
  have hs : w₁.host.usbTaskState ≠ usbAttachedSubstateWaitResetComplete :=
    (by decide : usbDetachedSubstateInitialize ≠ usbAttachedSubstateWaitResetComplete)
  obtain ⟨w₂, l, hr₂, hsent, hat₂, hhost₂⟩ := max3421eInit_serves h hf hs hat₁
  have hreset : NoReset w₁.host := fun _ _ => (by decide : (0 : BYTE) &&& bmBUSRST = 0)
  obtain ⟨w', hr', hchip, hunattached⟩ :=
    usbInit_empties (w := w₂) (by rw [hhost₂]; rfl) (by rw [hhost₂]; exact hreset)
  refine ⟨w', l, ?_, hsent, ?_, hchip ▸ hat₂⟩
  · rw [mainInit, bind_of_ok (maxRegRd_run _ _), bind_of_ok hr₂]
    exact hr'
  · rw [hhost₂] at hunattached
    exact hunattached

end Attach

end TetrisFpga.Usb
