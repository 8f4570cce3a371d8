import Mathlib.Algebra.Group.Nat.Defs
import TetrisFpga.Machine.Clock
import TetrisFpga.Usb.Enumeration

/-!
# Deadlines on the millisecond clock

`(alt_nticks()*1000)/alt_ticks_per_second()` is computed modulo 2 ^ 32: the product starts again
from 0 about every 4294967 ticks, and the milliseconds with it. A deadline is a number of
milliseconds behind a reading and does not start again, so a wait that goes on while the product
starts again goes past its deadline.
-/

namespace TetrisFpga.Usb
open Program Machine

/-! ## Deadlines -/

/-- The product of a tick by 1000, as the machine has it. -/
def product (t : ℕ) : ℕ := 1000 * t % 2 ^ 32

theorem ms_toNat (t : ℕ) : (ms (BitVec.ofNat 32 t)).toNat = product t / 1000 := by
  have hdiv : (ms (BitVec.ofNat 32 t)).toNat = (BitVec.ofNat 32 t * 1000).toNat / 1000 :=
    BitVec.toNat_udiv
  rw [hdiv, BitVec.toNat_mul, BitVec.toNat_ofNat, product]
  show t % 2 ^ 32 * 1000 % 2 ^ 32 / 1000 = _
  omega

/-- At the tick `t` the clock shows at least `d` milliseconds more than at `t₀`. -/
def Due (t₀ d t : ℕ) : Prop := product t₀ / 1000 + d ≤ product t / 1000

/-- In a short time the product starts again once at most. -/
theorem product_add (t : ℕ) {k : ℕ} (hk : k ≤ 5001) :
    product (t + k) = product t + 1000 * k ∧ product t + 1000 * k < 2 ^ 32 ∨
      product (t + k) + 2 ^ 32 = product t + 1000 * k := by
  have hlt : product t < 2 ^ 32 := Nat.mod_lt _ (by decide)
  have hsum : product (t + k) = (product t + 1000 * k) % 2 ^ 32 := by
    rw [product, product, Nat.mul_add, Nat.mod_add_mod]
  omega

/-- A deadline before the product starts again is kept to the tick. -/
theorem due_first {t₀ d : ℕ} (hd : d ≤ 5000) (hfits : product t₀ + 1000 * d < 2 ^ 32) :
    Due t₀ d (t₀ + d) ∧ ∀ t, t₀ ≤ t → t < t₀ + d → ¬Due t₀ d t := by
  refine ⟨?_, fun t ht₀ ht => ?_⟩
  · have hprod := product_add t₀ (by omega : d ≤ 5001)
    unfold Due
    omega
  · obtain ⟨k, rfl⟩ := Nat.exists_eq_add_of_le ht₀
    have hprod := product_add t₀ (by omega : k ≤ 5001)
    unfold Due
    omega

/-- A deadline behind it is missed. -/
theorem not_due {t₀ d : ℕ} (hd : d ≤ 5000) (hlate : 2 ^ 32 ≤ product t₀ + 1000 * d) {t : ℕ}
    (ht₀ : t₀ ≤ t) (ht : t ≤ t₀ + d + 1) : ¬Due t₀ d t := by
  obtain ⟨k, rfl⟩ := Nat.exists_eq_add_of_le ht₀
  have hprod := product_add t₀ (by omega : k ≤ 5001)
  unfold Due
  omega

/-- The test of the wait loop. -/
theorem lt_deadline_iff (t₀ t : ℕ) :
    ms (BitVec.ofNat 32 t) < ms (BitVec.ofNat 32 t₀) + usbXferTimeout ↔ ¬Due t₀ 5000 t := by
  rw [BitVec.lt_def, ms_add_toNat _ (by decide), ms_toNat, ms_toNat, Due, Nat.not_le]
  rfl

/-- The test of the settle delay. -/
theorem deadline_lt_iff (t₀ t : ℕ) :
    ms (BitVec.ofNat 32 t₀) + 200 < ms (BitVec.ofNat 32 t) ↔ Due t₀ 201 t := by
  rw [BitVec.lt_def, ms_add_toNat _ (by decide), ms_toNat, ms_toNat]
  rfl

/-! ## A chip that never finishes -/

/-- The clock, and what the registers show, read by read: `HXFRDNIRQ` never. -/
structure Ticker where
  clock : Clock
  answers : ℕ → BYTE

instance : Platform Ticker where
  rd c reg := (if reg = rHIRQ then c.answers 0 &&& ~~~bmHXFRDNIRQ else c.answers 0,
    { c with answers := fun n => c.answers (n + 1) })
  wr c _ _ := c
  irq c := (1, c)
  gpx c := (0, c)
  nticks c := (BitVec.ofNat 32 c.clock.next.tick, { c with clock := c.clock.next })
  stack c := (fun _ => 0, c)

/-- The tick of the next reading. -/
def nextTick (w : World Ticker) : ℕ := w.chip.clock.next.tick

theorem hirq_not_done (val : BYTE) : val &&& ~~~bmHXFRDNIRQ &&& bmHXFRDNIRQ = 0 := by
  rw [BitVec.and_assoc, BitVec.not_and_self]
  simp

/-- The world after a reading of the clock. -/
def clockRead (w : World Ticker) : World Ticker where
  chip := { w.chip with clock := w.chip.clock.next }
  host := w.host
  mem := w.mem
  pio := w.pio
  log := .nticks (BitVec.ofNat 32 (nextTick w)) :: w.log

theorem altMs_run (w : World Ticker) :
    altMs w = .ok (ms (BitVec.ofNat 32 (nextTick w))) (clockRead w) := rfl

/-! ## The wait loop -/

section Wait

variable {timeout : DWORD} {w : World Ticker}

theorem waitDone_late (h : ¬ms (BitVec.ofNat 32 (nextTick w)) < timeout) (n : ℕ) :
    waitDone n timeout w = .ok 0xff (clockRead w) := by
  have hcond : (do return decide ((← altMs) < timeout) : Prog Ticker Bool) w =
      .ok (decide (ms (BitVec.ofNat 32 (nextTick w)) < timeout)) (clockRead w) := rfl
  rw [decide_eq_false h] at hcond
  cases n with
  | zero => rw [waitDone, whileLoop, bind_of_ok hcond]; rfl
  | succ n => rw [waitDone, whileLoop, bind_of_ok hcond]; rfl

/-- The world after a read of `HIRQ`. -/
def hirqRead (w : World Ticker) : World Ticker where
  chip := { w.chip with answers := fun n => w.chip.answers (n + 1) }
  host := w.host
  mem := w.mem
  pio := w.pio
  log := .rd rHIRQ (w.chip.answers 0 &&& ~~~bmHXFRDNIRQ) :: w.log

theorem waitDone_early (h : ms (BitVec.ofNat 32 (nextTick w)) < timeout) :
    waitDone 0 timeout w = .error .wait (clockRead w) ∧
      ∀ n, waitDone (n + 1) timeout w = waitDone n timeout (hirqRead (clockRead w)) := by
  have hcond : (do return decide ((← altMs) < timeout) : Prog Ticker Bool) w =
      .ok (decide (ms (BitVec.ofNat 32 (nextTick w)) < timeout)) (clockRead w) := rfl
  rw [decide_eq_true h] at hcond
  refine ⟨?_, fun n => ?_⟩
  · rw [waitDone, whileLoop, bind_of_ok hcond]
    rfl
  · rw [waitDone, whileLoop, bind_of_ok hcond, if_pos rfl]
    have hread : (maxRegRd rHIRQ : Prog Ticker BYTE) (clockRead w) =
        .ok (w.chip.answers 0 &&& ~~~bmHXFRDNIRQ) (hirqRead (clockRead w)) := rfl
    have hbody : (do
        let tmpdata ← maxRegRd rHIRQ
        if tmpdata &&& bmHXFRDNIRQ ≠ 0 then
          maxRegWr rHIRQ bmHXFRDNIRQ
          return .inr 0x00
        else return .inl () : Prog Ticker (Unit ⊕ BYTE)) (clockRead w) =
        .ok (.inl ()) (hirqRead (clockRead w)) := by
      rw [bind_of_ok hread, if_neg (not_not_intro (hirq_not_done _))]
      rfl
    rw [bind_of_ok hbody]
    rfl

/-- The loop ends at the first reading that is late. -/
theorem waitDone_exits (k : ℕ) {n : ℕ} (hn : k ≤ n)
    (hearly : ∀ j < k, ms (BitVec.ofNat 32 (w.chip.clock.after (j + 1)).tick) < timeout)
    (hlate : ¬ms (BitVec.ofNat 32 (w.chip.clock.after (k + 1)).tick) < timeout) :
    ∃ w', waitDone n timeout w = .ok 0xff w' ∧ w'.chip.clock = w.chip.clock.after (k + 1) := by
  induction k generalizing n w with
  | zero => exact ⟨_, waitDone_late hlate n, rfl⟩
  | succ k ih =>
    obtain ⟨n, rfl⟩ : ∃ m, n = m + 1 := ⟨n - 1, by omega⟩
    rw [(waitDone_early (hearly 0 (by omega))).2 n]
    exact ih (by omega) (fun j hj => hearly (j + 1) (by omega)) hlate

/-- The loop ends at a reading that is late. -/
theorem waitDone_eq_ok {n : ℕ} {rcode : BYTE} {w' : World Ticker}
    (h : waitDone n timeout w = .ok rcode w') :
    rcode = 0xff ∧ w.chip.clock.tick ≤ w'.chip.clock.tick ∧
      ¬ms (BitVec.ofNat 32 w'.chip.clock.tick) < timeout := by
  induction n generalizing w with
  | zero =>
    by_cases hlate : ms (BitVec.ofNat 32 (nextTick w)) < timeout
    · rw [(waitDone_early hlate).1] at h
      cases h
    · rw [waitDone_late hlate] at h
      cases h
      exact ⟨rfl, w.chip.clock.tick_le_next, hlate⟩
  | succ n ih =>
    by_cases hlate : ms (BitVec.ofNat 32 (nextTick w)) < timeout
    · rw [(waitDone_early hlate).2 n] at h
      obtain ⟨hr, htick, hlate'⟩ := ih h
      exact ⟨hr, Nat.le_trans w.chip.clock.tick_le_next htick, hlate'⟩
    · rw [waitDone_late hlate] at h
      cases h
      exact ⟨rfl, w.chip.clock.tick_le_next, hlate⟩

/-- The world after a packet is launched. -/
def launched (token ep : BYTE) (w : World Ticker) : World Ticker where
  chip := w.chip
  host := w.host
  mem := w.mem
  pio := w.pio
  log := .wr rHXFR (token ||| ep) :: w.log

/-- The dispatch is the wait, since it is never answered. -/
theorem xferDispatchPkt_unanswered {fuel : Fuel} (hfuel : 0 < fuel.dispatch) (token ep : BYTE)
    (w : World Ticker) : xferDispatchPkt fuel token ep w =
      waitDone fuel.wait (ms (BitVec.ofNat 32 (nextTick w)) + usbXferTimeout)
        (launched token ep (clockRead w)) := by
  have hlaunch : (maxRegWr rHXFR (token ||| ep) : Prog Ticker Unit) (clockRead w) =
      .ok () (launched token ep (clockRead w)) := rfl
  obtain ⟨d, hd⟩ : ∃ d, fuel.dispatch = d + 1 := ⟨fuel.dispatch - 1, by omega⟩
  rw [xferDispatchPkt, bind_of_ok (altMs_run w), hd, forever, whileLoop,
    bind_of_ok (pure_apply true _), if_pos rfl]
  generalize ms (BitVec.ofNat 32 (nextTick w)) + usbXferTimeout = timeout
  cases hr : waitDone fuel.wait timeout (launched token ep (clockRead w)) with
  | error e w' =>
    have hbody : dispatchRound fuel timeout token ep (0, 0) (clockRead w) = .error e w' := by
      rw [dispatchRound, bind_of_ok hlaunch, bind_of_error hr]
    rw [bind_of_error hbody]
  | ok rcode w' =>
    obtain rfl := (waitDone_eq_ok hr).1
    have hbody : dispatchRound fuel timeout token ep (0, 0) (clockRead w) = .ok (.inr 0xff) w' := by
      rw [dispatchRound, bind_of_ok hlaunch, bind_of_ok hr, if_pos (by decide)]
      rfl
    rw [bind_of_ok hbody]
    rfl

/-- With fuel enough for the wait, the dispatch returns 0xff, 5000 or 5001 ticks behind the
reading from which the deadline is computed. -/
def TimesOut (token ep : BYTE) (w : World Ticker) : Prop :=
  ∃ N, ∀ fuel : Fuel, N ≤ fuel.wait → 0 < fuel.dispatch → ∃ w',
    xferDispatchPkt fuel token ep w = .ok 0xff w' ∧
      nextTick w + 5000 ≤ w'.chip.clock.tick ∧ w'.chip.clock.tick ≤ nextTick w + 5001

theorem timesOut_iff (token ep : BYTE) (w : World Ticker) :
    TimesOut token ep w ↔ product (nextTick w) + 5000000 < 2 ^ 32 := by
  constructor
  · rintro ⟨N, hN⟩
    -- a single dispatch with the longest wait of the bound is enough
    by_contra hlate
    obtain ⟨w', hr, -, hend⟩ := hN ⟨N, 1, 0, 0, 0⟩ (Nat.le_refl N) Nat.one_pos
    rw [xferDispatchPkt_unanswered Nat.one_pos] at hr
    obtain ⟨-, hstart, hreached⟩ := waitDone_eq_ok hr
    rw [lt_deadline_iff, not_not] at hreached
    have hstart : nextTick w ≤ w'.chip.clock.tick := hstart
    exact not_due (Nat.le_refl 5000) (by omega) hstart hend hreached
  · intro hfits
    obtain ⟨hdue, hearly⟩ := due_first (Nat.le_refl 5000) hfits
    -- the clock shows each tick, so one of its readings is the deadline
    obtain ⟨k, htick, hbefore⟩ := w.chip.clock.next.reaches
      (Nat.lt_add_of_pos_right (by decide) : nextTick w < nextTick w + 5000)
    have hrounds (j : ℕ) (hj : j < k) :
        ms (BitVec.ofNat 32 (w.chip.clock.next.after (j + 1)).tick) <
          ms (BitVec.ofNat 32 (nextTick w)) + usbXferTimeout := by
      rw [lt_deadline_iff]
      exact hearly _ (w.chip.clock.next.tick_le_after (j + 1)) (hbefore (j + 1) hj)
    have hlast : ¬ms (BitVec.ofNat 32 (w.chip.clock.next.after (k + 1)).tick) <
        ms (BitVec.ofNat 32 (nextTick w)) + usbXferTimeout := by
      rw [lt_deadline_iff, not_not, htick]
      exact hdue
    refine ⟨k, fun fuel hwait hdispatch => ?_⟩
    rw [xferDispatchPkt_unanswered hdispatch]
    obtain ⟨w', hr, hclock⟩ := waitDone_exits (w := launched token ep (clockRead w)) k hwait hrounds
      hlast
    have hend : w'.chip.clock.tick = nextTick w + 5000 := by
      rw [hclock]
      exact htick
    exact ⟨w', hr, by omega, by omega⟩

end Wait

/-! ## The settle delay -/

section Settle

/-- The world after the declaration of `buf`. -/
def declared (w : World Ticker) : World Ticker where
  chip := w.chip
  host := w.host
  mem := fun o => if o = .buf then fun _ => 0 else w.mem o
  pio := w.pio
  log := w.log

theorem usbTask_inAttached (fuel : Fuel) {w : World Ticker} {s : BYTE}
    (hs : w.host.usbTaskState = s) (hgroup : s &&& usbStateMask = usbStateAttached) :
    usbTask fuel w = attachedTask fuel s (declared w) := by
  have hnot : ¬s &&& usbStateMask = usbStateDetached := by
    rw [hgroup]
    decide
  have hdeclare : (declare .buf : Prog Ticker Unit) w = .ok () (declared w) := rfl
  have hget : (getHost : Prog Ticker Host) (declared w) = .ok w.host (declared w) := rfl
  rw [usbTask, bind_of_ok hdeclare, bind_of_ok hget]
  show (if w.host.usbTaskState &&& usbStateMask = usbStateDetached then _ else
    if w.host.usbTaskState &&& usbStateMask = usbStateAttached then _ else _ : Prog Ticker Unit) _
    = _
  rw [hs, if_neg hnot, if_pos hgroup]

/-- The task waits for the settle delay that began at the tick `t₀`. -/
structure Settling (t₀ : ℕ) (w : World Ticker) : Prop where
  state : w.host.usbTaskState = usbAttachedSubstateSettle
  delay : w.host.usbDelay = ms (BitVec.ofNat 32 t₀) + 200

/-- The call in ATTACHED. -/
theorem usbTask_enters (fuel : Fuel) {w : World Ticker}
    (hs : w.host.usbTaskState = usbStateAttached) :
    ∃ w', usbTask fuel w = .ok () w' ∧ w'.chip.clock = w.chip.clock.next ∧
      Settling (nextTick w) w' := by
  rw [usbTask_inAttached fuel hs (by decide), attachedTask, if_pos rfl,
    bind_of_ok (altMs_run (declared w))]
  exact ⟨_, rfl, rfl, rfl, rfl⟩

/-- A call in SETTLE before the delay is over, and one after. -/
theorem usbTask_settling (fuel : Fuel) {t₀ : ℕ} {w : World Ticker} (hw : Settling t₀ w) :
    ∃ w', usbTask fuel w = .ok () w' ∧ w'.chip.clock = w.chip.clock.next ∧
      (¬Due t₀ 201 (nextTick w) → Settling t₀ w') ∧
      (Due t₀ 201 (nextTick w) → w'.host.usbTaskState = usbAttachedSubstateResetDevice) := by
  have hget : (getHost : Prog Ticker Host) (clockRead (declared w)) =
      .ok w.host (clockRead (declared w)) := rfl
  rw [usbTask_inAttached fuel hw.state (by decide), attachedTask, if_neg (by decide), if_pos rfl,
    bind_of_ok (altMs_run (declared w)), bind_of_ok hget]
  by_cases hlate : ms (BitVec.ofNat 32 (nextTick (declared w))) > w.host.usbDelay
  · rw [if_pos hlate]
    refine ⟨_, rfl, rfl, fun hdue => absurd ?_ hdue, fun _ => rfl⟩
    rwa [hw.delay, gt_iff_lt, deadline_lt_iff] at hlate
  · rw [if_neg hlate]
    refine ⟨_, rfl, rfl, fun _ => ⟨hw.state, hw.delay⟩, fun hdue => absurd ?_ hlate⟩
    rwa [hw.delay, gt_iff_lt, deadline_lt_iff]

/-- From a call in ATTACHED on, the calls after the first find the task in SETTLE until one leaves
it, 200 to 202 ticks behind the reading from which the delay is computed. -/
def Settles (fuel : Fuel) (w : World Ticker) : Prop :=
  ∃ n, (∀ m ≤ n, ∃ w', times (usbTask fuel) (m + 1) w = .ok () w' ∧
      w'.host.usbTaskState = usbAttachedSubstateSettle) ∧
    ∃ w', times (usbTask fuel) (n + 2) w = .ok () w' ∧
      w'.host.usbTaskState = usbAttachedSubstateResetDevice ∧
      nextTick w + 200 ≤ w'.chip.clock.tick ∧ w'.chip.clock.tick ≤ nextTick w + 202

/-- The wait ends at the first reading behind the delay. -/
theorem settling_exits (fuel : Fuel) {t₀ : ℕ} {w : World Ticker} (hw : Settling t₀ w) (k : ℕ)
    (hearly : ∀ j < k, ¬Due t₀ 201 (w.chip.clock.after (j + 1)).tick)
    (hlate : Due t₀ 201 (w.chip.clock.after (k + 1)).tick) :
    (∀ m ≤ k, ∃ w', times (usbTask fuel) m w = .ok () w' ∧
      w'.host.usbTaskState = usbAttachedSubstateSettle) ∧
    ∃ w', times (usbTask fuel) (k + 1) w = .ok () w' ∧
      w'.host.usbTaskState = usbAttachedSubstateResetDevice ∧
      w'.chip.clock = w.chip.clock.after (k + 1) := by
  -- induction on the readings that are too early; each is one call of the task
  obtain ⟨w₁, hr, hclock, hearly₁, hlate₁⟩ := usbTask_settling fuel hw
  induction k generalizing w w₁ with
  | zero =>
    refine ⟨fun m hm => ?_, w₁, ?_, hlate₁ hlate, hclock⟩
    · obtain rfl : m = 0 := by omega
      exact ⟨w, rfl, hw.state⟩
    · rw [times, bind_of_ok hr]
      rfl
  | succ k ih =>
    have hw₁ := hearly₁ (hearly 0 (by omega))
    obtain ⟨w₂, hr₂, hclock₂, hearly₂, hlate₂⟩ := usbTask_settling fuel hw₁
    obtain ⟨hstay, w', hend, hstate, hclock'⟩ := ih hw₁
      (fun j hj => by rw [hclock]; exact hearly (j + 1) (by omega)) (by rw [hclock]; exact hlate)
      w₂ hr₂ hclock₂ hearly₂ hlate₂
    refine ⟨fun m hm => ?_, w', ?_, hstate, ?_⟩
    · cases m with
      | zero => exact ⟨w, rfl, hw.state⟩
      | succ m =>
        rw [times, bind_of_ok hr]
        exact hstay m (by omega)
    · rw [times, bind_of_ok hr]
      exact hend
    · rw [hclock', hclock]
      rfl

/-- The wait ends at a reading behind the delay. -/
theorem settling_only (fuel : Fuel) {t₀ : ℕ} {w w' : World Ticker} (hw : Settling t₀ w) {n : ℕ}
    (hstay : ∀ m ≤ n, ∃ w', times (usbTask fuel) m w = .ok () w' ∧
      w'.host.usbTaskState = usbAttachedSubstateSettle)
    (hr : times (usbTask fuel) (n + 1) w = .ok () w')
    (hstate : w'.host.usbTaskState = usbAttachedSubstateResetDevice) :
    w.chip.clock.tick ≤ w'.chip.clock.tick ∧ Due t₀ 201 w'.chip.clock.tick := by
  induction n generalizing w with
  | zero =>
    obtain ⟨w₁, hr₁, hclock, hearly, -⟩ := usbTask_settling fuel hw
    rw [times, bind_of_ok hr₁] at hr
    obtain rfl : w₁ = w' := by
      cases hr
      rfl
    rw [hclock]
    refine ⟨w.chip.clock.tick_le_next, by_contra fun hnot => ?_⟩
    exact absurd ((hearly hnot).state.symm.trans hstate) (by decide)
  | succ n ih =>
    obtain ⟨w₁, hr₁, hclock, hearly, hlate⟩ := usbTask_settling fuel hw
    obtain ⟨w₂, hr₂, hstate₂⟩ := hstay 1 (by omega)
    obtain rfl : w₁ = w₂ := by
      rw [times, bind_of_ok hr₁] at hr₂
      cases hr₂
      rfl
    have hnot : ¬Due t₀ 201 (nextTick w) := fun hdue =>
      absurd (hstate₂.symm.trans (hlate hdue)) (by decide)
    rw [times, bind_of_ok hr₁] at hr
    obtain ⟨hle, hdue⟩ := ih (hearly hnot) (fun m hm => by
      have hnext := hstay (m + 1) (by omega)
      rwa [times, bind_of_ok hr₁] at hnext) hr
    exact ⟨Nat.le_trans w.chip.clock.tick_le_next (hclock ▸ hle), hdue⟩

theorem settles_iff (fuel : Fuel) {w : World Ticker} (hs : w.host.usbTaskState = usbStateAttached) :
    Settles fuel w ↔ product (nextTick w) + 201000 < 2 ^ 32 := by
  obtain ⟨w₁, hr, hclock, hw₁⟩ := usbTask_enters fuel hs
  have hcalls (m : ℕ) : times (usbTask fuel) (m + 1) w = times (usbTask fuel) m w₁ := by
    rw [times, bind_of_ok hr]
  have htick : w₁.chip.clock.tick = nextTick w := by rw [hclock]; rfl
  constructor
  · rintro ⟨n, hstay, w', hend, hstate, -, hle⟩
    by_contra hlate
    rw [hcalls] at hend
    obtain ⟨hstart, hdue⟩ := settling_only fuel hw₁ (fun m hm => hcalls m ▸ hstay m hm) hend hstate
    rw [htick] at hstart
    exact not_due (by decide) (by omega) hstart hle hdue
  · intro hfits
    obtain ⟨hdue, hearly⟩ := due_first (by decide : 201 ≤ 5000) hfits
    obtain ⟨k, hk, hbefore⟩ :=
      w₁.chip.clock.reaches (by omega : w₁.chip.clock.tick < nextTick w + 201)
    have hrounds (j : ℕ) (hj : j < k) :
        ¬Due (nextTick w) 201 (w₁.chip.clock.after (j + 1)).tick :=
      hearly _ (htick ▸ w₁.chip.clock.tick_le_after (j + 1)) (hbefore (j + 1) hj)
    obtain ⟨hstay, w', hend, hstate, hclock'⟩ := settling_exits fuel hw₁ k hrounds (hk ▸ hdue)
    refine ⟨k, fun m hm => hcalls m ▸ hstay m hm, w', hcalls (k + 1) ▸ hend, hstate, ?_⟩
    rw [hclock', hk]
    omega

end Settle

/-! ## The two waits -/

/-- The task has just entered ATTACHED. -/
def inAttached (w : World Ticker) : World Ticker where
  chip := w.chip
  host := { w.host with usbTaskState := usbStateAttached }
  mem := w.mem
  pio := w.pio
  log := w.log

/-- Each wait ends in time if and only if its deadline comes before the product starts again. -/
theorem waits_in_time_iff (token ep : BYTE) (fuel : Fuel) (w : World Ticker) :
    (TimesOut token ep w ↔ product (nextTick w) + 5000000 < 2 ^ 32) ∧
      (Settles fuel (inAttached w) ↔ product (nextTick w) + 201000 < 2 ^ 32) :=
  ⟨timesOut_iff token ep w, settles_iff fuel rfl⟩

/-- A board that has been on for an hour and 11.6 minutes. -/
def lateClock : World Ticker where
  chip := {
    clock := { tick := 4294799, steps := fun _ => true, goesOn := fun _ => ⟨0, rfl⟩ }
    answers := fun _ => 0 }
  mem := fun _ _ => 0

theorem lateClock_not_in_time :
    ¬TimesOut tokIN 1 lateClock ∧ ¬Settles ⟨9, 9, 9, 9, 9⟩ (inAttached lateClock) := by
  rw [timesOut_iff, settles_iff _ rfl]
  decide

end TetrisFpga.Usb
