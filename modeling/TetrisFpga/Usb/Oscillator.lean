import Mathlib.Data.Nat.Find
import TetrisFpga.Usb.Tasks

/-!
# The wait for the oscillator

`MAX3421E_reset` counts the readings of `USBIRQ` in a byte, but leaves the loop only where
`bmOSCOKIRQ` is set: the wrap of the count is printed and the wait goes on. So the wait is as
long as the oscillator takes, and has no end if it never starts.
-/

namespace TetrisFpga.Usb
open Program

section Oscillator

variable {χ : Type} [Platform χ]

/-- The chip after `k` more reads of `USBIRQ`. -/
def usbirqPolled (c : χ) : ℕ → χ
  | 0 => c
  | k + 1 => usbirqPolled (Platform.rd c rUSBIRQ).2 k

/-- The `k`-th of the next reads of `USBIRQ`, counted from 0, shows `bmOSCOKIRQ`. -/
def ShowsOscillator (c : χ) (k : ℕ) : Prop :=
  (Platform.rd (usbirqPolled c k) rUSBIRQ).1 &&& bmOSCOKIRQ ≠ 0

instance (c : χ) (k : ℕ) : Decidable (ShowsOscillator c k) := inferInstanceAs (Decidable (_ ≠ _))

omit [Platform χ] in
/-- A read of `USBIRQ`. -/
def Event.isUsbirqRead : Event → Bool
  | .rd reg _ => decide (reg = rUSBIRQ)
  | _ => false

def usbirqReads (log : List Event) : ℕ := log.countP Event.isUsbirqRead

/-- With fuel enough `x` ends, and it reads `USBIRQ` at most `n` times. -/
def EndsWithin (n : ℕ) (x : Fuel → Prog χ Unit) (w : World χ) : Prop :=
  ∃ N, ∀ fuel : Fuel, N ≤ fuel.reset →
    ∃ w', x fuel { w with log := [] } = .ok () w' ∧ usbirqReads w'.log ≤ n

/-! ## The loop -/

/-- The loop from a count of `tmp`. -/
def waitOscillatorFrom (n : ℕ) (tmp : BYTE) : Prog χ Unit :=
  whileLoop .reset (fun _ => do return decide ((← maxRegRd rUSBIRQ) &&& bmOSCOKIRQ = 0))
    (fun tmp : BYTE => pure (.inl (tmp + 1))) (fun _ => pure ()) n tmp

theorem usbirqReads_afterRd (w : World χ) :
    usbirqReads (w.afterRd rUSBIRQ).log = usbirqReads w.log + 1 := List.countP_cons_of_pos rfl

theorem waitOscillator_test (w : World χ) :
    (do return decide ((← maxRegRd rUSBIRQ) &&& bmOSCOKIRQ = 0) : Prog χ Bool) w =
      .ok (decide ¬ShowsOscillator w.chip 0) (w.afterRd rUSBIRQ) := by
  simp only [ShowsOscillator, usbirqPolled, ne_eq, Decidable.not_not]
  rfl

/-- The loop ends at the first read that shows the bit, whatever its count. -/
theorem waitOscillator_ends {k n : ℕ} (hn : k ≤ n) {w : World χ}
    (hk : ShowsOscillator w.chip k) (hbefore : ∀ j < k, ¬ShowsOscillator w.chip j) (tmp : BYTE) :
    ∃ w', waitOscillatorFrom n tmp w = .ok () w' ∧
      usbirqReads w'.log = usbirqReads w.log + (k + 1) := by
  induction k generalizing n w tmp with
  | zero =>
    have htest := waitOscillator_test w
    rw [decide_eq_false (not_not_intro hk)] at htest
    refine ⟨w.afterRd rUSBIRQ, ?_, usbirqReads_afterRd w⟩
    cases n with
    | zero => exact bind_of_ok htest _
    | succ n => exact bind_of_ok htest _
  | succ k ih =>
    obtain ⟨n, rfl⟩ : ∃ m, n = m + 1 := ⟨n - 1, by omega⟩
    have htest := waitOscillator_test w
    rw [decide_eq_true (hbefore 0 (Nat.succ_pos k))] at htest
    obtain ⟨w', hr, hreads⟩ := ih (n := n) (w := w.afterRd rUSBIRQ) (by omega) hk
      (fun j hj => hbefore (j + 1) (by omega)) (tmp + 1)
    refine ⟨w', (bind_of_ok htest _).trans hr, ?_⟩
    rw [hreads, usbirqReads_afterRd]
    omega

/-- Without the bit the loop uses up any fuel. -/
theorem waitOscillator_spins {n : ℕ} {w : World χ}
    (hnever : ∀ k ≤ n, ¬ShowsOscillator w.chip k) (tmp : BYTE) :
    ∃ w', waitOscillatorFrom n tmp w = .error .reset w' := by
  induction n generalizing w tmp with
  | zero =>
    have htest := waitOscillator_test w
    rw [decide_eq_true (hnever 0 (Nat.le_refl 0))] at htest
    exact ⟨_, bind_of_ok htest _⟩
  | succ n ih =>
    have htest := waitOscillator_test w
    rw [decide_eq_true (hnever 0 (Nat.zero_le _))] at htest
    obtain ⟨w', hr⟩ := ih (w := w.afterRd rUSBIRQ) (fun k hk => hnever (k + 1) (by omega)) (tmp + 1)
    exact ⟨w', (bind_of_ok htest _).trans hr⟩

/-! ## What goes before the loop and after it -/

/-- `x` waits for the oscillator of a chip in the state `start c`, where it is started with the
chip in `c`. -/
structure AwaitsOscillator (start : χ → χ) (x : Fuel → Prog χ Unit) : Prop where
  ends : ∀ (fuel : Fuel) (w : World χ) (k : ℕ), k ≤ fuel.reset →
    ShowsOscillator (start w.chip) k → (∀ j < k, ¬ShowsOscillator (start w.chip) j) →
    ∃ w', x fuel w = .ok () w' ∧ usbirqReads w'.log = usbirqReads w.log + (k + 1)
  spins : ∀ (fuel : Fuel) (w : World χ), (∀ k ≤ fuel.reset, ¬ShowsOscillator (start w.chip) k) →
    ∃ w', x fuel w = .error .reset w'

/-- `x` ends with a value and does not read `USBIRQ`. -/
def EndsUnread {α : Type} (x : Prog χ α) : Prop :=
  ∀ w, ∃ a w', x w = .ok a w' ∧ usbirqReads w'.log = usbirqReads w.log

theorem awaits_waitOscillator :
    AwaitsOscillator id fun fuel => (waitOscillator fuel.reset : Prog χ Unit) where
  ends _ _ _ hn hk hbefore := waitOscillator_ends hn hk hbefore 0
  spins _ _ hnever := waitOscillator_spins hnever 0

namespace AwaitsOscillator

variable {start : χ → χ} {x : Fuel → Prog χ Unit}

theorem after (h : AwaitsOscillator start x) {α : Type} {y : Prog χ α} {f : χ → χ}
    (hy : ∀ w, ∃ a w', y w = .ok a w' ∧ w'.chip = f w.chip ∧
      usbirqReads w'.log = usbirqReads w.log) :
    AwaitsOscillator (fun c => start (f c)) fun fuel => y >>= fun _ => x fuel where
  ends fuel w k hn hk hbefore := by
    obtain ⟨a, w₁, hr, hchip, hreads⟩ := hy w
    rw [← hchip] at hk hbefore
    obtain ⟨w₂, hr', hreads'⟩ := h.ends fuel w₁ k hn hk hbefore
    exact ⟨w₂, (bind_of_ok hr _).trans hr', hreads'.trans (by rw [hreads])⟩
  spins fuel w hnever := by
    obtain ⟨a, w₁, hr, hchip, -⟩ := hy w
    rw [← hchip] at hnever
    obtain ⟨w₂, hr'⟩ := h.spins fuel w₁ hnever
    exact ⟨w₂, (bind_of_ok hr _).trans hr'⟩

theorem before (h : AwaitsOscillator start x) {y : Prog χ Unit} (hy : EndsUnread y) :
    AwaitsOscillator start fun fuel => x fuel >>= fun _ => y where
  ends fuel w k hn hk hbefore := by
    obtain ⟨w₁, hr, hreads⟩ := h.ends fuel w k hn hk hbefore
    obtain ⟨a, w₂, hr', hreads'⟩ := hy w₁
    exact ⟨w₂, (bind_of_ok hr _).trans hr', hreads'.trans hreads⟩
  spins fuel w hnever := by
    obtain ⟨w₁, hr⟩ := h.spins fuel w hnever
    exact ⟨w₁, bind_of_error hr _⟩

theorem afterWr (h : AwaitsOscillator start x) (reg val : BYTE) :
    AwaitsOscillator (fun c => start (Platform.wr c reg val))
      fun fuel => maxRegWr reg val >>= fun _ => x fuel :=
  h.after fun _ => ⟨_, _, rfl, rfl, rfl⟩

theorem afterUsbRst (h : AwaitsOscillator start x) (val : BYTE) :
    AwaitsOscillator start fun fuel => usbRst val >>= fun _ => x fuel :=
  h.after (f := id) fun _ => ⟨_, _, rfl, rfl, rfl⟩

theorem afterSetHost (h : AwaitsOscillator start x) (f : Host → Host) :
    AwaitsOscillator start fun fuel => setHost f >>= fun _ => x fuel :=
  h.after (f := id) fun _ => ⟨_, _, rfl, rfl, rfl⟩

/-- Such a program ends after `n` reads at most if and only if one of them shows the bit. -/
theorem endsWithin_iff (h : AwaitsOscillator start x) (n : ℕ) (w : World χ) :
    EndsWithin n x w ↔ ∃ k < n, ShowsOscillator (start w.chip) k := by
  constructor
  · rintro ⟨N, hN⟩
    by_contra hnone
    by_cases hsome : ∃ k, ShowsOscillator (start w.chip) k
    · -- the bit comes later, and so late the loop ends
      have hfirst := Nat.find_spec hsome
      obtain ⟨w', hr, hreads⟩ := hN ⟨0, 0, 0, 0, max N (Nat.find hsome)⟩ (Nat.le_max_left _ _)
      obtain ⟨w'', hr', hreads'⟩ := h.ends ⟨0, 0, 0, 0, max N (Nat.find hsome)⟩
        { w with log := [] } (Nat.find hsome) (Nat.le_max_right _ _) hfirst
        fun j hj => Nat.find_min hsome hj
      cases hr.symm.trans hr'
      have hlate : ¬Nat.find hsome < n := fun hlt => hnone ⟨_, hlt, hfirst⟩
      have hempty : usbirqReads ({ w with log := [] } : World χ).log = 0 := rfl
      omega
    · obtain ⟨w', hr, -⟩ := hN ⟨0, 0, 0, 0, N⟩ (Nat.le_refl N)
      obtain ⟨w'', hr'⟩ := h.spins ⟨0, 0, 0, 0, N⟩ { w with log := [] }
        fun k _ hk => hsome ⟨k, hk⟩
      cases hr.symm.trans hr'
  · rintro ⟨k, hk, hshows⟩
    have hsome : ∃ k, ShowsOscillator (start w.chip) k := ⟨k, hshows⟩
    have hle : Nat.find hsome ≤ k := Nat.find_le hshows
    refine ⟨k, fun fuel hfuel => ?_⟩
    obtain ⟨w', hr, hreads⟩ := h.ends fuel { w with log := [] } (Nat.find hsome)
      (Nat.le_trans hle hfuel) (Nat.find_spec hsome) fun j hj => Nat.find_min hsome hj
    refine ⟨w', hr, ?_⟩
    have hempty : usbirqReads ({ w with log := [] } : World χ).log = 0 := rfl
    omega

end AwaitsOscillator

/-! ## The reset and what uses it -/

/-- The chip after its software reset. -/
def chipReset (c : χ) : χ := Platform.wr (Platform.wr c rUSBCTL bmCHIPRES) rUSBCTL 0x00

/-- The chip where `MAX3421E_init` waits. -/
def initReset (c : χ) : χ :=
  chipReset (Platform.wr c rPINCTL (bmFDUPSPI + bmINTLEVEL + bmGPXB))

theorem awaits_max3421eReset : AwaitsOscillator chipReset (max3421eReset (χ := χ)) :=
  (((awaits_waitOscillator.afterWr _ _).afterWr _ _).afterUsbRst 1).afterUsbRst 0

omit [Platform χ] in
theorem closed_endsUnread : Closed fun _ => EndsUnread (χ := χ) where
  pure a w := ⟨a, w, rfl, rfl⟩
  bind hx hf w := by
    obtain ⟨a, w₁, hr, hreads⟩ := hx w
    obtain ⟨b, w₂, hr', hreads'⟩ := hf a w₁
    exact ⟨b, w₂, (bind_of_ok hr _).trans hr', hreads'.trans hreads⟩

theorem endsUnread_maxRegWr (reg val : BYTE) : EndsUnread (maxRegWr reg val : Prog χ Unit) :=
  fun _ => ⟨_, _, rfl, rfl⟩

omit [Platform χ] in
theorem endsUnread_setHost (f : Host → Host) : EndsUnread (setHost f : Prog χ Unit) :=
  fun _ => ⟨_, _, rfl, rfl⟩

theorem endsUnread_maxRegRd {reg : BYTE} (h : reg ≠ rUSBIRQ) :
    EndsUnread (maxRegRd reg : Prog χ BYTE) := by
  have hother (val : BYTE) : ¬Event.isUsbirqRead (.rd reg val) = true := by
    simpa [Event.isUsbirqRead] using h
  exact fun _ => ⟨_, _, rfl, List.countP_cons_of_neg (hother _)⟩

theorem awaits_max3421eInit : AwaitsOscillator initReset (max3421eInit (χ := χ)) := by
  have hC : Closed fun _ => EndsUnread (χ := χ) := closed_endsUnread
  refine AwaitsOscillator.afterWr (awaits_max3421eReset.before ?_) _ _
  refine hC.bind (endsUnread_maxRegWr _ _) fun _ => hC.bind (endsUnread_maxRegWr _ _) fun _ => ?_
  refine hC.bind (endsUnread_maxRegWr _ _) fun _ => hC.bind (endsUnread_maxRegWr _ _) fun _ => ?_
  refine hC.bind (maxBusprobe_mem hC (fun _ => endsUnread_maxRegRd) (endsUnread_maxRegWr _)
    (fun _ => ⟨_, _, rfl, rfl⟩) fun _ _ => endsUnread_setHost _) fun _ => ?_
  exact hC.bind (endsUnread_maxRegWr _ _) fun _ => endsUnread_maxRegWr _ _

theorem awaits_restart : AwaitsOscillator initReset (restart (χ := χ)) :=
  (awaits_max3421eInit.before (usbInit_mem closed_endsUnread fun _ _ => endsUnread_setHost _))
    |>.afterSetHost _

/-- The reset, the initialisation and the recovery in `main` end after 256 reads if and only if
one of these shows that the oscillator runs. -/
theorem reset_endsWithin_iff (w : World χ) :
    (EndsWithin 256 max3421eReset w ↔ ∃ k < 256, ShowsOscillator (chipReset w.chip) k) ∧
    (EndsWithin 256 max3421eInit w ↔ ∃ k < 256, ShowsOscillator (initReset w.chip) k) ∧
    (EndsWithin 256 restart w ↔ ∃ k < 256, ShowsOscillator (initReset w.chip) k) :=
  ⟨awaits_max3421eReset.endsWithin_iff 256 w, awaits_max3421eInit.endsWithin_iff 256 w,
    awaits_restart.endsWithin_iff 256 w⟩

end Oscillator

/-! ## An oscillator that never starts -/

/-- A board on which every register reads 0. -/
def silentBoard : World Script where
  chip := {}
  mem := fun _ _ => 0

theorem silentBoard_shows (k : ℕ) : ¬ShowsOscillator (chipReset silentBoard.chip) k := by
  have hpolled : usbirqPolled (chipReset silentBoard.chip) k = silentBoard.chip := by
    induction k with
    | zero => rfl
    | succ k ih => exact ih
  rw [ShowsOscillator, hpolled]
  decide

/-- The wait has no end, whatever the count. -/
theorem reset_without_oscillator :
    (∀ fuel, ∃ w', max3421eReset fuel silentBoard = .error .reset w') ∧
      ¬EndsWithin 256 max3421eReset silentBoard ∧ ¬EndsWithin 256 max3421eInit silentBoard ∧
      ¬EndsWithin 256 restart silentBoard := by
  have hnever : ¬∃ k < 256, ShowsOscillator (chipReset silentBoard.chip) k := by
    rintro ⟨k, -, hk⟩
    exact silentBoard_shows k hk
  refine ⟨fun fuel => awaits_max3421eReset.spins fuel _ fun k _ => silentBoard_shows k, ?_, ?_, ?_⟩
  · rwa [awaits_max3421eReset.endsWithin_iff]
  · rwa [awaits_max3421eInit.endsWithin_iff]
  · rwa [awaits_restart.endsWithin_iff]

end TetrisFpga.Usb
