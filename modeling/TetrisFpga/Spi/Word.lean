import Mathlib.Algebra.Group.Nat.Defs
import TetrisFpga.Machine.ShiftRegister
import TetrisFpga.Spi.Bus

/-!
# A byte on the wires

`state` counts 18 half periods of `SCLK`, of 10 cycles each. `SCLK` rises at the end of the odd
ones up to 15, and `MISO` is sampled; it falls at the end of the even ones from 2 on, and the
sample is shifted in. So after 180 cycles the byte has gone out, the one that came back is in
`rx_holding_reg`, and `RRDY` is set.

## Main results

- `Flight.iterate`: a countdown from the write of `txdata` to `RRDY`
- `Flight.toReceived`: what the wires have carried then
-/

namespace TetrisFpga.Spi
open Machine
open Usb (BYTE WORD DWORD)

/-- What the wires carry while one byte goes out and another comes in. -/
def word (sent got : BYTE) : List WireBit := (msbFirst sent).zip (msbFirst got)

@[simp] theorem length_word (sent got : BYTE) : (word sent got).length = 8 := by
  simp [word]

namespace Serial

/-- Nothing is being sent and nothing is waiting. -/
structure Rest (s : Serial) : Prop where
  transmitting : s.transmitting = false
  txHoldingPrimed : s.txHoldingPrimed = false
  slowcount : s.slowcount = 0
  state : s.state = 0
  stateZero : s.stateZero = true
  sclkReg : s.sclkReg = false

/-- `SS_n` is held low, and stays low when a byte is sent. -/
structure Selected (s : Serial) : Prop where
  ssoReg : s.ssoReg = true
  spiSlaveSelectReg : s.spiSlaveSelectReg.getLsbD 0 = true
  spiSlaveSelectHoldingReg : s.spiSlaveSelectHoldingReg.getLsbD 0 = true

variable {s : Serial}

theorem Selected.ssN (h : s.Selected) : s.pins.ssN = false := by
  simp [pins, h.ssoReg, h.spiSlaveSelectReg]

/-- Without a strobe the selection stays. -/
theorem Selected.next_free (h : s.Selected) (miso : Bool) : (s.next {} miso).Selected where
  ssoReg := h.ssoReg
  spiSlaveSelectReg := by
    show (if _ then s.spiSlaveSelectHoldingReg else s.spiSlaveSelectReg).getLsbD 0 = true
    split
    · exact h.spiSlaveSelectHoldingReg
    · exact h.spiSlaveSelectReg
  spiSlaveSelectHoldingReg := h.spiSlaveSelectHoldingReg

/-- The effect of a strobe on the serial side at rest. -/
def strike (s : Serial) (c : Strobes) : Serial :=
  { s with
    ssoReg := if c.controlWr then c.dataFromCpu.getLsbD 10 else s.ssoReg
    spiSlaveSelectReg :=
      if c.controlWr && c.dataFromCpu.getLsbD 10 && !s.ssoReg then s.spiSlaveSelectHoldingReg
      else s.spiSlaveSelectReg
    spiSlaveSelectHoldingReg :=
      if c.slaveselectWr then c.dataFromCpu else s.spiSlaveSelectHoldingReg
    rrdy := if c.statusWr || c.dataRd then false else s.rrdy
    roe := if c.statusWr then false else s.roe
    toe := if c.statusWr then false else s.toe
    txHoldingReg := if c.dataWr then c.dataFromCpu.setWidth 8 else s.txHoldingReg
    txHoldingPrimed := c.dataWr }

theorem Rest.next_eq (h : s.Rest) (c : Strobes) (miso : Bool) : s.next c miso = s.strike c := by
  have hslow : s.slowclock = false := by rw [slowclock, h.slowcount]; rfl
  have htrdy : s.trdy = true := by rw [trdy, h.transmitting]; rfl
  -- Without the slow clock nothing moves but what the strobes set.
  simp only [next, strike, lastClock, writeShiftReg, hslow, htrdy, h.transmitting,
    h.txHoldingPrimed, h.slowcount, h.state]
  cases c.dataWr <;> simp

theorem Rest.next_free (h : s.Rest) (miso : Bool) : s.next {} miso = s := by
  rw [h.next_eq]
  show { s with txHoldingPrimed := false } = s
  rw [← h.txHoldingPrimed]

end Serial

section Line

variable {σ : Type} {l : Line σ}

/-! ## The phases of a byte -/

variable (sent : BYTE) (before : List WireBit) (frames : List (List WireBit))

/-- The byte is in `tx_holding_reg`. -/
structure Primed (l : Line σ) : Prop where
  selected : l.serial.Selected
  transmitting : l.serial.transmitting = false
  txHoldingPrimed : l.serial.txHoldingPrimed = true
  slowcount : l.serial.slowcount = 0
  state : l.serial.state = 0
  stateZero : l.serial.stateZero = true
  sclkReg : l.serial.sclkReg = false
  rrdy : l.serial.rrdy = false
  txHoldingReg : l.serial.txHoldingReg = sent
  bits : l.bits = before
  frames : l.frames = frames

/-- The sample that has been taken but not shifted in. -/
def Line.sampled (l : Line σ) : List Bool :=
  if l.serial.sclkReg then [l.serial.misoReg] else []

/-- `m` bits have been sent, and as many sampled. -/
def Line.Carried (m : ℕ) (l : Line σ) : Prop :=
  ∃ got, l.serial.shiftReg = shifted sent got ∧ (got ++ l.sampled).length = m ∧
    l.bits = before ++ (msbFirst sent).zip (got ++ l.sampled)

/-- The byte is on its way, `j` cycles into the half period `k`. -/
structure Sending (k j : ℕ) (l : Line σ) : Prop where
  selected : l.serial.Selected
  transmitting : l.serial.transmitting = true
  txHoldingPrimed : l.serial.txHoldingPrimed = false
  slowcount : l.serial.slowcount = BitVec.ofNat 4 j
  state : l.serial.state = BitVec.ofNat 5 k
  sclkReg : l.serial.sclkReg = decide (k ≠ 0 ∧ k % 2 = 0)
  rrdy : l.serial.rrdy = false
  frames : l.frames = frames
  carried : l.Carried sent before (k / 2)

/-- The byte that came back is in `rx_holding_reg`. -/
structure Received (l : Line σ) : Prop where
  selected : l.serial.Selected
  rest : l.serial.Rest
  rrdy : l.serial.rrdy = true
  frames : l.frames = frames
  bits : l.bits = before ++ word sent l.serial.rxHoldingReg

/-- `n` cycles remain until `RRDY`. -/
inductive Flight : ℕ → Line σ → Prop
  | primed {l : Line σ} (h : Primed sent before frames l) : Flight 181 l
  | sending {k j : ℕ} {l : Line σ} (hk : k ≤ 17) (hj : j ≤ 9)
    (h : Sending sent before frames k j l) : Flight (180 - (10 * k + j)) l
  | received {l : Line σ} (h : Received sent before frames l) : Flight 0 l

variable {sent before frames}

theorem ofNat_beq {w n m : ℕ} (hn : n < 2 ^ w) (hm : m < 2 ^ w) :
    (BitVec.ofNat w n == BitVec.ofNat w m) = decide (n = m) := by
  rw [beq_eq_decide, decide_eq_decide, ← BitVec.toNat_inj, BitVec.toNat_ofNat, BitVec.toNat_ofNat,
    Nat.mod_eq_of_lt hn, Nat.mod_eq_of_lt hm]

theorem Sending.slowclock {k j : ℕ} (h : Sending sent before frames k j l) (hj : j ≤ 9) :
    l.serial.slowclock = decide (j = 9) := by
  rw [Serial.slowclock, h.slowcount]
  exact ofNat_beq (by omega) (by decide)

theorem Sending.state_beq {k j m : ℕ} (h : Sending sent before frames k j l) (hk : k ≤ 17)
    (hm : m ≤ 17) :
    (l.serial.state == BitVec.ofNat 5 m) = decide (k = m) := by
  rw [h.state]
  exact ofNat_beq (by omega) (by omega)

namespace Flight

variable {n : ℕ}

theorem trdy (h : Flight sent before frames n l) : l.serial.trdy = true := by
  cases h with
  | primed h => rw [Serial.trdy, h.transmitting]; rfl
  | sending hk hj h => rw [Serial.trdy, h.txHoldingPrimed, Bool.and_false]; rfl
  | received h => rw [Serial.trdy, h.rest.transmitting]; rfl

/-- `RRDY` shows the end. -/
theorem rrdy (h : Flight sent before frames n l) : l.serial.rrdy = decide (n = 0) := by
  cases h with
  | primed h => exact h.rrdy
  | sending hk hj h =>
    rw [h.rrdy]
    exact (decide_eq_false (by omega)).symm
  | received h => exact h.rrdy

theorem toReceived (h : Flight sent before frames 0 l) : Received sent before frames l := by
  generalize hn : 0 = n at h
  cases h with
  | primed h => omega
  | sending hk hj h => omega
  | received h => exact h

end Flight

/-! ## One cycle -/

variable [Board σ]

/-- At rest only the chip goes on. -/
theorem Serial.Rest.free (h : l.serial.Rest) : l.free.serial = l.serial ∧ l.free.bits = l.bits ∧
    l.free.frames = l.frames := by
  have hserial : l.free.serial = l.serial := h.next_free _
  refine ⟨hserial, ?_, ?_⟩
  · show nextBits l.serial.pins l.free.serial.pins _ _ = _
    rw [hserial, nextBits]
    cases l.serial.pins.ssN <;> cases l.serial.pins.sclk <;> rfl
  · show nextFrames l.serial.pins l.free.serial.pins _ _ = _
    rw [hserial, nextFrames]
    cases l.serial.pins.ssN <;> rfl

theorem Serial.Rest.free_iterate (h : l.serial.Rest) (n : ℕ) :
    (Line.free^[n] l).serial = l.serial ∧ (Line.free^[n] l).bits = l.bits ∧
      (Line.free^[n] l).frames = l.frames := by
  induction n with
  | zero => exact ⟨rfl, rfl, rfl⟩
  | succ n ih =>
    obtain ⟨hs, hb, hf⟩ := ih
    rw [Function.iterate_succ_apply']
    have hrest : (Line.free^[n] l).serial.Rest := hs.symm ▸ h
    obtain ⟨hs', hb', hf'⟩ := hrest.free
    exact ⟨hs'.trans hs, hb'.trans hb, hf'.trans hf⟩

/-- While the port is selected, a frame goes on, and gets a bit where `SCLK` rises. -/
theorem Serial.Selected.free (h : l.serial.Selected) : l.free.serial.Selected ∧
    l.free.frames = l.frames ∧
    l.free.bits =
      if !l.serial.sclkReg && l.free.serial.sclkReg then
        l.bits ++ [(l.free.serial.shiftReg.msb, Board.miso l.chip)]
      else l.bits := by
  have hnext : l.free.serial.Selected := h.next_free _
  refine ⟨hnext, ?_, ?_⟩
  · show nextFrames l.serial.pins l.free.serial.pins _ _ = _
    rw [nextFrames, h.ssN, hnext.ssN]
    rfl
  · show nextBits l.serial.pins l.free.serial.pins _ _ = _
    rw [nextBits, h.ssN, hnext.ssN]
    rfl

theorem Primed.free (h : Primed sent before frames l) : Sending sent before frames 0 0 l.free := by
  obtain ⟨hsel, hframes, hbits⟩ := h.selected.free
  have hslow : l.serial.slowclock = false := by rw [Serial.slowclock, h.slowcount]; rfl
  have hsclk : l.free.serial.sclkReg = false := by
    simp [Line.free, Line.clock, Serial.next, Serial.lastClock, hslow, h.sclkReg]
  have hsampled : l.free.sampled = [] := by rw [Line.sampled, hsclk]; rfl
  refine ⟨hsel, ?_, ?_, ?_, ?_, hsclk, ?_, hframes.trans h.frames, [], ?_, ?_, ?_⟩
  · simp [Line.free, Line.clock, Serial.next, Serial.lastClock, Serial.writeShiftReg, hslow,
      h.transmitting, h.txHoldingPrimed]
  · simp [Line.free, Line.clock, Serial.next, Serial.writeShiftReg, h.transmitting,
      h.txHoldingPrimed]
  · simp [Line.free, Line.clock, Serial.next, h.transmitting]
  · simp [Line.free, Line.clock, Serial.next, h.transmitting, h.state]
  · simp [Line.free, Line.clock, Serial.next, Serial.lastClock, hslow, h.rrdy]
  · simp [Line.free, Line.clock, Serial.next, Serial.writeShiftReg, hslow, h.transmitting,
      h.txHoldingPrimed, h.txHoldingReg, Machine.shifted]
  · rw [hsampled]
    rfl
  · rw [hbits, hsampled, hsclk, h.bits]
    simp

namespace Sending

variable {k j : ℕ}

/-- Within a half period nothing changes but the count. -/
theorem free_mid (h : Sending sent before frames k j l) (hj : j < 9) :
    Sending sent before frames k (j + 1) l.free := by
  obtain ⟨hsel, hframes, hbits⟩ := h.selected.free
  have hslow : l.serial.slowclock = false := by
    rw [h.slowclock (by omega)]
    exact decide_eq_false (by omega)
  have hnext : l.free.serial = { l.serial with slowcount := l.serial.slowcount + 1 } := by
    simp [Line.free, Line.clock, Serial.next, Serial.lastClock, Serial.writeShiftReg, hslow,
      h.transmitting, h.txHoldingPrimed]
  have hsampled : l.free.sampled = l.sampled := by
    rw [Line.sampled, hnext]
    rfl
  obtain ⟨got, hshift, hlen, hline⟩ := h.carried
  refine ⟨hsel, ?_, ?_, ?_, ?_, ?_, ?_, hframes.trans h.frames, got, ?_, ?_, ?_⟩
  · rw [hnext, h.transmitting]
  · rw [hnext, h.txHoldingPrimed]
  · rw [hnext, h.slowcount, BitVec.ofNat_add]
    rfl
  · rw [hnext, h.state]
  · rw [hnext, h.sclkReg]
  · rw [hnext, h.rrdy]
  · rw [hnext, hshift]
  · rw [hsampled, hlen]
  · rw [hbits, hnext, hsampled, hline]
    cases l.serial.sclkReg <;> rfl

/-- The registers after a half period that is not the last. -/
theorem free_end_eq (h : Sending sent before frames k 9 l) (hk : k ≤ 16) :
    l.free.serial = { l.serial with
      slowcount := 0
      state := l.serial.state + 1
      stateZero := false
      shiftReg :=
        if l.serial.sclkReg then l.serial.shiftReg.shiftConcat l.serial.misoReg
        else l.serial.shiftReg
      sclkReg := if k = 0 then l.serial.sclkReg else !l.serial.sclkReg
      misoReg := if l.serial.sclkReg then l.serial.misoReg else Board.miso l.chip } := by
  have hslow : l.serial.slowclock = true := h.slowclock (Nat.le_refl _)
  have hstate : (l.serial.state == 17) = false := by
    have hbeq := h.state_beq (by omega : k ≤ 17) (Nat.le_refl 17)
    exact hbeq.trans (decide_eq_false (by omega))
  have hzero : (l.serial.state == 0) = decide (k = 0) := h.state_beq (by omega) (Nat.zero_le 17)
  have hne : (l.serial.state != 0) = !decide (k = 0) := by rw [bne, hzero]
  simp only [Line.free, Line.clock, Serial.next, Serial.lastClock, Serial.writeShiftReg, hslow,
    hstate, hne, h.transmitting, h.txHoldingPrimed]
  cases l.serial.sclkReg <;> by_cases h0 : k = 0 <;> simp [h0]

/-- `SCLK` after it. -/
theorem free_sclkReg (h : Sending sent before frames k 9 l) (hk : k ≤ 16) :
    l.free.serial.sclkReg = decide (k + 1 ≠ 0 ∧ (k + 1) % 2 = 0) := by
  rw [h.free_end_eq hk]
  show (if k = 0 then l.serial.sclkReg else !l.serial.sclkReg) = _
  rw [h.sclkReg]
  by_cases h0 : k = 0
  · simp [h0]
  · rw [if_neg h0, ← decide_not, decide_eq_decide]
    omega

/-- `SCLK` falls, and the sample goes into the register. -/
theorem free_falls (h : Sending sent before frames k 9 l) (hk : k ≤ 16)
    (hfalls : k ≠ 0 ∧ k % 2 = 0) : l.free.Carried sent before ((k + 1) / 2) := by
  obtain ⟨-, -, hbits⟩ := h.selected.free
  obtain ⟨got, hshift, hlen, hline⟩ := h.carried
  have hsclk : l.serial.sclkReg = true := by
    rw [h.sclkReg]
    exact decide_eq_true hfalls
  have hsclk' : l.free.serial.sclkReg = false := by
    rw [h.free_sclkReg hk]
    exact decide_eq_false (by omega)
  rw [Line.sampled, hsclk, if_pos rfl] at hlen hline
  refine ⟨got ++ [l.serial.misoReg], ?_, ?_, ?_⟩
  · rw [h.free_end_eq hk, hsclk, if_pos rfl, hshift, shifted_concat]
  · rw [Line.sampled, hsclk', if_neg Bool.false_ne_true, List.append_nil, hlen]
    omega
  · rw [Line.sampled, hsclk', if_neg Bool.false_ne_true, List.append_nil, hbits, hsclk, hline]
    rfl

/-- The half period before the first bit. -/
theorem free_begins (h : Sending sent before frames 0 9 l) : l.free.Carried sent before 0 := by
  obtain ⟨-, -, hbits⟩ := h.selected.free
  obtain ⟨got, hshift, hlen, hline⟩ := h.carried
  have hsclk : l.serial.sclkReg = false := h.sclkReg
  have hsclk' : l.free.serial.sclkReg = false := h.free_sclkReg (Nat.zero_le 16)
  rw [Line.sampled, hsclk] at hlen hline
  refine ⟨got, ?_, ?_, ?_⟩
  · rw [h.free_end_eq (Nat.zero_le 16), hsclk, if_neg Bool.false_ne_true, hshift]
  · rw [Line.sampled, hsclk']
    exact hlen
  · rw [Line.sampled, hsclk', hbits, hsclk, hsclk']
    exact hline

/-- `SCLK` rises, and `MISO` is sampled. -/
theorem free_rises (h : Sending sent before frames k 9 l) (hk : k ≤ 16) (hrises : k % 2 = 1) :
    l.free.Carried sent before ((k + 1) / 2) := by
  obtain ⟨-, -, hbits⟩ := h.selected.free
  obtain ⟨got, hshift, hlen, hline⟩ := h.carried
  have hsclk : l.serial.sclkReg = false := by
    rw [h.sclkReg]
    exact decide_eq_false (by omega)
  have hsclk' : l.free.serial.sclkReg = true := by
    rw [h.free_sclkReg hk]
    exact decide_eq_true (by omega)
  have hmiso : l.free.serial.misoReg = Board.miso l.chip := by
    rw [h.free_end_eq hk, hsclk]
    rfl
  have hreg : l.free.serial.shiftReg = shifted sent got := by
    rw [h.free_end_eq hk, hsclk, if_neg Bool.false_ne_true, hshift]
  rw [Line.sampled, hsclk, if_neg Bool.false_ne_true, List.append_nil] at hlen hline
  have hbit : (msbFirst sent)[got.length]? = some l.free.serial.shiftReg.msb := by
    rw [hreg]
    exact msb_shifted sent (by omega)
  refine ⟨got, hreg, ?_, ?_⟩
  · rw [Line.sampled, hsclk', if_pos rfl, List.length_append, List.length_singleton, hlen]
    omega
  · rw [Line.sampled, hsclk', if_pos rfl, hmiso, hbits, hsclk, hsclk', hline, zip_concat hbit]
    simp

theorem free_end (h : Sending sent before frames k 9 l) (hk : k ≤ 16) :
    Sending sent before frames (k + 1) 0 l.free := by
  obtain ⟨hsel, hframes, -⟩ := h.selected.free
  have hnext := h.free_end_eq hk
  refine ⟨hsel, ?_, ?_, ?_, ?_, h.free_sclkReg hk, ?_, hframes.trans h.frames, ?_⟩
  · rw [hnext, h.transmitting]
  · rw [hnext, h.txHoldingPrimed]
  · rw [hnext]
    rfl
  · rw [hnext, h.state, BitVec.ofNat_add]
    rfl
  · rw [hnext, h.rrdy]
  · by_cases hrises : k % 2 = 1
    · exact h.free_rises hk hrises
    · by_cases h0 : k = 0
      · subst h0
        exact h.free_begins
      · exact h.free_falls hk ⟨h0, by omega⟩

/-- The end of the last half period. -/
theorem free_last (h : Sending sent before frames 17 9 l) : Received sent before frames l.free := by
  obtain ⟨hsel, hframes, hbits⟩ := h.selected.free
  have hsclk : l.serial.sclkReg = false := h.sclkReg
  have hslow : l.serial.slowclock = true := h.slowclock (Nat.le_refl 9)
  have hstate : (l.serial.state == 17) = true := h.state_beq (Nat.le_refl 17) (Nat.le_refl 17)
  have hlast : l.serial.lastClock = true := by rw [Serial.lastClock, hslow, hstate]; rfl
  obtain ⟨got, hshift, hlen, hline⟩ := h.carried
  rw [Line.sampled, hsclk, if_neg Bool.false_ne_true, List.append_nil] at hlen hline
  have hrx : l.free.serial.rxHoldingReg = shifted sent got := by
    simp [Line.free, Line.clock, Serial.next, hlast, hshift]
  have hstops : l.free.serial.sclkReg = false := by
    simp [Line.free, Line.clock, Serial.next, hlast]
  refine ⟨hsel, ⟨?_, ?_, ?_, ?_, ?_, hstops⟩, ?_, hframes.trans h.frames, ?_⟩
  · simp [Line.free, Line.clock, Serial.next, hlast]
  · simp [Line.free, Line.clock, Serial.next, Serial.writeShiftReg, h.transmitting,
      h.txHoldingPrimed]
  · simp [Line.free, Line.clock, Serial.next, hslow]
  · simp [Line.free, Line.clock, Serial.next, hslow, h.state, h.transmitting]
  · simp [Line.free, Line.clock, Serial.next, hslow, h.state, h.transmitting]
  · simp [Line.free, Line.clock, Serial.next, hlast]
  · rw [hbits, hsclk, hstops, hrx, word, msbFirst_shifted sent hlen]
    exact hline

end Sending

/-- Without a strobe, a byte that came back stays where it is. -/
theorem Received.free (h : Received sent before frames l) : Received sent before frames l.free := by
  obtain ⟨hserial, hbits, hframes⟩ := h.rest.free
  refine ⟨hserial ▸ h.selected, hserial ▸ h.rest, hserial ▸ h.rrdy, hframes.trans h.frames, ?_⟩
  rw [hbits, hserial, h.bits]

namespace Flight

variable {n : ℕ}

theorem free (h : Flight sent before frames n l) : Flight sent before frames (n - 1) l.free := by
  cases h with
  | primed h => exact .sending (Nat.zero_le 17) (Nat.zero_le 9) h.free
  | @sending k j _ hk hj h =>
    -- Of the 180 cycles, those before the half period `k` and `j` more are over.
    by_cases hmid : j < 9
    · have hnext := Flight.sending hk hmid (h.free_mid hmid)
      rwa [show 10 * k + j.succ = 10 * k + j + 1 from rfl, ← Nat.sub_sub] at hnext
    · obtain rfl : j = 9 := by omega
      by_cases hend : k ≤ 16
      · have hnext := Flight.sending (Nat.succ_le_succ hend) (Nat.zero_le 9) (h.free_end hend)
        rwa [show 10 * (k + 1) + 0 = 10 * k + 9 + 1 by omega, ← Nat.sub_sub] at hnext
      · obtain rfl : k = 17 := by omega
        exact .received h.free_last
  | received h => exact .received h.free

theorem iterate (h : Flight sent before frames n l) (m : ℕ) :
    Flight sent before frames (n - m) (Line.free^[m] l) := by
  induction m with
  | zero => exact h
  | succ m ih =>
    rw [Function.iterate_succ_apply', ← Nat.sub_sub]
    exact ih.free

end Flight

end Line

end TetrisFpga.Spi
