import TetrisFpga.Spi.Command

/-!
# The driver's accesses

Each access of the driver as a step between four situations: the chip is not selected (`Idle`),
a frame is open (`Open`), nothing is left to read besides (`Clear`), a byte is on its way
(`Busy`). A poll of the status takes two cycles at least, so a wait for a byte needs 92 polls at
most.

## Main results

- `clear_txdata`, `busy_waitReady`, `busy_rxdata`: a byte goes out, and another comes in
- `before_control`, `after_control`: a frame is opened and released
-/

namespace TetrisFpga.Spi
open Program Machine
open Usb (BYTE WORD DWORD)

/-! ## Status bits -/

/-- What the driver's masks take out of the status. -/
theorem spiStatus_masks (f : Front) (s : Serial) :
    ((f.spiStatus s).setWidth 32 &&& statusRrdyMsk = 0 ↔ s.rrdy = false) ∧
      ((f.spiStatus s).setWidth 32 &&& statusTrdyMsk = 0 ↔ s.trdy = false) ∧
      ((f.spiStatus s).setWidth 32 &&& statusTmtMsk = 0 ↔ s.tmt = false) := by
  unfold Front.spiStatus
  generalize f.eop = eop, (s.roe || s.toe) = e, s.rrdy = rrdy, s.trdy = trdy, s.tmt = tmt,
    s.toe = toe, s.roe = roe
  revert eop e rrdy trdy tmt toe roe
  decide

/-! ## Accesses -/

section Access

variable {σ : Type} [Board σ] {b : Bus σ}

/-- An access to a port at rest. -/
theorem access_rest (hlow : b.front.Low) (hrest : b.line.serial.Rest) (a : Access) :
    (b.access a).2.front.Low ∧
      (b.access a).2.line.serial = b.line.serial.strike a.strobes ∧
      (b.access a).2.line.frames = nextFrames b.line.serial.pins
        (b.line.serial.strike a.strobes).pins b.line.bits b.line.frames ∧
      (b.access a).2.line.bits = (if b.line.serial.pins.ssN &&
        !(b.line.serial.strike a.strobes).pins.ssN then [] else b.line.bits) ∧
      ∃ f : Front, (b.access a).1 = f.p1DataToCpu b.line.serial a.avalon.memAddr := by
  obtain ⟨hfront, hline, f, hval⟩ := access_eq hlow a
  obtain ⟨hs, hb, hf⟩ := hrest.free_iterate (Board.delay b.line.chip + 1)
  have hstrike (miso : Bool) :
      b.line.serial.next a.strobes miso = b.line.serial.strike a.strobes := hrest.next_eq _ miso
  refine ⟨hfront, ?_, ?_, ?_, f, ?_⟩
  · rw [hline]
    show Serial.next _ _ _ = _
    rw [hs, hstrike]
  · rw [hline]
    show nextFrames _ (Serial.next _ _ _).pins _ _ = _
    rw [hs, hb, hf, hstrike]
  · rw [hline]
    show nextBits _ (Serial.next _ _ _).pins _ _ = _
    have hsclk : (b.line.serial.strike a.strobes).pins.sclk = false := hrest.sclkReg
    rw [hs, hb, hstrike, nextBits, hsclk, Bool.and_false, if_neg Bool.false_ne_true]
  · rw [hval, (hrest.free_iterate _).1]

/-- A read of the status during the countdown. -/
theorem access_flight {sent : BYTE} {before : List WireBit} {frames : List (List WireBit)} {n : ℕ}
    (hlow : b.front.Low) (h : Flight sent before frames n b.line) :
    (b.access .rdStatus).2.front.Low ∧ ∃ m ≤ n, ∃ (f : Front) (s : Serial),
      (b.access .rdStatus).1 = f.spiStatus s ∧ s.trdy = true ∧ s.rrdy = decide (m = 0) ∧
      Flight sent before frames (m - 2) (b.access .rdStatus).2.line := by
  obtain ⟨hfront, hline, f, hval⟩ := access_eq hlow .rdStatus
  have hthen := h.iterate (Board.delay b.line.chip)
  refine ⟨hfront, n - Board.delay b.line.chip, Nat.sub_le _ _, f, _, hval, hthen.trdy, hthen.rrdy,
    ?_⟩
  rw [hline, Function.iterate_succ_apply']
  exact hthen.free.free

end Access

/-! ## The wires and the memory -/

section Record

variable {σ ω : Type}

/-- What a run leaves on the wires, in memory and on the console. -/
structure Record (ω : Type) where
  bits : List WireBit
  frames : List (List WireBit)
  mem : Memory ω
  out : List String

def World.record (w : World σ ω) : Record ω := ⟨w.bus.line.bits, w.bus.line.frames, w.mem, w.out⟩

/-- The chip is not selected. -/
structure Idle (r : Record ω) (w : World σ ω) : Prop where
  low : w.bus.front.Low
  rest : w.bus.line.serial.Rest
  ssoReg : w.bus.line.serial.ssoReg = false
  record : w.record = r

/-- A frame is open. -/
structure Open (r : Record ω) (w : World σ ω) : Prop where
  low : w.bus.front.Low
  rest : w.bus.line.serial.Rest
  selected : w.bus.line.serial.Selected
  record : w.record = r

/-- A frame is open, and no byte has come in that has not been read. -/
structure Clear (r : Record ω) (w : World σ ω) : Prop extends Open r w where
  rrdy : w.bus.line.serial.rrdy = false

/-- A byte is on its way in an open frame, `n` cycles before its end. -/
structure Busy (r : Record ω) (sent : BYTE) (n : ℕ) (w : World σ ω) : Prop where
  low : w.bus.front.Low
  flight : Flight sent r.bits r.frames n w.bus.line
  mem : w.mem = r.mem
  out : w.out = r.out

variable {r : Record ω}

theorem Serial.Rest.tmt {s : Serial} (h : s.Rest) : s.tmt = true := by
  rw [Serial.tmt, h.transmitting, h.txHoldingPrimed]
  rfl

theorem Serial.Rest.trdy {s : Serial} (h : s.Rest) : s.trdy = true := by
  rw [Serial.trdy, h.transmitting]
  rfl

/-- At rest a strobe leaves the port at rest, unless it brings a byte. -/
theorem Serial.Rest.strike {s : Serial} (h : s.Rest) {c : Strobes} (hc : c.dataWr = false) :
    (s.strike c).Rest where
  transmitting := h.transmitting
  txHoldingPrimed := hc
  slowcount := h.slowcount
  state := h.state
  stateZero := h.stateZero
  sclkReg := h.sclkReg

/-- The chip stays selected unless a strobe writes to the registers that select it. -/
theorem Serial.Selected.strike {s : Serial} (h : s.Selected) {c : Strobes}
    (hcontrol : c.controlWr = false) (hslave : c.slaveselectWr = false) :
    (s.strike c).Selected := by
  constructor <;> simp [Serial.strike, hcontrol, hslave, h.ssoReg, h.spiSlaveSelectReg,
    h.spiSlaveSelectHoldingReg]

theorem Serial.Rest.ssN {s : Serial} (h : s.Rest) (hsso : s.ssoReg = false) :
    s.pins.ssN = true := by
  rw [Serial.pins, Serial.enableSS, h.transmitting, hsso]
  rfl

/-- Where a command with the flags `flags` may start: in an open frame, or with a frame of its
own. -/
def Before (flags : DWORD) (r : Record ω) (w : World σ ω) : Prop :=
  Open r w ∨ flags &&& commandToggleSsN = 0 ∧ r.bits = [] ∧ ∃ bits, Idle { r with bits } w

/-- Where it ends. -/
def After (flags : DWORD) (r : Record ω) (w : World σ ω) : Prop :=
  if flags &&& commandMerge = 0 then Idle { r with frames := r.frames ++ [r.bits] } w
  else Open r w

variable [Board σ]

/-! ### Strobes at rest -/

/-- A strobe that leaves the chip selected is not seen on the wires. -/
theorem Open.access {w : World σ ω} (h : Open r w) (a : Access) (hdata : a.strobes.dataWr = false)
    (hsel : (w.bus.line.serial.strike a.strobes).Selected) :
    Open r { w with bus := (w.bus.access a).2 } := by
  obtain ⟨hlow, hserial, hframes, hbits, -⟩ := access_rest h.low h.rest a
  refine ⟨hlow, ?_, ?_, ?_⟩
  · rw [hserial]
    exact h.rest.strike hdata
  · rw [hserial]
    exact hsel
  · rw [← h.record]
    simp only [World.record, hframes, hbits, nextFrames, h.selected.ssN, hsel.ssN]
    rfl

theorem open_slaveSel : Succeeds (Open r) (iowr (.wrSlaveSel 1) : Prog σ ω Unit)
    fun _ => Open r := by
  intro w h
  have hholding : (1 : WORD).getLsbD 0 = true := by decide
  exact ⟨(), _, rfl, h.access _ rfl ⟨h.selected.ssoReg, h.selected.spiSlaveSelectReg, hholding⟩⟩

theorem open_control : Succeeds (Open r) (iowr (.wrControl controlSsoMsk) : Prog σ ω Unit)
    fun _ => Open r := by
  intro w h
  refine ⟨(), _, rfl, h.access _ rfl ⟨rfl, ?_, h.selected.spiSlaveSelectHoldingReg⟩⟩
  simp [Serial.strike, Access.strobes, h.selected.ssoReg, h.selected.spiSlaveSelectReg]

/-- A read of `rxdata` clears `RRDY`. -/
theorem open_rxdata (rx : BYTE) :
    Succeeds (fun w => Open r w ∧ w.bus.line.serial.rxHoldingReg = rx)
      (iord .rdRxdata : Prog σ ω DWORD) fun val w => val.setWidth 8 = rx ∧ Clear r w := by
  intro w ⟨h, hrx⟩
  have hsel := h.selected.strike (c := Access.rdRxdata.strobes) rfl rfl
  obtain ⟨-, hserial, -, -, f, hval⟩ := access_rest h.low h.rest .rdRxdata
  refine ⟨_, _, rfl, ?_, h.access _ rfl hsel, ?_⟩
  · show ((w.bus.access .rdRxdata).1.setWidth 32).setWidth 8 = rx
    rw [hval, ← hrx]
    show ((w.bus.line.serial.rxHoldingReg.setWidth 16).setWidth 32).setWidth 8 = _
    simp
  · show (w.bus.access .rdRxdata).2.line.serial.rrdy = false
    rw [hserial]
    rfl

theorem idle_slaveSel : Succeeds (Idle r) (iowr (.wrSlaveSel 1) : Prog σ ω Unit)
    fun _ w => Idle r w ∧ w.bus.line.serial.spiSlaveSelectHoldingReg.getLsbD 0 = true := by
  intro w h
  obtain ⟨hlow, hserial, hframes, hbits, -⟩ := access_rest h.low h.rest (.wrSlaveSel 1)
  have hssN := h.rest.ssN h.ssoReg
  have hrest := h.rest.strike (c := (Access.wrSlaveSel 1).strobes) rfl
  have hssN' := hrest.ssN h.ssoReg
  refine ⟨(), _, rfl, ⟨hlow, ?_, ?_, ?_⟩, ?_⟩
  · rw [hserial]
    exact hrest
  · rw [hserial]
    exact h.ssoReg
  · rw [← h.record]
    simp only [World.record, hframes, hbits, nextFrames, hssN, hssN']
    rfl
  · rw [hserial]
    show (1 : WORD).getLsbD 0 = true
    decide

/-- The chip is selected: a frame begins. -/
theorem idle_control : Succeeds
    (fun w => Idle r w ∧ w.bus.line.serial.spiSlaveSelectHoldingReg.getLsbD 0 = true)
    (iowr (.wrControl controlSsoMsk) : Prog σ ω Unit) fun _ => Open { r with bits := [] } := by
  intro w ⟨h, hholding⟩
  obtain ⟨hlow, hserial, hframes, hbits, -⟩ := access_rest h.low h.rest (.wrControl controlSsoMsk)
  have hssN := h.rest.ssN h.ssoReg
  have hsel : (w.bus.line.serial.strike (Access.wrControl controlSsoMsk).strobes).Selected := by
    refine ⟨rfl, ?_, hholding⟩
    simp only [Serial.strike, Access.strobes, h.ssoReg]
    exact hholding
  refine ⟨(), _, rfl, hlow, ?_, ?_, ?_⟩
  · rw [hserial]
    exact h.rest.strike rfl
  · rw [hserial]
    exact hsel
  · rw [← h.record]
    simp only [World.record, hframes, hbits, nextFrames, hssN, hsel.ssN]
    rfl

/-- The chip is released: the frame is over. -/
theorem open_release : Succeeds (Open r) (iowr (.wrControl 0) : Prog σ ω Unit)
    fun _ => Idle { r with frames := r.frames ++ [r.bits] } := by
  intro w h
  obtain ⟨hlow, hserial, hframes, hbits, -⟩ := access_rest h.low h.rest (.wrControl 0)
  have hrest := h.rest.strike (c := (Access.wrControl 0).strobes) rfl
  have hssN := hrest.ssN rfl
  refine ⟨(), _, rfl, hlow, ?_, ?_, ?_⟩
  · rw [hserial]
    exact hrest
  · rw [hserial]
    rfl
  · rw [← h.record]
    simp only [World.record, hframes, hbits, nextFrames, hssN, h.selected.ssN]
    rfl

/-! ### The status -/

/-- At rest the port can take a byte and is not transmitting. -/
theorem clear_status : Succeeds (Clear r) (iord .rdStatus : Prog σ ω DWORD)
    fun status w => Clear r w ∧ status &&& statusRrdyMsk = 0 ∧ status &&& statusTrdyMsk ≠ 0 ∧
      status &&& statusTmtMsk ≠ 0 := by
  intro w h
  have hsel := h.selected.strike (c := Access.rdStatus.strobes) rfl rfl
  obtain ⟨-, hserial, -, -, f, hval⟩ := access_rest h.low h.rest .rdStatus
  obtain ⟨hrrdy, htrdy, htmt⟩ := spiStatus_masks f w.bus.line.serial
  refine ⟨(w.bus.access .rdStatus).1.setWidth 32, _, rfl, ⟨h.access _ rfl hsel, ?_⟩, ?_⟩
  · show (w.bus.access .rdStatus).2.line.serial.rrdy = false
    rw [hserial]
    exact h.rrdy
  · rw [hval]
    refine ⟨hrrdy.mpr h.rrdy, fun hmask => ?_, fun hmask => ?_⟩
    · exact absurd (h.rest.trdy.symm.trans (htrdy.mp hmask)) (by decide)
    · exact absurd (h.rest.tmt.symm.trans (htmt.mp hmask)) (by decide)

theorem clear_waitReady {fuel : ℕ} (hfuel : 0 < fuel) :
    Succeeds (Clear r) (waitReady fuel 1 : Prog σ ω DWORD)
      fun status w => Clear r w ∧ status &&& statusRrdyMsk = 0 ∧ status &&& statusTrdyMsk ≠ 0 := by
  intro w h
  obtain ⟨n, rfl⟩ := Nat.exists_eq_add_one.mpr hfuel
  obtain ⟨status, w', hrun, hw', hrrdy, htrdy, -⟩ := clear_status w h
  refine ⟨status, w', ?_, hw', hrrdy, htrdy⟩
  rw [waitReady, forever_succ, bind_assoc, bind_of_ok hrun,
    if_neg fun hblocked => hblocked.1.elim htrdy (by decide)]
  rfl

theorem clear_waitTransmitted {fuel : ℕ} (hfuel : 0 < fuel) :
    Succeeds (Clear r) (waitTransmitted fuel : Prog σ ω Unit) fun _ => Clear r := by
  intro w h
  obtain ⟨n, rfl⟩ := Nat.exists_eq_add_one.mpr hfuel
  obtain ⟨status, w', hrun, hw', -, -, htmt⟩ := clear_status w h
  refine ⟨(), w', ?_, hw'⟩
  rw [waitTransmitted, forever_succ, bind_assoc, bind_of_ok hrun, if_neg htmt]
  rfl

/-- A read of the status while a byte is on its way. -/
theorem busy_status {sent : BYTE} {n : ℕ} {w : World σ ω} (h : Busy r sent n w) :
    ∃ status w', (iord .rdStatus : Prog σ ω DWORD) w = .ok status w' ∧
      status &&& statusTrdyMsk ≠ 0 ∧ ∃ m ≤ n, (status &&& statusRrdyMsk = 0 ↔ m ≠ 0) ∧
        Busy r sent (m - 2) w' := by
  obtain ⟨hlow, m, hm, f, s, hval, hs, hrrdy, hflight⟩ := access_flight h.low h.flight
  obtain ⟨hmask, htrdy, -⟩ := spiStatus_masks f s
  refine ⟨(w.bus.access .rdStatus).1.setWidth 32, _, rfl, ?_, m, hm, ?_, hlow, hflight, h.mem,
    h.out⟩
  · rw [hval, Ne, htrdy, hs]
    decide
  · rw [hval, hmask, hrrdy, decide_eq_false_iff_not]

/-- The wait for a byte: a poll takes two cycles at least. -/
theorem busy_waitReady {sent : BYTE} {n fuel : ℕ} (hfuel : (n + 1) / 2 < fuel) :
    Succeeds (Busy r sent n) (waitReady fuel 0 : Prog σ ω DWORD)
      fun status w => status &&& statusRrdyMsk ≠ 0 ∧ Busy r sent 0 w := by
  intro w h
  -- After a poll in vain two cycles fewer remain, and there is one unit of fuel less.
  induction fuel generalizing n w with
  | zero => omega
  | succ fuel ih =>
    obtain ⟨status, w', hrun, -, m, hm, hrrdy, hw'⟩ := busy_status h
    rw [waitReady, forever_succ, bind_assoc, bind_of_ok hrun]
    by_cases hzero : m = 0
    · have hready : status &&& statusRrdyMsk ≠ 0 := fun hmask => hrrdy.mp hmask hzero
      subst hzero
      refine ⟨status, w', ?_, hready, hw'⟩
      rw [if_neg fun hblocked => hready hblocked.2]
      rfl
    · rw [if_pos ⟨.inr rfl, hrrdy.mpr hzero⟩]
      exact ih (by omega) w' hw'

/-! ### Bytes -/

/-- A write of `txdata` starts the countdown. -/
theorem clear_txdata (data : WORD) : Succeeds (Clear r) (iowr (.wrTxdata data) : Prog σ ω Unit)
    fun _ => Busy r (data.setWidth 8) 181 := by
  intro w h
  have hsel := h.selected.strike (c := (Access.wrTxdata data).strobes) rfl rfl
  obtain ⟨hlow, hserial, hframes, hbits, -⟩ := access_rest h.low h.rest (.wrTxdata data)
  rw [h.selected.ssN, hsel.ssN] at hbits
  rw [nextFrames, h.selected.ssN, hsel.ssN] at hframes
  refine ⟨(), _, rfl, hlow, .primed ⟨?_, ?_, ?_, ?_, ?_, ?_, ?_, ?_, ?_, ?_, ?_⟩, ?_, ?_⟩
  any_goals rw [hserial]
  · exact hsel
  · exact h.rest.transmitting
  · rfl
  · exact h.rest.slowcount
  · exact h.rest.state
  · exact h.rest.stateZero
  · exact h.rest.sclkReg
  · exact h.rrdy
  · rfl
  · exact hbits.trans (congrArg Record.bits h.record)
  · exact hframes.trans (congrArg Record.frames h.record)
  · exact congrArg Record.mem h.record
  · exact congrArg Record.out h.record

/-- The byte that came back. -/
theorem busy_rxdata (sent : BYTE) : Succeeds (Busy r sent 0) (iord .rdRxdata : Prog σ ω DWORD)
    fun rxdata w =>
      Clear { r with bits := r.bits ++ word sent (rxdata.setWidth 8) } w := by
  intro w h
  have hline := h.flight.toReceived
  have hopen : Open { r with bits := r.bits ++ word sent w.bus.line.serial.rxHoldingReg } w := by
    refine ⟨h.low, hline.rest, hline.selected, ?_⟩
    rw [World.record, hline.bits, hline.frames, h.mem, h.out]
  obtain ⟨rxdata, w', hrun, hval, hw'⟩ := open_rxdata _ w ⟨hopen, rfl⟩
  rw [← hval] at hw'
  exact ⟨rxdata, w', hrun, hw'⟩

/-! ### The beginning and the end of a command -/

/-- The slave select register is written, with a frame open or not. -/
theorem before_slaveSel (flags : DWORD) :
    Succeeds (Before flags r) (iowr (.wrSlaveSel 1) : Prog σ ω Unit) fun _ w =>
      Open r w ∨ flags &&& commandToggleSsN = 0 ∧ r.bits = [] ∧ ∃ bits,
        Idle { r with bits } w ∧ w.bus.line.serial.spiSlaveSelectHoldingReg.getLsbD 0 = true := by
  rintro w (h | ⟨hflags, hbits, bits, h⟩)
  · obtain ⟨u, w', hrun, hw'⟩ := open_slaveSel w h
    exact ⟨u, w', hrun, .inl hw'⟩
  · obtain ⟨u, w', hrun, hw'⟩ := idle_slaveSel w h
    exact ⟨u, w', hrun, .inr ⟨hflags, hbits, bits, hw'⟩⟩

/-- Then there is an open frame. -/
theorem before_control (flags : DWORD) :
    Succeeds (fun w => Open r w ∨ flags &&& commandToggleSsN = 0 ∧ r.bits = [] ∧ ∃ bits,
        Idle { r with bits } w ∧ w.bus.line.serial.spiSlaveSelectHoldingReg.getLsbD 0 = true)
      (when (flags &&& commandToggleSsN = 0) (iowr (.wrControl controlSsoMsk)) : Prog σ ω Unit)
      fun _ => Open r := by
  rintro w (h | ⟨hflags, hbits, bits, h⟩)
  · -- In an open frame `SSO` is set already, and setting it again changes nothing.
    by_cases hflags : flags &&& commandToggleSsN = 0
    · rw [when, if_pos hflags]
      exact open_control w h
    · rw [when, if_neg hflags]
      exact ⟨(), w, rfl, h⟩
  · rw [when, if_pos hflags]
    obtain ⟨u, w', hrun, hw'⟩ := idle_control w h
    rw [← hbits] at hw'
    exact ⟨u, w', hrun, hw'⟩

/-- The frame goes on, or ends. -/
theorem after_control (flags : DWORD) :
    Succeeds (Open r) (when (flags &&& commandMerge = 0) (iowr (.wrControl 0)) : Prog σ ω Unit)
      fun _ => After flags r := by
  intro w h
  unfold After
  by_cases hflags : flags &&& commandMerge = 0
  · simp only [when, if_pos hflags]
    exact open_release w h
  · simp only [when, if_neg hflags]
    exact ⟨(), w, rfl, h⟩

end Record

end TetrisFpga.Spi
