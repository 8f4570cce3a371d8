import TetrisFpga.Usb.Retries
import TetrisFpga.Usb.Serves

/-!
# Packets that a device serves

On a board with a device on the bus every packet is dispatched before its deadline, and gives what
the device answers.

## Main results

- `xferDispatchPkt_serves`: the dispatch of a packet
-/

namespace TetrisFpga.Usb
open Program

/-! ## The clock -/

/-- In less than five seconds no deadline is due, also where the milliseconds start again. -/
theorem lt_deadline {t₀ t : ℕ} (hle : t₀ ≤ t) (hlt : t < t₀ + 5000) :
    ms (BitVec.ofNat 32 t) < ms (BitVec.ofNat 32 t₀) + usbXferTimeout := by
  rw [lt_deadline_iff, Due]
  obtain ⟨k, rfl⟩ := Nat.exists_eq_add_of_le hle
  obtain ⟨hsum, -⟩ | hsum := product_add t₀ (by omega : k ≤ 5001)
  · omega
  · omega

theorem Time.Ticks.le {pace : Pace} {t t' : Time} (h : t.Ticks pace t') :
    t.ms ≤ t'.ms ∧ t'.ms ≤ t.ms + pace.lag := by
  obtain ⟨hms, -⟩ | hms := h
  · omega
  · omega

section Served

variable {χ : Type} [Platform χ] {dev : Device} {pace : Pace} {At : Moment → Time → χ → Prop}

/-- The chip is at the moment `m`, and the clock shows from `t₀` to `T` milliseconds. -/
def Within (At : Moment → Time → χ → Prop) (m : Moment) (t₀ T : ℕ) (w : World χ) : Prop :=
  ∃ t, At m t w.chip ∧ t₀ ≤ t.ms ∧ t.ms ≤ T

omit [Platform χ] in
theorem Within.mono {m : Moment} {t₀ T T' : ℕ} {w : World χ} (h : Within At m t₀ T w)
    (hle : T ≤ T') : Within At m t₀ T' w := by
  obtain ⟨t, hat, ht₀, ht⟩ := h
  exact ⟨t, hat, ht₀, Nat.le_trans ht hle⟩

theorem altMs_serves (h : Serves dev pace At) {m : Moment} {t : Time} :
    Succeeds (fun w => At m t w.chip) (altMs : Prog χ DWORD) fun now w =>
      now = ms (BitVec.ofNat 32 t.ms) ∧ ∃ t', t.Ticks pace t' ∧ At m t' w.chip := by
  intro w hw
  obtain ⟨hval, hnext⟩ := h.nticks hw
  exact ⟨_, _, rfl, congrArg ms hval, hnext⟩

/-! ## The dispatch of a packet -/

/-- The wait for a packet ends before the deadline. -/
theorem waitDone_serves (h : Serves dev pace At) {l : Link} {hxfr : BYTE} {naks t₀ : ℕ}
    {f n : ℕ} (hn : n < f) {t : Time} (ht₀ : t₀ ≤ t.ms) (ht : t.ms + n * pace.lag < t₀ + 5000) :
    Succeeds (fun w => At (.flight l hxfr naks n) t w.chip)
      (waitDone f (ms (BitVec.ofNat 32 t₀) + usbXferTimeout) : Prog χ BYTE)
      fun rcode w => rcode = 0x00 ∧
        Within At (.over l hxfr naks) t₀ (t.ms + (n + 1) * pace.lag) w := by
  -- on the fuel: `n` readings of `HIRQ` may still show nothing, each `lag` apart at most
  induction f generalizing n t with
  | zero => omega
  | succ f ih =>
    intro w hw
    obtain ⟨now, w₁, hr₁, rfl, t₁, hticks, h₁⟩ := altMs_serves h w hw
    have hle := hticks.le
    have hearly := lt_deadline ht₀ (by omega)
    have htest : (do
        return decide ((← altMs) < (ms (BitVec.ofNat 32 t₀) + usbXferTimeout : DWORD)) :
        Prog χ Bool) w = .ok true w₁ := by
      rw [bind_of_ok hr₁, decide_eq_true hearly]
      rfl
    rw [waitDone, whileLoop, bind_of_ok htest, if_pos rfl]
    obtain ⟨hshow, n', hlt, h₂⟩ | ⟨hshow, h₂⟩ := h.poll h₁
    · have hround : (do
          let tmpdata ← maxRegRd rHIRQ
          if tmpdata &&& bmHXFRDNIRQ ≠ 0 then
            maxRegWr rHIRQ bmHXFRDNIRQ
            return .inr 0x00
          else return .inl () : Prog χ (Unit ⊕ BYTE)) w₁ = .ok (.inl ()) (w₁.afterRd rHIRQ) := by
        rw [bind_of_ok (maxRegRd_run rHIRQ w₁), if_neg (not_not_intro hshow)]
        rfl
      have hfewer : (n' + 1) * pace.lag ≤ n * pace.lag := Nat.mul_le_mul_right _ hlt
      rw [Nat.add_mul, Nat.one_mul] at hfewer ⊢
      obtain ⟨rcode, w', hr, hrcode, hover⟩ :=
        ih (by omega : n' < f) (by omega : t₀ ≤ t₁.ms) (by omega) (w₁.afterRd rHIRQ) h₂
      rw [bind_of_ok hround]
      exact ⟨rcode, w', hr, hrcode, hover.mono (by rw [Nat.add_mul, Nat.one_mul]; omega)⟩
    · have hround : (do
          let tmpdata ← maxRegRd rHIRQ
          if tmpdata &&& bmHXFRDNIRQ ≠ 0 then
            maxRegWr rHIRQ bmHXFRDNIRQ
            return .inr 0x00
          else return .inl () : Prog χ (Unit ⊕ BYTE)) w₁ =
          (do maxRegWr rHIRQ bmHXFRDNIRQ; return .inr 0x00 : Prog χ (Unit ⊕ BYTE))
            (w₁.afterRd rHIRQ) := by
        rw [bind_of_ok (maxRegRd_run rHIRQ w₁), if_pos hshow]
      refine ⟨_, _, bind_of_ok hround _, rfl, t₁, h.clear h₂, by omega, ?_⟩
      rw [Nat.add_mul, Nat.one_mul]
      omega

/-- What comes of a packet that the device does not put off: the result, and where the chip is. -/
inductive Comes (dev : Device) (l : Link) (hxfr : BYTE) : BYTE → Moment → Prop
  | control : hxfr ∈ controlPackets → Comes dev l hxfr (Device.result l hxfr) (dev.after l hxfr)
  | report : hxfr = tokIN ||| 1 → Comes dev l hxfr hrSUCCESS
      (.holds { l with sent := l.sent + 1 } (dev.report l.sent).length (dev.report l.sent))

theorem Comes.ne {l : Link} {hxfr r : BYTE} {m : Moment} (h : Comes dev l hxfr r m) :
    r ≠ hrNAK ∧ r ≠ hrTIMEOUT := by
  cases h with
  | control =>
    rw [Device.result]
    split
    · decide
    · decide
  | report => decide

/-- The board has a device at the address in `PERADDR`, and the packet is one that it knows. -/
def Addressed (l : Link) (hxfr : BYTE) : Prop :=
  l.perAddr = l.address ∧ (hxfr ∈ controlPackets ∨ hxfr = tokIN ||| 1)

theorem over_serves (h : Serves dev pace At) {l : Link} {hxfr : BYTE} {naks : ℕ} {t : Time}
    {c : χ} (hl : Addressed l hxfr) (hc : At (.over l hxfr naks) t c) :
    ((Platform.rd c rHRSL).1 &&& 0x0f = hrNAK ∧ ∃ naks', (hxfr ∈ controlPackets → naks' < naks) ∧
      At (.asked l hxfr naks') t (Platform.rd c rHRSL).2) ∨
    ∃ r m, Comes dev l hxfr r m ∧ (Platform.rd c rHRSL).1 &&& 0x0f = r ∧
      At m t (Platform.rd c rHRSL).2 := by
  obtain ⟨haddr, hcontrol | rfl⟩ := hl
  · obtain ⟨hnak, naks', hlt, hat⟩ | ⟨hr, hat⟩ := h.control hc hcontrol haddr
    · exact .inl ⟨hnak, naks', fun _ => hlt, hat⟩
    · exact .inr ⟨_, _, .control hcontrol, hr, hat⟩
  · obtain ⟨hnak, naks', hat⟩ | ⟨hr, hat⟩ := h.interrupt hc haddr
    · exact .inl ⟨hnak, naks', fun hcontrol => absurd hcontrol (by decide), hat⟩
    · exact .inr ⟨_, _, .report rfl, hr, hat⟩

/-- The counter of the NAKs, with `left` launches left. -/
theorem nakCount_succ {left : ℕ} (hpos : 0 < left) (hleft : left ≤ 200) :
    (BitVec.ofNat 8 (200 - left) + 1 = usbNakLimit ↔ left = 1) ∧
      BitVec.ofNat 8 (200 - left) + 1 = BitVec.ofNat 8 (200 - (left - 1)) := by
  have hsum : BitVec.ofNat 8 (200 - left) + 1 = BitVec.ofNat 8 (200 - (left - 1)) := by
    apply BitVec.eq_of_toNat_eq
    rw [BitVec.toNat_add, BitVec.toNat_ofNat, BitVec.toNat_ofNat]
    show ((200 - left) % 256 + 1) % 256 = (200 - (left - 1)) % 256
    omega
  have hlimit : usbNakLimit.toNat = 200 := rfl
  refine ⟨?_, hsum⟩
  rw [hsum, ← BitVec.toNat_inj, BitVec.toNat_ofNat, hlimit]
  show (200 - (left - 1)) % 256 = 200 ↔ _
  omega

/-- The chip is at the moment `m`, whatever the clock shows. -/
def Now (At : Moment → Time → χ → Prop) (m : Moment) (w : World χ) : Prop := ∃ t, At m t w.chip

/-- What a dispatch ends with: what comes of the packet, or NAK from an endpoint that has nothing to
send. -/
def Yields (dev : Device) (At : Moment → Time → χ → Prop) (l : Link) (hxfr : BYTE)
    (rcode : BYTE) (w : World χ) : Prop :=
  (∃ m, Comes dev l hxfr rcode m ∧ Now At m w) ∨
    hxfr ∉ controlPackets ∧ rcode = hrNAK ∧ Now At (.idle l) w

/-- A round of the dispatch: the packet is launched and waited for. -/
theorem launch_serves (h : Serves dev pace At) {l : Link} {hxfr : BYTE} {naks t₀ : ℕ}
    {f : ℕ} (hf : pace.polls < f) {t : Time} (ht₀ : t₀ ≤ t.ms)
    (ht : t.ms + pace.polls * pace.lag < t₀ + 5000) :
    Succeeds (fun w => At (.asked l hxfr naks) t w.chip)
      (do
        maxRegWr rHXFR hxfr
        waitDone f (ms (BitVec.ofNat 32 t₀) + usbXferTimeout) : Prog χ BYTE)
      fun rcode w => rcode = 0x00 ∧
        Within At (.over l hxfr naks) t₀ (t.ms + (pace.polls + 1) * pace.lag) w := by
  intro w hw
  obtain ⟨n, hn, hlaunch⟩ := h.launch hw
  have hpolls : n * pace.lag ≤ pace.polls * pace.lag := Nat.mul_le_mul_right _ hn
  obtain ⟨rcode, w', hr, hrcode, hnow⟩ := waitDone_serves h
    (by omega : n < f) ht₀ (by omega) { w with
      chip := Platform.wr w.chip rHXFR hxfr, log := .wr rHXFR hxfr :: w.log } hlaunch
  refine ⟨rcode, w', hr, hrcode, hnow.mono ?_⟩
  rw [Nat.add_mul, Nat.add_mul]
  omega

/-- A round of the dispatch ends with the result of its packet. -/
theorem dispatchRound_serves (h : Serves dev pace At) {l : Link} {token ep : BYTE}
    {naks t₀ : ℕ} {fuel : Fuel} (hf : pace.polls < fuel.wait) {t : Time} (ht₀ : t₀ ≤ t.ms)
    (ht : t.ms + pace.polls * pace.lag < t₀ + 5000) {w : World χ}
    (hw : At (.asked l (token ||| ep) naks) t w.chip) (counts : BYTE × BYTE) :
    ∃ w', Within At (.over l (token ||| ep) naks) t₀ (t.ms + (pace.polls + 1) * pace.lag) w' ∧
      dispatchRound fuel (ms (BitVec.ofNat 32 t₀) + usbXferTimeout) token ep counts w =
        .ok (afterResult counts ((Platform.rd w'.chip rHRSL).1 &&& 0x0f)) (w'.afterRd rHRSL) := by
  obtain ⟨rcode, w', hr, rfl, hover⟩ := launch_serves h hf ht₀ ht w hw
  refine ⟨w', hover, ?_⟩
  have hlaunch : (maxRegWr rHXFR (token ||| ep) : Prog χ Unit) w = .ok () { w with
    chip := Platform.wr w.chip rHXFR (token ||| ep), log := .wr rHXFR (token ||| ep) :: w.log } :=
    rfl
  rw [bind_of_ok hlaunch] at hr
  rw [dispatchRound, bind_of_ok hlaunch, bind_of_ok hr, if_neg (by decide),
    bind_of_ok (maxRegRd_run rHRSL w'), afterResult]
  split
  · split
    · rfl
    · rfl
  · split
    · split
      · rfl
      · rfl
    · rfl

/-- The loop with `left` launches left, each of which takes `polls + 1` readings of the clock at
most. -/
theorem dispatchLoop_serves (h : Serves dev pace At) {l : Link} {token ep : BYTE}
    (hl : Addressed l (token ||| ep)) {fuel : Fuel} (hf : pace.polls < fuel.wait) {t₀ left n : ℕ}
    (hpos : 0 < left) (hleft : left ≤ 200) (hn : left ≤ n) {t : Time} (ht₀ : t₀ ≤ t.ms) {naks : ℕ}
    (hnaks : token ||| ep ∈ controlPackets → naks < left)
    (ht : t.ms + left * ((pace.polls + 1) * pace.lag) < t₀ + 5000) :
    Succeeds (fun w => At (.asked l (token ||| ep) naks) t w.chip)
      (forever .dispatch
        (dispatchRound fuel (ms (BitVec.ofNat 32 t₀) + usbXferTimeout) token ep) n
        (0, BitVec.ofNat 8 (200 - left)) : Prog χ BYTE)
      (Yields dev At l (token ||| ep)) := by
  -- on the launches that are left before `nak_count` reaches its limit
  induction left generalizing n t naks with
  | zero => omega
  | succ left ih =>
    obtain ⟨n, rfl⟩ : ∃ k, n = k + 1 := ⟨n - 1, by omega⟩
    intro w hw
    rw [Nat.succ_mul] at ht
    have hwait : pace.polls * pace.lag ≤ (pace.polls + 1) * pace.lag :=
      Nat.mul_le_mul_right _ (Nat.le_succ _)
    obtain ⟨w₁, ⟨t₁, hover, ht₁, hle⟩, hround⟩ := dispatchRound_serves h hf ht₀
      (by omega : t.ms + pace.polls * pace.lag < t₀ + 5000) hw
      (0, BitVec.ofNat 8 (200 - (left + 1)))
    rw [forever_succ, bind_of_ok hround]
    obtain ⟨hnak, naks', hlt, hat⟩ | ⟨r, m, hcomes, hr, hat⟩ := over_serves h hl hover
    · obtain ⟨hlimit, hsum⟩ := nakCount_succ (Nat.succ_pos left) hleft
      rw [hnak, afterResult, if_pos rfl]
      by_cases hlast : left = 0
      · -- only an endpoint that has nothing to send puts the packet off so often
        rw [if_pos (hlimit.mpr (by omega))]
        refine ⟨hrNAK, _, rfl, .inr ⟨fun hcontrol => ?_, rfl, t₁, h.giveUp hat⟩⟩
        have := hnaks hcontrol
        have := hlt hcontrol
        omega
      · rw [if_neg fun heq => hlast (by have := hlimit.mp heq; omega), hsum]
        exact ih (by omega) (by omega) (by omega : left ≤ n) ht₁
          (fun hcontrol => by have := hnaks hcontrol; have := hlt hcontrol; omega) (by omega)
          (w₁.afterRd rHRSL) hat
    · rw [hr, afterResult, if_neg hcomes.ne.1, if_neg hcomes.ne.2]
      exact ⟨r, _, rfl, .inl ⟨m, hcomes, t₁, hat⟩⟩

/-- The fuel that the program needs on such a board. -/
structure Enough (pace : Pace) (fuel : Fuel) : Prop where
  wait : pace.polls < fuel.wait
  dispatch : 200 ≤ fuel.dispatch
  transfer : 34 ≤ fuel.transfer
  walk : 256 ≤ fuel.walk
  reset : pace.starts < fuel.reset

/-- A packet is dispatched before its deadline. -/
theorem xferDispatchPkt_serves (h : Serves dev pace At) {l : Link} {token ep : BYTE}
    (hl : Addressed l (token ||| ep)) {fuel : Fuel} (hf : Enough pace fuel) :
    Succeeds (Now At (.idle l)) (xferDispatchPkt fuel token ep : Prog χ BYTE)
      (Yields dev At l (token ||| ep)) := by
  rintro w ⟨t, hw⟩
  obtain ⟨now, w₁, hr₁, rfl, t₁, hticks, h₁⟩ := altMs_serves h w hw
  have hle := hticks.le
  obtain ⟨naks, hnaks, hasked⟩ := h.ask (token ||| ep) h₁
  have hpace := pace.in_time
  rw [Nat.add_mul, Nat.one_mul, Nat.mul_assoc] at hpace
  obtain ⟨rcode, w', hr, hserved⟩ := dispatchLoop_serves h hl hf.wait (by decide : 0 < 200)
    (Nat.le_refl _) hf.dispatch hle.1 hnaks (by omega) w₁ hasked
  refine ⟨rcode, w', ?_, hserved⟩
  rw [xferDispatchPkt, bind_of_ok hr₁]
  exact hr

end Served

end TetrisFpga.Usb
