import TetrisFpga.Usb.Configured

/-!
# A board that serves

A MAX3421E that loses no time, with any device: the oscillator is stable at once, a packet is over
as soon as it is launched, and the endpoint 1 has a report for every poll.

## Main results

- `bench_serves`: it does what is asked of a board
-/

namespace TetrisFpga.Usb

/-- Where the chip is, and the milliseconds of the clock. -/
structure Bench (dev : Device) where
  moment : Moment := .off
  clock : ℕ := 0

namespace Bench

/-- What a read of `reg` shows, and where the chip goes. -/
def read (dev : Device) (reg : BYTE) : Moment → BYTE × Moment
  | .starting n =>
    if reg = rUSBIRQ then (bmOSCOKIRQ, .idle { perAddr := 0 }) else (0, .starting n)
  | .idle l => (if reg = rHRSL then bmJSTATUS else 0, .idle l)
  | .resetting l n =>
    if reg = rHCTL then (0, .idle l.unaddressed)
    else (if reg = rHRSL then bmJSTATUS else 0, .resetting l n)
  | .flight l hxfr naks n =>
    if reg = rHIRQ then (bmHXFRDNIRQ, .over l hxfr naks) else (0, .flight l hxfr naks n)
  | .over l hxfr naks =>
    if reg ≠ rHRSL then (0, .over l hxfr naks)
    else if l.perAddr ≠ l.address then (hrTIMEOUT, .idle l)
    else if hxfr ∈ controlPackets then (Device.result l hxfr, dev.after l hxfr)
    else (hrSUCCESS,
      .holds { l with sent := l.sent + 1 } (dev.report l.sent).length (dev.report l.sent))
  | .holds l size fifo =>
    if reg = rHIRQ then (bmRCVDAVIRQ, .holds l size fifo)
    else if reg = rRCVBC then (BitVec.ofNat 8 size, .holds l size fifo)
    else if reg = rRCVFIFO then (fifo.headD 0, .holds l size fifo.tail)
    else (0, .holds l size fifo)
  | m => (0, m)

/-- Where a write to `reg` leaves the chip. -/
def write (reg val : BYTE) : Moment → Moment
  | .off => if reg = rUSBCTL then .starting 0 else .off
  | .idle l =>
    if reg = rPERADDR then .idle { l with perAddr := val }
    else if reg = rSUDFIFO then .idle { l with setup := l.setup ++ [val] }
    else if reg = rHXFR then .flight l val 0 0
    else if reg = rHCTL ∧ val &&& bmBUSRST ≠ 0 then .resetting l 0
    else .idle l
  | .holds l size fifo =>
    if reg = rHIRQ ∧ val &&& bmRCVDAVIRQ ≠ 0 then .idle l else .holds l size fifo
  | m => m

end Bench

variable {dev : Device}

instance : Platform (Bench dev) where
  rd c reg :=
    ((Bench.read dev reg c.moment).1, { c with moment := (Bench.read dev reg c.moment).2 })
  wr c reg val := { c with moment := Bench.write reg val c.moment }
  irq c := (1, c)
  gpx c := (0, c)
  nticks c := (BitVec.ofNat 32 c.clock, { c with clock := c.clock + 1 })
  stack c := (fun _ => 0, c)

namespace Bench

/-- The moment without what is bounded from above: it is 0. -/
def settled : Moment → Moment
  | .starting _ => .starting 0
  | .resetting l _ => .resetting l 0
  | .asked l _ _ => .idle l
  | .flight l hxfr _ _ => .flight l hxfr 0 0
  | .over l hxfr _ => .over l hxfr 0
  | m => m

def At (m : Moment) (t : Time) (c : Bench dev) : Prop := c.moment = settled m ∧ c.clock = t.ms

variable {m m' : Moment} {t : Time} {c : Bench dev} {reg val : BYTE}

theorem At.rd (h : At m t c) (hread : (read dev reg (settled m)).2 = settled m') :
    At m' t (Platform.rd c reg).2 := by
  refine ⟨?_, h.2⟩
  show (read dev reg c.moment).2 = settled m'
  rw [h.1, hread]

theorem At.value (h : At m t c) : (Platform.rd c reg).1 = (read dev reg (settled m)).1 := by
  show (read dev reg c.moment).1 = _
  rw [h.1]

theorem At.wr (h : At m t c) (hwrite : write reg val (settled m) = settled m') :
    At m' t (Platform.wr c reg val) := by
  refine ⟨?_, h.2⟩
  show write reg val c.moment = settled m'
  rw [h.1, hwrite]

theorem settled_after (l : Link) (hxfr : BYTE) : settled (dev.after l hxfr) = dev.after l hxfr := by
  unfold Device.after
  split
  · rfl
  split
  · split
    · rfl
    · rfl
  split
  · rfl
  · rfl

end Bench

open Bench in
/-- The board meets the contract, with any device. -/
theorem bench_serves (dev : Device) :
    Serves dev ⟨0, 0, 1, by decide⟩ (At : Moment → Time → Bench dev → Prop) where
  nticks h := ⟨congrArg (BitVec.ofNat 32) h.2, ⟨_, 0⟩, .inr ⟨Nat.lt_succ_self _, le_refl _⟩, h.1,
    congrArg (· + 1) h.2⟩
  irq h := h
  calm _ _ := (by decide : (1 : BYTE) ≠ 0)
  gpx h := h
  gpin {m t c} h := by
    apply h.rd
    cases m <;> rfl
  stack h := h
  off_rd reg h := h.rd rfl
  off_wr val hreg h := h.wr (if_neg hreg)
  chipReset h := ⟨0, le_refl 0, h.wr rfl⟩
  start h := h.wr rfl
  oscillator h := .inr ⟨h.value ▸ (by decide : bmOSCOKIRQ &&& bmOSCOKIRQ ≠ 0), { perAddr := 0 },
    rfl, h.rd rfl⟩
  rd reg h := h.rd rfl
  sample h := .inl (h.value ▸ (by decide : busSample bmJSTATUS = bmJSTATUS))
  wr {l t c reg val} hreg hctl h := by
    apply h.wr
    simp only [List.mem_cons, List.not_mem_nil, or_false, not_or] at hreg
    have hreset : ¬(reg = rHCTL ∧ val &&& bmBUSRST ≠ 0) := fun hr => hr.2 (hctl hr.1)
    show write reg val (.idle l) = .idle l
    rw [write, if_neg hreg.1, if_neg hreg.2.1, if_neg hreg.2.2.1, if_neg hreset]
  perAddr addr h := h.wr rfl
  setup b h := h.wr rfl
  busReset h := ⟨0, h.wr rfl⟩
  resets h := .inr ⟨h.value ▸ (by decide : (0 : BYTE) &&& bmBUSRST = 0), h.rd rfl⟩
  reset_rd {l n t c reg} hreg h := by
    apply h.rd
    show (Bench.read dev reg (.resetting l 0)).2 = .resetting l 0
    rw [Bench.read, if_neg hreg]
  reset_wr val _ h := h.wr rfl
  reset_hirq h := h.value ▸ (by decide : (0 : BYTE) &&& bmBUSEVENTIRQ = 0)
  reset_sample h := .inl (h.value ▸ (by decide : busSample bmJSTATUS = bmJSTATUS))
  ask _ h := ⟨0, fun _ => by decide, h⟩
  giveUp h := h
  launch h := ⟨0, le_refl 0, h.wr rfl⟩
  poll h := .inr ⟨h.value ▸ (by decide : bmHXFRDNIRQ &&& bmHXFRDNIRQ ≠ 0), h.rd rfl⟩
  clear h := h.wr rfl
  control {l hxfr naks t c} h hcontrol haddr := by
    have hread : Bench.read dev rHRSL (.over l hxfr 0) =
        (Device.result l hxfr, dev.after l hxfr) := by
      rw [Bench.read, if_neg (not_not_intro rfl), if_neg (not_not_intro haddr), if_pos hcontrol]
    refine .inr ⟨?_, h.rd ?_⟩
    · rw [h.value, settled, hread, Device.result]
      split
      · exact (by decide : hrSTALL &&& 0x0f = hrSTALL)
      · exact (by decide : hrSUCCESS &&& 0x0f = hrSUCCESS)
    · rw [settled, hread, settled_after]
  interrupt {l naks t c} h haddr := by
    have hread : Bench.read dev rHRSL (.over l (tokIN ||| 1) 0) = (hrSUCCESS,
        .holds { l with sent := l.sent + 1 } (dev.report l.sent).length (dev.report l.sent)) := by
      rw [Bench.read, if_neg (not_not_intro rfl), if_neg (not_not_intro haddr), if_neg (by decide)]
    refine .inr ⟨?_, h.rd ?_⟩
    · rw [h.value, settled, hread]
      exact (by decide : hrSUCCESS &&& 0x0f = hrSUCCESS)
    · rw [settled, hread]
      rfl
  received h := ⟨h.value ▸ (by decide : bmRCVDAVIRQ &&& bmRCVDAVIRQ ≠ 0), h.rd rfl⟩
  size h := ⟨h.value, h.rd rfl⟩
  fifo {l size fifo t c} h := by
    refine ⟨?_, h.rd rfl⟩
    rw [h.value]
    cases fifo with
    | nil => rfl
    | cons b bs => rfl
  release h := h.wr rfl

/-! ## A keyboard -/

def deviceDescriptor : List BYTE :=
  [18, 1, 0x10, 0x01, 0, 0, 0, 8, 0x5e, 0x04, 0x0b, 0, 0, 0x01, 0, 0, 0, 1]

/-- A boot keyboard that answers for the device and its configuration, and refuses the other reads.
A key is down in each of its reports, and not the same in two of them. -/
def keyboard : Device where
  maxPacketSize := 8
  answer setup :=
    if setup.take 2 = [bmReqGetDescr, usbRequestGetDescriptor] then
      if setup.getD 3 0 = usbDescriptorDevice then some (deviceDescriptor.take (wLength setup))
      else if setup.getD 3 0 = usbDescriptorConfiguration then
        some (keyboardDescriptors.bytes.take (wLength setup))
      else none
    else none
  report k := [0, 0, BitVec.ofNat 8 (4 + k), 0, 0, 0, 0, 0]
  eight_le := by decide
  answer_le {setup data} h := by
    have htake (bytes : List BYTE) : (bytes.take (wLength setup)).length ≤ wLength setup :=
      List.length_take_le _ _
    split at h
    · split at h
      · cases h
        exact htake _
      · split at h
        · cases h
          exact htake _
        · cases h
    · cases h
  report_le _ := (by decide : 8 ≤ 8)

/-- The interface and the endpoint of the keyboard. -/
def keyboardInterface : Descriptor := keyboardDescriptors.rest.headD keyboardDescriptors.config

def keyboardEndpoint : Descriptor :=
  keyboardDescriptors.rest.tail.headD keyboardDescriptors.config

theorem keyboard_isBootDevice : IsBootDevice keyboard BootKind.keyboard.protocol keyboardDescriptors
    keyboardInterface keyboardEndpoint where
  size := ⟨deviceDescriptor.take 8, by decide, rfl, by decide⟩
  config n _ := by
    have hlength : wLength (requestBytes bmReqGetDescr usbRequestGetDescriptor 0x00
        usbDescriptorConfiguration 0x0000 n) = n.toNat := wLength_requestBytes _ _ _ _ _ _
    show some (keyboardDescriptors.bytes.take (wLength (requestBytes _ _ _ _ _ n))) = _
    rw [hlength]
  recognised := rfl

end TetrisFpga.Usb
