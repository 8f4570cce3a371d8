import TetrisFpga.Usb.Irq

/-!
# Connection events

A model of the connection detector of the MAX3421E: it sets `CONDETIRQ` on every change of the
bus, clears it where 1 is written to the bit, and shows the bus in `HRSL`. The bus may change
before every access to a register. `MaxIntHandler` samples the bus first and clears the bit last,
so it clears the bit also for a change that it has not seen.
-/

namespace TetrisFpga.Usb
open Program

/-! ## The detector -/

inductive Bus
  | j
  | k
  | se0
  deriving DecidableEq

/-- The bits of the bus in `HRSL`. -/
def Bus.status : Bus → BYTE
  | .j => bmJSTATUS
  | .k => bmKSTATUS
  | .se0 => bmSE0

/-- The bus, `CONDETIRQ`, and how the bus will change before each of the coming accesses. -/
structure Line where
  bus : Bus
  condet : Bool
  changes : List (List Bus) := []
  deriving DecidableEq

/-- The bus becomes `b`. -/
def Line.change (l : Line) (b : Bus) : Line :=
  if b = l.bus then l else { l with bus := b, condet := true }

/-- What comes before the next access has happened. -/
def Line.access (l : Line) : Line :=
  (l.changes.headD []).foldl Line.change { l with changes := l.changes.tail }

/-- What comes before the next `n` accesses has happened. -/
def Line.after (l : Line) : ℕ → Line
  | 0 => l
  | n + 1 => (l.access).after n

/-- The detector, and what the registers show apart from it, access by access. -/
structure Detector where
  line : Line
  answers : List BYTE := []

/-- The value of a register, of which the detector shows some bits. -/
def Line.shown (l : Line) (reg val : BYTE) : BYTE :=
  if reg = rHIRQ then val &&& ~~~bmCONDETIRQ ||| if l.condet then bmCONDETIRQ else 0
  else if reg = rHRSL then val &&& ~~~(bmJSTATUS ||| bmKSTATUS) ||| l.bus.status
  else val

/-- `CONDETIRQ` is cleared where 1 is written to it. -/
def Line.acknowledge (l : Line) (reg val : BYTE) : Line :=
  if reg = rHIRQ ∧ val &&& bmCONDETIRQ ≠ 0 then { l with condet := false } else l

instance : Platform Detector where
  rd d reg := (d.line.access.shown reg (d.answers.headD 0),
    { line := d.line.access, answers := d.answers.tail })
  wr d reg val := { d with line := d.line.access.acknowledge reg val }
  irq d := (if d.line.condet then 0 else 1, d)
  gpx d := (0, d)
  nticks d := (0, d)
  stack d := (fun _ => 0, d)

/-- The bits that are shown are read back. -/
theorem shown_bits (val : BYTE) {mask bits : BYTE} (hbits : bits &&& mask = bits) :
    (val &&& ~~~mask ||| bits) &&& mask = bits := by
  rw [BitVec.and_or_distrib_right, hbits, BitVec.and_assoc, BitVec.not_and_self]
  simp

theorem busSample_shown (l : Line) (val : BYTE) : busSample (l.shown rHRSL val) = l.bus.status :=
  shown_bits val (by cases l.bus <;> decide)

theorem status_inj : ∀ {b b' : Bus}, b.status = b'.status ↔ b = b' := by
  intro b b'
  cases b <;> cases b' <;> decide

/-! ## The line over time -/

theorem Line.after_succ (l : Line) (n : ℕ) : l.after (n + 1) = (l.after n).access := by
  induction n generalizing l with
  | zero => rfl
  | succ n ih => exact ih l.access

/-- A change that happens shows in the bit. -/
theorem foldl_change (bs : List Bus) (l : Line) :
    (bs.foldl Line.change l).condet = true ∨
      (bs.foldl Line.change l).condet = l.condet ∧ (bs.foldl Line.change l).bus = l.bus := by
  induction bs generalizing l with
  | nil => exact .inr ⟨rfl, rfl⟩
  | cons b bs ih =>
    have hstep : (l.change b).condet = true ∨ l.change b = l := by
      unfold Line.change
      split
      · exact .inr rfl
      · exact .inl rfl
    obtain hset | ⟨hcondet, hbus⟩ := ih (l.change b)
    · exact .inl hset
    · obtain hset | heq := hstep
      · exact .inl (hcondet.trans hset)
      · rw [heq] at hcondet hbus
        rw [List.foldl_cons, heq]
        exact .inr ⟨hcondet, hbus⟩

/-- As long as the bit is not cleared, it is set or the bus is what it was. -/
theorem Line.access_cases (l : Line) :
    l.access.condet = true ∨ l.access.condet = l.condet ∧ l.access.bus = l.bus :=
  foldl_change _ _

theorem Line.after_cases (l : Line) (n : ℕ) :
    (l.after n).condet = true ∨ (l.after n).condet = l.condet ∧ (l.after n).bus = l.bus := by
  induction n with
  | zero => exact .inr ⟨rfl, rfl⟩
  | succ n ih =>
    rw [Line.after_succ]
    obtain hset | ⟨hcondet, hbus⟩ := (l.after n).access_cases
    · exact .inl hset
    · rw [hcondet, hbus]
      exact ih

/-! ## The handler -/

/-- The last sample of the bus, and `s` before the first. -/
def lastSample (s : BYTE) : List Event → BYTE
  | [] => s
  | .rd reg val :: log => if reg = rHRSL then busSample val else lastSample s log
  | _ :: log => lastSample s log

/-- No change of the bus is lost: `CONDETIRQ` is set, or the bus is still what the sample says. -/
def Informed (s : BYTE) (l : Line) : Prop := l.condet = true ∨ s = l.bus.status

instance (s : BYTE) (l : Line) : Decidable (Informed s l) := inferInstanceAs (Decidable (_ ∨ _))

/-- The accesses of `MAX_busprobe` behind its sample. -/
def probeAccesses (sample s : BYTE) : ℕ :=
  if sample = bmJSTATUS ∨ sample = bmKSTATUS then
    if s ≠ usbAttachedSubstateWaitResetComplete then 2 else 0
  else if sample = bmSE1 then 0
  else if s &&& usbStateMask ≠ usbStateDetached then 0 else 1

/-- The access of `MaxIntHandler` that clears the bits, the read of `HIRQ` being the first. -/
def ackAccess (hirq sample s : BYTE) : ℕ :=
  (if hirq &&& bmCONDETIRQ ≠ 0 then 1 + probeAccesses sample s else 0) +
    (if hirq &&& bmSNDBAVIRQ ≠ 0 then 1 else 0) + 2

/-- The line at the access that clears the bits. -/
def ackLine (w : World Detector) : Line :=
  w.chip.line.after
    (ackAccess (handlerReads w.chip).1 (handlerReads w.chip).2 w.host.usbTaskState)

/-- If `CONDETIRQ` is read, then the bus at the access that clears it is the one that was sampled
by the second access. Else nothing had been lost before, or the bus changes during the call. -/
def InTime (s : BYTE) (w : World Detector) : Prop :=
  if (handlerReads w.chip).1 &&& bmCONDETIRQ ≠ 0 then (ackLine w).bus = (w.chip.line.after 2).bus
  else Informed s w.chip.line ∨ (ackLine w).condet = true

/-- The line is `l`, the last sample is `s`, and `p` is true of the variables. -/
def AtLine (s₀ : BYTE) (p : Host → Prop) (l : Line) (s : BYTE) (w : World Detector) : Prop :=
  w.chip.line = l ∧ lastSample s₀ w.log = s ∧ p w.host

section Handler

variable {s₀ s : BYTE} {p q : Host → Prop} {l : Line}

theorem triple_rdLine {reg : BYTE} (hreg : reg ≠ rHRSL) :
    Triple (AtLine s₀ p l s) (maxRegRd reg) (fun _ => AtLine s₀ p l.access s) (fun _ => False)
    where
  ok w val w' hw hr := by
    cases hr
    refine ⟨congrArg Line.access hw.1, ?_, hw.2.2⟩
    rw [lastSample, if_neg hreg]
    exact hw.2.1
  error w e w' _ hr := by cases hr

theorem triple_sampleLine :
    Triple (AtLine s₀ p l s) (maxRegRd rHRSL)
      (fun val w => busSample val = l.access.bus.status ∧
        AtLine s₀ p l.access l.access.bus.status w) (fun _ => False) where
  ok w val w' hw hr := by
    cases hr
    have hval : busSample (Platform.rd w.chip rHRSL).1 = l.access.bus.status :=
      (busSample_shown _ _).trans (by rw [hw.1])
    refine ⟨hval, congrArg Line.access hw.1, ?_, hw.2.2⟩
    rw [lastSample, if_pos rfl]
    exact hval
  error w e w' _ hr := by cases hr

theorem triple_wrLine (reg val : BYTE) :
    Triple (AtLine s₀ p l s) (maxRegWr reg val)
      (fun _ => AtLine s₀ p (l.access.acknowledge reg val) s) (fun _ => False) where
  ok w _ w' hw hr := by
    cases hr
    refine ⟨?_, hw.2⟩
    show w.chip.line.access.acknowledge reg val = _
    rw [hw.1]
  error w e w' _ hr := by cases hr

/-- A write to another register than `HIRQ` clears nothing. -/
theorem triple_wrOther {reg : BYTE} (hreg : reg ≠ rHIRQ) (val : BYTE) :
    Triple (AtLine s₀ p l s) (maxRegWr reg val) (fun _ => AtLine s₀ p l.access s)
      (fun _ => False) :=
  (triple_wrLine reg val).conseq (fun _ hw => hw) fun _ _ hw => by
    rwa [Line.acknowledge, if_neg fun h => hreg h.1] at hw

theorem triple_setLine (f : Host → Host) :
    Triple (AtLine s₀ p l s) (setHost f) (fun _ => AtLine s₀ (fun _ => True) l s)
      (fun _ => False) where
  ok w _ w' hw hr := by
    cases hr
    exact ⟨hw.1, hw.2.1, trivial⟩
  error w e w' _ hr := by cases hr

theorem triple_getLine :
    Triple (AtLine s₀ p l s) getHost (fun h => AtLine s₀ (fun h' => h' = h ∧ p h) l s)
      (fun _ => False) where
  ok w h w' hw hr := by
    cases hr
    exact ⟨hw.1, hw.2.1, rfl, hw.2.2⟩
  error w e w' _ hr := by cases hr

theorem AtLine.forget {w : World Detector} (hw : AtLine s₀ p l s w) :
    AtLine s₀ (fun _ => True) l s w :=
  ⟨hw.1, hw.2.1, trivial⟩

theorem triple_startLine (mode lowSpeedMode st : BYTE) :
    Triple (AtLine s₀ (fun h => h.usbTaskState = st) l s) (startHost mode lowSpeedMode)
      (fun _ => AtLine s₀ (fun _ => True)
        (l.after (if st ≠ usbAttachedSubstateWaitResetComplete then 2 else 0)) s)
      (fun _ => False) := by
  refine triple_bind triple_getLine fun h => triple_of_imp
    (fun w hw => (hw.2.2.2 : h.usbTaskState = st)) fun hh => ?_
  refine triple_ite (fun hs => ?_) fun hs => triple_pure fun w hw => ?_
  · rw [if_pos (hh ▸ hs)]
    refine triple_bind (triple_rdLine (by decide)) fun _ => ?_
    exact triple_bind (triple_wrOther (by decide) _) fun _ => triple_setLine _
  · rw [if_neg (hh ▸ hs)]
    exact hw.forget

theorem triple_probeLine (st : BYTE) :
    Triple (AtLine s₀ (fun h => h.usbTaskState = st) l s) maxBusprobe
      (fun _ => AtLine s₀ (fun _ => True)
        (l.after (1 + probeAccesses l.access.bus.status st)) l.access.bus.status)
      (fun _ => False) := by
  rw [Nat.add_comm]
  refine triple_bind triple_sampleLine fun val => triple_of_imp (fun w hw => hw.1) fun hval => ?_
  refine Triple.conseq ?_ (fun w hw => hw.2) fun _ _ hw => hw
  rw [hval]
  refine triple_ite (fun hJ => ?_) fun hJ => triple_ite (fun hK => ?_) fun hK =>
    triple_ite (fun h1 => ?_) fun h1 => ?_
  · rw [probeAccesses, if_pos (.inl hJ)]
    exact triple_startLine _ _ st
  · rw [probeAccesses, if_pos (.inr hK)]
    exact triple_startLine _ _ st
  · rw [probeAccesses, if_neg (not_or.mpr ⟨hJ, hK⟩), if_pos h1]
    exact triple_setLine _
  · rw [probeAccesses, if_neg (not_or.mpr ⟨hJ, hK⟩), if_neg h1]
    refine triple_bind triple_getLine fun h => triple_of_imp
      (fun w hw => (hw.2.2.2 : h.usbTaskState = st)) fun hh =>
        triple_ite (fun hs => ?_) fun hs => ?_
    · rw [if_pos (hh ▸ hs)]
      exact triple_setLine _
    · rw [if_neg (hh ▸ hs)]
      exact triple_bind (triple_wrOther (by decide) _) fun _ => triple_setLine _

/-- What is written back clears `CONDETIRQ` where it was read. -/
theorem hirqSendback_condet (hirq : BYTE) :
    hirqSendback hirq &&& bmCONDETIRQ ≠ 0 ↔ hirq &&& bmCONDETIRQ ≠ 0 :=
  (by decide +kernel : ∀ hirq : BYTE,
    hirqSendback hirq &&& bmCONDETIRQ ≠ 0 ↔ hirq &&& bmCONDETIRQ ≠ 0) hirq

theorem triple_handlerLine (s₀ : BYTE) (w₀ : World Detector) :
    Triple (fun w => w = w₀) maxIntHandler
      (fun _ => AtLine s₀ (fun _ => True)
        ((ackLine w₀).acknowledge rHIRQ (hirqSendback (handlerReads w₀.chip).1))
        (if (handlerReads w₀.chip).1 &&& bmCONDETIRQ ≠ 0 then (w₀.chip.line.after 2).bus.status
          else lastSample s₀ w₀.log)) (fun _ => False) := by
  let st := w₀.host.usbTaskState
  refine triple_bind (Q := fun hirq w => hirq = (handlerReads w₀.chip).1 ∧
    AtLine s₀ (fun h => h.usbTaskState = st) w₀.chip.line.access (lastSample s₀ w₀.log) w) ⟨?_, ?_⟩
    fun hirq => triple_of_imp (fun w hw => hw.1) fun hhirq => ?_
  · rintro w hirq w' rfl hr
    cases hr
    exact ⟨rfl, rfl, rfl, rfl⟩
  · rintro w e w' rfl hr
    cases hr
  have hsample : (handlerReads w₀.chip).2 = (w₀.chip.line.after 2).bus.status := busSample_shown _ _
  rw [ackLine, ackAccess, hsample, ← hhirq]
  generalize w₀.chip.line = l
  generalize lastSample s₀ w₀.log = s
  refine Triple.conseq (P := AtLine s₀ (fun h => h.usbTaskState = st) l.access s) ?_
    (fun w hw => hw.2) fun _ _ hw => hw
  -- accesses of the bus probe and of the write to `SNDBC`, and the sample that is left
  let n := if hirq &&& bmCONDETIRQ ≠ 0 then 1 + probeAccesses (l.after 2).bus.status st else 0
  let s' := if hirq &&& bmCONDETIRQ ≠ 0 then (l.after 2).bus.status else s
  let m := if hirq &&& bmSNDBAVIRQ ≠ 0 then 1 else 0
  refine triple_bind (Q := fun _ => AtLine s₀ (fun _ => True) (l.after (n + 1)) s')
    (triple_when (fun hc => ?_) fun hc w hw => ?_) fun _ => ?_
  · have hn : n = 1 + probeAccesses (l.after 2).bus.status st := if_pos hc
    have hs : s' = (l.after 2).bus.status := if_pos hc
    rw [hn, hs]
    exact triple_probeLine st
  · have hn : n = 0 := if_neg hc
    have hs : s' = s := if_neg hc
    rw [hn, hs]
    exact hw.forget
  refine triple_bind (Q := fun _ => AtLine s₀ (fun _ => True) (l.after (n + m + 1)) s')
    (triple_when (fun hc => ?_) fun hc w hw => ?_) fun _ => ?_
  · have hm : m = 1 := if_pos hc
    rw [hm, Line.after_succ l (n + 1)]
    have hreg : rSNDBC ≠ rHIRQ := by decide
    exact triple_wrOther hreg 0x00
  · have hm : m = 0 := if_neg hc
    rw [hm]
    exact hw
  refine triple_bind (triple_when (fun _ => triple_setLine _) fun _ w hw => hw) fun _ => ?_
  have hack : Triple (AtLine s₀ (fun _ => True) (l.after (n + m + 1)) s')
      (maxRegWr rHIRQ (hirqSendback hirq))
      (fun _ => AtLine s₀ (fun _ => True)
        ((l.after (n + m + 1)).access.acknowledge rHIRQ (hirqSendback hirq)) s')
      (fun _ => False) := triple_wrLine _ _
  rwa [← Line.after_succ] at hack

/-- The world after a call of the handler, with the log of the call. -/
def handled (w : World Detector) : World Detector := final (maxIntHandler { w with log := [] })

/-- Nothing is lost in a call if and only if the bus does not change too late. -/
theorem informed_handled_iff (s : BYTE) (w : World Detector) :
    Informed (lastSample s (handled w).log) (handled w).chip.line ↔ InTime s w := by
  have hpost : AtLine s (fun _ => True)
      ((ackLine w).acknowledge rHIRQ (hirqSendback (handlerReads w.chip).1))
      (if (handlerReads w.chip).1 &&& bmCONDETIRQ ≠ 0 then (w.chip.line.after 2).bus.status else s)
      (handled w) := by
    have hrun := triple_handlerLine s { w with log := [] }
    cases hr : maxIntHandler { w with log := [] } with
    | ok a w' =>
      rw [handled, hr]
      exact hrun.ok _ a w' rfl hr
    | error e w' => exact (hrun.error _ e w' rfl hr).elim
  obtain ⟨hline, hsample, -⟩ := hpost
  rw [hline, hsample, InTime, Line.acknowledge]
  by_cases hc : (handlerReads w.chip).1 &&& bmCONDETIRQ ≠ 0
  · -- the bit is cleared, so the sample must be what the bus is then
    rw [if_pos hc, if_pos hc, if_pos ⟨rfl, (hirqSendback_condet _).mpr hc⟩]
    show false = true ∨ _ = (ackLine w).bus.status ↔ _
    rw [status_inj]
    exact ⟨fun h => (h.resolve_left Bool.false_ne_true).symm, fun h => .inr h.symm⟩
  · -- the bit is left alone, so a change behind the read stays pending
    rw [if_neg hc, if_neg hc, if_neg fun h => hc ((hirqSendback_condet _).mp h.2)]
    obtain hset | ⟨hcondet, hbus⟩ := w.chip.line.after_cases
      (ackAccess (handlerReads w.chip).1 (handlerReads w.chip).2 w.host.usbTaskState)
    · exact ⟨fun _ => .inr hset, fun _ => .inl hset⟩
    · have hcondet : (ackLine w).condet = w.chip.line.condet := hcondet
      have hbus : (ackLine w).bus = w.chip.line.bus := hbus
      rw [Informed, Informed, hcondet, hbus]
      exact ⟨fun h => .inl h, fun h => h.elim id fun hset => .inl hset⟩

end Handler

/-! ## A device that is unplugged during the call -/

/-- A keyboard has been plugged in, and is unplugged between the sample of the bus and the end of
the call. -/
def unplugged : World Detector where
  chip := { line := { bus := .j, condet := true, changes := [[], [], [.se0]] } }
  host := { usbTaskState := usbDetachedSubstateWaitForDevice }
  mem := fun _ _ => 0

theorem unplugged_not_informed :
    ¬∀ (s : BYTE) (w : World Detector), Informed s w.chip.line →
      Informed (lastSample s (handled w).log) (handled w).chip.line := by
  intro h
  exact absurd (h bmSE0 unplugged (by decide)) (by decide +kernel)

/-- The task attaches a device that is gone, and no interrupt will tell. -/
example : (handled unplugged).host.usbTaskState = usbStateAttached ∧
    (handled unplugged).chip.line = { bus := .se0, condet := false } := by
  decide +kernel

end TetrisFpga.Usb
