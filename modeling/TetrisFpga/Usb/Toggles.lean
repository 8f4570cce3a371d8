import TetrisFpga.Machine.Toggle
import TetrisFpga.Usb.InTransfer

/-!
# The data toggle

`XferInTransfer` loads the receive toggle of the MAX3421E from the endpoint record and saves it
there where the transfer completes. Where it ends with an error, the record keeps the toggle of the
start, and the device is one packet ahead after an odd number of packets.
-/

namespace TetrisFpga.Usb
open Program Toggle

/-- The toggle bits of `HCTL` for a receive toggle. -/
def toggleBits (recv : Bool) : BYTE := if recv then bmRCVTOG1 else bmRCVTOG0

/-- What a write to `HCTL` does to the receive toggle. -/
def loaded (val : BYTE) (p : Pair) : Pair :=
  if val &&& bmRCVTOG1 ≠ 0 then p.load true
  else if val &&& bmRCVTOG0 ≠ 0 then p.load false
  else p

theorem loaded_toggleBits (recv : Bool) (p : Pair) : loaded (toggleBits recv) p = p.load recv := by
  cases recv with
  | false => exact (if_neg (by decide)).trans (if_pos (by decide))
  | true => exact if_pos (by decide)

theorem toggleBits_inj {b b' : Bool} (h : toggleBits b = toggleBits b') : b = b' := by
  revert h
  cases b <;> cases b' <;> decide

/-- What is assumed of the MAX3421E and of the endpoint `ep` of a device: a packet is taken only
if its toggle is the receive toggle, and both flip then; the toggle is loaded by a write to `HCTL`
and shown in `HRSL`. A packet may come at its launch or while `HIRQ` is watched. -/
structure Toggles (χ : Type) [Platform χ] (ep : BYTE) where
  pair : χ → Pair
  launch : ∀ c, (pair c).Step (pair (Platform.wr c rHXFR (tokIN ||| ep)))
  hirq : ∀ c, (pair c).Step (pair (Platform.rd c rHIRQ).2)
  nticks : ∀ c, (pair c).Step (pair (Platform.nticks c).2)
  rd : ∀ c reg, reg ≠ rHIRQ → pair (Platform.rd c reg).2 = pair c
  hrsl : ∀ c, (Platform.rd c rHRSL).1 &&& bmRCVTOGRD ≠ 0 ↔ (pair c).recv = true
  wrHirq : ∀ c val, pair (Platform.wr c rHIRQ val) = pair c
  hctl : ∀ c val, pair (Platform.wr c rHCTL val) = loaded val (pair c)

/-- The packets that were read, the newest first, complete a transfer: the last one is short, or
`nbytes` were read, in the 16 bits that count them. -/
def Complete (nbytes : WORD) (maxpktsize : BYTE) : List BYTE → Prop
  | [] => False
  | size :: earlier =>
    size < maxpktsize ∨ nbytes ≤ BitVec.ofNat 16 (total (size :: earlier))

instance (nbytes : WORD) (maxpktsize : BYTE) :
    DecidablePred (Complete nbytes maxpktsize)
  | [] => .isFalse id
  | _ :: _ => inferInstanceAs (Decidable (_ ∨ _))

section Transfer

variable {χ : Type} [Platform χ] {addr ep : BYTE} (V : Toggles χ ep)

/-- The record `t[ep]` of the device at `addr` has the given receive toggle. -/
def HasToggle (addr ep : BYTE) (t : EpTable) (toggle : BYTE) (w : World χ) : Prop :=
  (w.host.devtable addr).epinfo = some t ∧ (w.host.eps t ep).rcvToggle = toggle

/-- The record has the toggle that the device uses for its next packet. -/
def InStep (addr : BYTE) (w : World χ) : Prop :=
  ∃ t : EpTable, ep.toNat < t.size ∧ HasToggle addr ep t (toggleBits (V.pair w.chip).send) w

instance (addr ep : BYTE) (t : EpTable) (toggle : BYTE) :
    DecidablePred (HasToggle (χ := χ) addr ep t toggle) :=
  fun _ => inferInstanceAs (Decidable (_ ∧ _))

instance (addr : BYTE) : DecidablePred (InStep V addr) := fun w =>
  let P (t : EpTable) := ep.toNat < t.size ∧
    HasToggle addr ep t (toggleBits (V.pair w.chip).send) w
  decidable_of_iff (P .dev0ep ∨ P .hidEp)
    ⟨fun h => h.elim (⟨_, ·⟩) (⟨_, ·⟩), fun ⟨t, h⟩ => by cases t with
      | dev0ep => exact .inl h
      | hidEp => exact .inr h⟩

/-- In a transfer that began with `start` and with the record at `toggle`: the toggles of both
sides are the same, and the packets `sizes` were read. -/
structure During (addr : BYTE) (t : EpTable) (toggle : BYTE) (start : Pair) (sizes : List BYTE)
    (w : World χ) : Prop where
  after : start.After (V.pair w.chip)
  record : HasToggle addr ep t toggle w
  sizes : packetSizes w.log = sizes

variable {V} {t : EpTable} {toggle : BYTE} {start : Pair} {sizes : List BYTE}

/-- What leaves the variables and the packets alone. -/
theorem during_step {α : Type} {x : Prog χ α}
    (hx : ∀ w, ∃ a w', x w = .ok a w' ∧ (V.pair w.chip).Step (V.pair w'.chip) ∧
      w'.host = w.host ∧ packetSizes w'.log = packetSizes w.log) :
    Keeps (During V addr t toggle start sizes) (fun _ => True) x where
  ok w a w' hw hr := by
    obtain ⟨b, w₁, hr', hstep, hhost, hsizes⟩ := hx w
    cases hr'.symm.trans hr
    refine ⟨hw.after.step hstep, ?_, hsizes.trans hw.sizes⟩
    rw [HasToggle, hhost]
    exact hw.record
  error _ _ _ _ _ := trivial

theorem during_hirq :
    Keeps (During V addr t toggle start sizes) (fun _ => True) (maxRegRd rHIRQ) :=
  during_step fun w => ⟨_, _, rfl, V.hirq w.chip, rfl,
    packetSizes_cons (Event.silent_rd (by decide) _) w.log⟩

theorem during_rd {reg : BYTE} (hreg : reg ≠ rRCVBC) (hirq : reg ≠ rHIRQ) :
    Keeps (During V addr t toggle start sizes) (fun _ => True) (maxRegRd reg) :=
  during_step fun w => ⟨_, _, rfl, Pair.Step.of_eq (V.rd w.chip reg hirq), rfl,
    packetSizes_cons (Event.silent_rd hreg _) w.log⟩

/-- While a packet is waited for, the toggles of both sides go on together. -/
theorem launches_during : Launches (χ := χ)
    (fun _ => Keeps (During V addr t toggle start sizes) (fun _ => True)) tokIN ep where
  toClosed := closed_keeps _ _
  hirq := during_hirq
  hrsl := during_rd (by decide) (by decide)
  wrHirq val := during_step fun w => ⟨_, _, rfl, Pair.Step.of_eq (V.wrHirq w.chip val), rfl, rfl⟩
  nticks := during_step fun w => ⟨_, _, rfl, V.nticks w.chip, rfl, rfl⟩
  wait := triple_throw fun _ _ => trivial
  dispatch := triple_throw fun _ _ => trivial
  launch := during_step fun w => ⟨_, _, rfl, V.launch w.chip, rfl, rfl⟩

theorem during_maxBytesRd (size : BYTE) (data : Ptr) :
    Keeps (During V addr t toggle start sizes) (fun _ => True) (maxBytesRd rRCVFIFO size data) := by
  have hC : Closed fun α (x : Prog χ α) => Keeps (During V addr t toggle start sizes)
      (fun _ => True) x := closed_keeps _ _
  have hbyte (p : Ptr) : Keeps (During V addr t toggle start sizes) (fun _ => True)
      (rdByte rRCVFIFO p) :=
    hC.bind (during_rd (by decide) (by decide)) fun val =>
      during_step fun _ => ⟨_, _, rfl, .idle, rfl, rfl⟩
  exact hC.bind (hC.forM (fun i => hbyte _) _) fun _ => hC.bind (hbyte _) fun _ => hC.pure _

theorem during_rcvbc :
    Triple (During V addr t toggle start sizes) (maxRegRd rRCVBC)
      (fun size => During V addr t toggle start (size :: sizes)) fun _ => True where
  ok w size w' hw hr := by
    cases hr
    refine ⟨hw.after.step (Pair.Step.of_eq (V.rd w.chip rRCVBC (by decide))), hw.record, ?_⟩
    rw [← hw.sizes]
    rfl
  error _ _ _ _ _ := trivial

variable (V) in
/-- A transfer that began with `start` and with the record at `toggle` has ended: the record has
the device's toggle if the packets complete the transfer, and else the toggle of the start. -/
structure Ended (addr : BYTE) (t : EpTable) (toggle : BYTE) (start : Pair) (nbytes : WORD)
    (maxpktsize : BYTE) (w : World χ) : Prop where
  after : start.After (V.pair w.chip)
  record : HasToggle addr ep t (if Complete nbytes maxpktsize (packetSizes w.log) then
    toggleBits (V.pair w.chip).send else toggle) w

variable {nbytes : WORD} {maxpktsize : BYTE}

theorem During.ended {w : World χ} (h : During V addr t toggle start sizes w)
    (hopen : ¬Complete nbytes maxpktsize sizes) :
    Ended V addr t toggle start nbytes maxpktsize w := by
  refine ⟨h.after, ?_⟩
  rw [h.sizes, if_neg hopen]
  exact h.record

omit V [Platform χ] in
theorem saveToggle_run {w : World χ} (ht : ep.toNat < t.size) (hw : HasToggle addr ep t toggle w)
    (toggle' : BYTE) :
    ∃ w', setEpRecord addr ep (fun r => { r with rcvToggle := toggle' }) w = .ok () w' ∧
      HasToggle addr ep t toggle' w' ∧ w'.chip = w.chip ∧
      packetSizes w'.log = packetSizes w.log := by
  refine ⟨_, setEpRecord_run hw.1 ht, ⟨hw.1, ?_⟩, rfl, rfl⟩
  show EpRecord.rcvToggle (if t = t ∧ ep = ep then { w.host.eps t ep with rcvToggle := toggle' }
    else w.host.eps t ep) = toggle'
  rw [if_pos ⟨rfl, rfl⟩]

/-- The toggle that `HRSL` shows is the one the device uses next. -/
theorem ended_saveToggle (I : Ptr × WORD → World χ → Prop) (ht : ep.toNat < t.size)
    (hcomplete : Complete nbytes maxpktsize sizes) :
    Triple (During V addr t toggle start sizes) (do
      let hrsl ← maxRegRd rHRSL
      let toggle := if hrsl &&& bmRCVTOGRD ≠ 0 then bmRCVTOG1 else bmRCVTOG0
      setEpRecord addr ep fun r => { r with rcvToggle := toggle }
      return .inr 0 : Prog χ ((Ptr × WORD) ⊕ BYTE))
      (Sum.rec I fun _ => Ended V addr t toggle start nbytes maxpktsize) fun _ => True := by
  refine triple_bind (Q := fun hrsl w => During V addr t toggle start sizes w ∧
    (if hrsl &&& bmRCVTOGRD ≠ 0 then bmRCVTOG1 else bmRCVTOG0) =
      toggleBits (V.pair w.chip).send) ⟨?_, fun _ _ _ _ _ => trivial⟩ fun hrsl => ?_
  · intro w hrsl w' hw hr
    cases hr
    refine ⟨(during_rd (by decide) (by decide)).ok w _ _ hw rfl, ?_⟩
    show _ = toggleBits (V.pair (Platform.rd w.chip rHRSL).2).send
    rw [V.rd w.chip rHRSL (by decide), ← hw.after.same, if_congr (V.hrsl w.chip) rfl rfl]
    rfl
  · refine triple_bind (Q := fun _ => Ended V addr t toggle start nbytes maxpktsize)
      ⟨?_, fun _ _ _ _ _ => trivial⟩ fun _ => triple_pure fun _ hw => hw
    intro w a w' ⟨hw, htoggle⟩ hr
    obtain ⟨w₁, hrun, hrecord, hchip, hsizes⟩ := saveToggle_run ht hw.record
      (if hrsl &&& bmRCVTOGRD ≠ 0 then bmRCVTOG1 else bmRCVTOG0)
    cases hrun.symm.trans hr
    refine ⟨hchip.symm ▸ hw.after, ?_⟩
    rw [hsizes, hw.sizes, if_pos hcomplete, hchip, ← htoggle]
    exact hrecord

variable (V nbytes maxpktsize) in
/-- The transfer goes on: the packets so far, whose sizes `xfrlen` counts, do not complete it. -/
def Open (addr : BYTE) (t : EpTable) (toggle : BYTE) (start : Pair) (xfrlen : WORD) (w : World χ) :
    Prop :=
  ∃ sizes, During V addr t toggle start sizes w ∧ xfrlen = BitVec.ofNat 16 (total sizes) ∧
    ¬Complete nbytes maxpktsize sizes

omit V [Platform χ] in
theorem xfrlen_add {xfrlen : WORD} (h : xfrlen = BitVec.ofNat 16 (total sizes)) (size : BYTE) :
    xfrlen + size.setWidth 16 = BitVec.ofNat 16 (total (size :: sizes)) := by
  rw [h, total_cons, Nat.add_comm, BitVec.ofNat_add, BitVec.ofNat_toNat]

/-- One round of the transfer, whatever is received in it. -/
theorem open_inTransferRound (ht : ep.toNat < t.size) (fuel : Fuel) (a : Ptr × WORD) :
    Triple (Open V nbytes maxpktsize addr t toggle start a.2)
      (inTransferRound fuel addr ep nbytes maxpktsize a)
      (Sum.rec (fun a' => Open V nbytes maxpktsize addr t toggle start a'.2)
        fun _ => Ended V addr t toggle start nbytes maxpktsize) fun _ => True := by
  obtain ⟨data, xfrlen⟩ := a
  refine triple_of_forall fun s ⟨sizes, hduring, hlen, hopen⟩ => ?_
  refine Triple.conseq (P := During V addr t toggle start sizes) ?_
    (fun w hw => hw.symm ▸ hduring) fun _ _ hw => hw
  have hL : Launches (χ := χ) (fun _ =>
      Keeps (During V addr t toggle start sizes) (fun _ => True)) tokIN ep :=
    launches_during
  refine triple_bind (hL.xferDispatchPkt fuel) fun rcode =>
    triple_ite (fun _ => triple_pure fun w hw => hw.ended hopen) fun _ => ?_
  refine triple_bind hL.hirq fun hirq =>
    triple_ite (fun _ => triple_pure fun w hw => hw.ended hopen) fun _ => ?_
  refine triple_bind during_rcvbc fun size => triple_bind (during_maxBytesRd size data) fun _ => ?_
  have hcomplete : Complete nbytes maxpktsize (size :: sizes) ↔
      size < maxpktsize ∨ nbytes ≤ xfrlen + size.setWidth 16 := by
    rw [Complete, ← xfrlen_add hlen]
  refine triple_bind (launches_during.wrHirq _) fun _ =>
    triple_ite (fun hdone => ?_) fun hdone => ?_
  · exact ended_saveToggle _ ht (hcomplete.mpr hdone)
  · exact triple_pure fun w hw =>
      ⟨size :: sizes, hw, xfrlen_add hlen size, fun h => hdone (hcomplete.mp h)⟩

/-- A transfer that starts with the toggle of the device. -/
theorem ended_xferInTransfer (ht : ep.toNat < t.size) {w : World χ}
    (hw : HasToggle addr ep t (toggleBits (V.pair w.chip).send) w) (fuel : Fuel) (data : Ptr) :
    Triple (fun s => s = { w with log := [] })
      (xferInTransfer fuel addr ep nbytes data maxpktsize)
      (fun _ => Ended V addr t (toggleBits (V.pair w.chip).send)
        ((V.pair w.chip).load (V.pair w.chip).send) nbytes maxpktsize) fun _ => True := by
  refine triple_bind (Q := fun r s => s = { w with log := [.access addr ep] } ∧
      r.rcvToggle = toggleBits (V.pair w.chip).send) ⟨?_, fun _ _ _ _ _ => trivial⟩ fun r =>
    triple_of_fact fun hr => triple_bind (Q := fun _ => Open V nbytes maxpktsize addr t
      (toggleBits (V.pair w.chip).send) ((V.pair w.chip).load (V.pair w.chip).send) 0)
      ⟨?_, fun _ _ _ _ _ => trivial⟩ fun _ =>
    triple_forever (open_inTransferRound ht fuel) (fun _ _ _ => trivial) fuel.transfer (data, 0)
  · rintro s r s' rfl hr
    have hrun : epRecord addr ep { w with log := [] } =
      .ok (w.host.eps t ep) { w with log := [.access addr ep] } := epRecord_run hw.1 ht
    cases hrun.symm.trans hr
    exact ⟨rfl, hw.2⟩
  -- the write to `HCTL` brings the receiver to the toggle of the record
  · rintro s _ s' rfl hs
    cases hs
    refine ⟨[], ⟨?_, hw, rfl⟩, rfl, id⟩
    show Pair.After _ (V.pair (Platform.wr w.chip rHCTL r.rcvToggle))
    rw [V.hctl, hr, loaded_toggleBits]
    exact .refl rfl

/-! ## Runs of many transfers -/

/-- A call of `XferInTransfer` returns, and leaves what it read in the log. -/
def Returns (addr ep : BYTE) (nbytes : WORD) (maxpktsize : BYTE) (w w' : World χ) : Prop :=
  ∃ fuel data rcode,
    xferInTransfer fuel addr ep nbytes data maxpktsize { w with log := [] } = .ok rcode w'

variable (V)

/-- The packets that were read complete the transfer, or an even number was accepted. -/
def KeepsPace (nbytes : WORD) (maxpktsize : BYTE) (w w' : World χ) : Prop :=
  Complete nbytes maxpktsize (packetSizes w'.log) ∨
    Even ((V.pair w'.chip).accepted - (V.pair w.chip).accepted)

/-- What happens between two transfers of the endpoint. -/
structure Undisturbed (addr : BYTE) (w w' : World χ) : Prop where
  epinfo : (w'.host.devtable addr).epinfo = (w.host.devtable addr).epinfo
  record : ∀ t, (w'.host.eps t ep).rcvToggle = (w.host.eps t ep).rcvToggle
  send : (V.pair w'.chip).send = (V.pair w.chip).send
  dropped : (V.pair w'.chip).dropped = (V.pair w.chip).dropped

/-- From `w` on, transfers of the endpoint that all keep pace. -/
inductive Calls (addr : BYTE) (w : World χ) : World χ → Prop
  | start : Calls addr w w
  | between {w' w'' : World χ} : Calls addr w w' → Undisturbed V addr w' w'' → Calls addr w w''
  | call {nbytes : WORD} {maxpktsize : BYTE} {w' w'' : World χ} : Calls addr w w' →
      Returns addr ep nbytes maxpktsize w' w'' → KeepsPace V nbytes maxpktsize w' w'' →
      Calls addr w w''

variable {V}

theorem InStep.undisturbed {w w' : World χ} (hw : InStep V addr w)
    (h : Undisturbed V addr w w') : InStep V addr w' := by
  obtain ⟨t, ht, hepinfo, hrecord⟩ := hw
  refine ⟨t, ht, h.epinfo.trans hepinfo, ?_⟩
  rw [h.record t, h.send]
  exact hrecord

/-- After a transfer the record has the toggle of the device if and only if it
kept pace. -/
theorem InStep.returns {w w' : World χ} (hw : InStep V addr w)
    (h : Returns addr ep nbytes maxpktsize w w') :
    (InStep V addr w' ↔ KeepsPace V nbytes maxpktsize w w') ∧
      (V.pair w'.chip).dropped = (V.pair w.chip).dropped := by
  obtain ⟨t, ht, htoggle⟩ := hw
  obtain ⟨fuel, data, rcode, hrun⟩ := h
  have hended : Ended V addr t (toggleBits (V.pair w.chip).send)
      ((V.pair w.chip).load (V.pair w.chip).send) nbytes maxpktsize w' :=
    (ended_xferInTransfer ht htoggle fuel data).ok _ _ _ rfl hrun
  have hparity : (V.pair w'.chip).send = (V.pair w.chip).send ↔
      Even ((V.pair w'.chip).accepted - (V.pair w.chip).accepted) := hended.after.send
  refine ⟨?_, hended.after.dropped⟩
  obtain ⟨hepinfo, hrecord⟩ := hended.record
  -- a complete transfer has saved the toggle, any other has left that of the start
  by_cases hcomplete : Complete nbytes maxpktsize (packetSizes w'.log)
  · rw [if_pos hcomplete] at hrecord
    exact iff_of_true ⟨t, ht, hepinfo, hrecord⟩ (.inl hcomplete)
  · rw [if_neg hcomplete] at hrecord
    rw [KeepsPace, or_iff_right hcomplete, ← hparity]
    constructor
    · rintro ⟨t', -, hepinfo', hrecord'⟩
      cases hepinfo.symm.trans hepinfo'
      exact toggleBits_inj (hrecord'.symm.trans hrecord)
    · intro hsend
      exact ⟨t, ht, hepinfo, hsend ▸ hrecord⟩

/-- A run keeps the toggles in step, and so no packet is dropped in it. -/
theorem InStep.calls {w w' : World χ} (hw : InStep V addr w) (h : Calls V addr w w') :
    InStep V addr w' ∧ (V.pair w'.chip).dropped = (V.pair w.chip).dropped := by
  induction h with
  | start => exact ⟨hw, rfl⟩
  | between _ hquiet ih => exact ⟨ih.1.undisturbed hquiet, hquiet.dropped.trans ih.2⟩
  | call _ hreturns hpace ih =>
    obtain ⟨hiff, hdropped⟩ := ih.1.returns hreturns
    exact ⟨hiff.mpr hpace, hdropped.trans ih.2⟩

/-- A transfer that starts with the toggle of the device ends with it if and only if the packets
that were read complete it or an even number was accepted. In a run of such transfers the record
always has the toggle of the device, and no packet is dropped. -/
theorem transfers_inStep (V : Toggles χ ep) (addr : BYTE) :
    (∀ (nbytes : WORD) (maxpktsize : BYTE) (w w' : World χ), InStep V addr w →
      Returns addr ep nbytes maxpktsize w w' →
        (InStep V addr w' ↔ KeepsPace V nbytes maxpktsize w w')) ∧
    ∀ w w' : World χ, InStep V addr w → Calls V addr w w' →
      InStep V addr w' ∧ (V.pair w'.chip).dropped = (V.pair w.chip).dropped :=
  ⟨fun _ _ _ _ hw h => (hw.returns h).1, fun _ _ hw h => hw.calls h⟩

end Transfer

/-! ## A mouse whose report fills a packet -/

/-- What an endpoint answers to an IN token. -/
inductive Answer
  | data (packet : List BYTE)
  | code (rcode : BYTE)

/-- The MAX3421E with one endpoint behind it, which answers as scripted and then with NAK. -/
structure Peer where
  pair : Pair := {}
  answers : List Answer := []
  result : BYTE := 0
  fifo : List BYTE := []
  arrived : Bool := false

/-- The next answer of the endpoint. -/
def Peer.next (c : Peer) : Peer :=
  match c.answers with
  | [] => { c with result := hrNAK }
  | .code rcode :: rest => { c with answers := rest, result := rcode }
  | .data packet :: rest =>
    if c.pair.recv = c.pair.send then
      { pair := c.pair.accept, answers := rest, result := 0, fifo := packet, arrived := true }
    else { c with pair := c.pair.drop (!c.pair.send), answers := rest, result := 0x06 }

instance : Platform Peer where
  rd c reg :=
    if reg = rHIRQ then (bmHXFRDNIRQ ||| if c.arrived then bmRCVDAVIRQ else 0, c)
    else if reg = rHRSL then (c.result &&& 0x0f ||| if c.pair.recv then bmRCVTOGRD else 0, c)
    else if reg = rRCVBC then (BitVec.ofNat 8 c.fifo.length, c)
    else if reg = rRCVFIFO then (c.fifo.headD 0, { c with fifo := c.fifo.tail })
    else (0, c)
  wr c reg val :=
    if reg = rHXFR then c.next
    else if reg = rHCTL then { c with pair := loaded val c.pair }
    else if reg = rHIRQ then { c with arrived := c.arrived && val &&& bmRCVDAVIRQ = 0 }
    else c
  irq c := (1, c)
  gpx c := (0, c)
  nticks c := (0, c)
  stack c := (fun _ => 0, c)

theorem Peer.next_step (c : Peer) : c.pair.Step c.next.pair := by
  unfold next
  split
  · exact .idle
  · exact .idle
  · split
    · next h => exact .accept h
    · next h => exact .drop _ h

/-- What is assumed of the MAX3421E holds of `Peer`. -/
def Peer.toggles : Toggles Peer 1 where
  pair := Peer.pair
  launch := Peer.next_step
  hirq _ := .idle
  nticks _ := .idle
  rd c reg _ := by
    simp only [Platform.rd]
    repeat' split
    all_goals rfl
  hrsl c := by
    have hresult : bmRCVTOGRD &&& (c.result &&& 0x0f) = 0 := by
      rw [BitVec.and_comm, BitVec.and_assoc]
      exact BitVec.and_zero
    show (c.result &&& 0x0f ||| if c.pair.recv then bmRCVTOGRD else 0) &&& bmRCVTOGRD ≠ 0 ↔ _
    rw [BitVec.and_comm, BitVec.and_or_distrib_left, hresult]
    cases c.pair.recv <;> decide
  wrHirq _ _ := rfl
  hctl _ _ := rfl

/-- A boot mouse at address 1 with packets of 4 bytes. -/
def pollingMouse (answers : List Answer) : World Peer where
  chip := { answers := answers }
  host := {
    usbTaskState := usbStateRunning
    devtable := fun a => if a = 1 then { epinfo := some .hidEp, devclass := hidM } else {}
    eps := fun _ _ => { maxPktSize := 4, rcvToggle := bmRCVTOG0 }
    hidDevice := { addr := 1 } }
  mem := fun _ _ => 0

/-- The transfer of a poll of the mouse. -/
def mouseTransfer : Prog Peer BYTE := xferInTransfer ⟨1, 200, 3, 0, 0⟩ 1 1 8 ⟨.mousebuf, 0⟩ 4

/-- Where the transfer of a poll ends. -/
def afterTransfer (w : World Peer) : World Peer := final (mouseTransfer { w with log := [] })

theorem returns_afterTransfer (rcode : BYTE) {w : World Peer}
    (h : value? (mouseTransfer { w with log := [] }) = some rcode) :
    Returns 1 1 8 4 w (afterTransfer w) :=
  ⟨_, _, rcode, eq_ok_of_value? h⟩

/-- A report of 3 bytes. -/
def threeByteReport : World Peer := pollingMouse [.data [0, 1, 0]]

theorem threeByteReport_inStep :
    (InStep Peer.toggles 1 (afterTransfer threeByteReport) ↔
      KeepsPace Peer.toggles 8 4 threeByteReport (afterTransfer threeByteReport)) ∧
    InStep Peer.toggles 1 (afterTransfer threeByteReport) ∧
    (Peer.toggles.pair (afterTransfer threeByteReport).chip).dropped =
      (Peer.toggles.pair threeByteReport.chip).dropped := by
  have hreturned (w' : World Peer) (h : Returns 1 1 8 4 threeByteReport w')
      (hcomplete : Complete 8 4 (packetSizes w'.log)) :
      (InStep Peer.toggles 1 w' ↔ KeepsPace Peer.toggles 8 4 threeByteReport w') ∧
        InStep Peer.toggles 1 w' ∧
        (Peer.toggles.pair w'.chip).dropped = (Peer.toggles.pair threeByteReport.chip).dropped := by
    have hstart : InStep Peer.toggles 1 threeByteReport := by decide +kernel
    exact ⟨(transfers_inStep Peer.toggles 1).1 8 4 threeByteReport w' hstart h,
      (transfers_inStep Peer.toggles 1).2 threeByteReport w' hstart
        (.call .start h (.inl hcomplete))⟩
  exact hreturned _ (returns_afterTransfer 0 (by decide +kernel)) (by decide +kernel)

/-- A report of 4 bytes, no other for a while, and then the next. -/
def fourByteReport : World Peer :=
  pollingMouse (.data [0, 1, 0, 0] :: List.replicate 200 (.code hrNAK) ++ [.data [0, 2, 0, 0]])

/-- The poll waits for more after the full packet and ends with NAK, and the next report is
dropped. -/
theorem fourByteReport_drops :
    InStep Peer.toggles 1 fourByteReport ∧
    Returns 1 1 8 4 fourByteReport (afterTransfer fourByteReport) ∧
    ¬InStep Peer.toggles 1 (afterTransfer fourByteReport) ∧
    Returns 1 1 8 4 (afterTransfer fourByteReport) (afterTransfer (afterTransfer fourByteReport)) ∧
    (afterTransfer (afterTransfer fourByteReport)).chip.pair.dropped = 1 := by
  refine ⟨by decide +kernel, ?_, by decide +kernel, ?_, by decide +kernel⟩
  · exact returns_afterTransfer hrNAK (by decide +kernel)
  · exact returns_afterTransfer 0x06 (by decide +kernel)

end TetrisFpga.Usb
