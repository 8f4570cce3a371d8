import Mathlib.Algebra.GroupWithZero.Nat
import Mathlib.Tactic.Tauto
import TetrisFpga.Usb.Transfer

/-!
# Where `XferInTransfer` writes

A packet of `n` bytes goes to the `n` bytes from the write pointer on, and an empty packet
to the byte before it. The pointer is advanced by what the device reports, so the transfer
stays inside the requested area exactly as long as the device's packets fit it.
-/

namespace TetrisFpga.Usb
open Program

/-- The address of a store. -/
def Event.storeTo : Event → Option Ptr
  | .store p _ => some p
  | _ => none

/-- The packet length that `RCVBC` reported. -/
def Event.packetSize : Event → Option BYTE
  | .rd reg val => if reg = rRCVBC then some val else none
  | _ => none

/-- The addresses that were stored to. -/
def stored (log : List Event) : List Ptr := log.filterMap Event.storeTo

/-- The packet lengths, the newest first. -/
def packetSizes (log : List Event) : List BYTE := log.filterMap Event.packetSize

/-- The number of bytes in packets of the given sizes. -/
def total (sizes : List BYTE) : ℕ := (sizes.map BitVec.toNat).sum

@[simp] theorem total_cons (size : BYTE) (earlier : List BYTE) :
    total (size :: earlier) = size.toNat + total earlier := by
  simp [total]

/-- The packets, the newest first, fit `nbytes` bytes: each one ends at least one byte
after the start of the area and not after its end. -/
def Fits (nbytes : ℕ) : List BYTE → Prop
  | [] => True
  | size :: earlier =>
    Fits nbytes earlier ∧ 1 ≤ total (size :: earlier) ∧ total (size :: earlier) ≤ nbytes

/-- `p` is one of `data[0], ..., data[nbytes-1]`. -/
def InArea (data : Ptr) (nbytes : ℕ) (p : Ptr) : Prop :=
  p.obj = data.obj ∧ data.off ≤ p.off ∧ p.off < data.off + nbytes

instance (data : Ptr) (nbytes : ℕ) (p : Ptr) : Decidable (InArea data nbytes p) :=
  inferInstanceAs (Decidable (_ ∧ _ ∧ _))

/-- Neither a store nor a reading of `RCVBC`. -/
def Event.Silent (e : Event) : Prop := e.storeTo = none ∧ e.packetSize = none

theorem stored_cons {e : Event} (h : e.Silent) (log : List Event) :
    stored (e :: log) = stored log := List.filterMap_cons_none h.1

theorem packetSizes_cons {e : Event} (h : e.Silent) (log : List Event) :
    packetSizes (e :: log) = packetSizes log := List.filterMap_cons_none h.2

theorem Event.silent_rd {reg : BYTE} (h : reg ≠ rRCVBC) (val : BYTE) :
    (Event.rd reg val).Silent := by
  refine ⟨rfl, ?_⟩
  rw [Event.packetSize, if_neg h]

variable {χ : Type}

/-- From `w` to `w'` nothing was stored and no packet length was read. -/
def Quiet (w w' : World χ) : Prop :=
  stored w'.log = stored w.log ∧ packetSizes w'.log = packetSizes w.log

theorem quiet_of_log {w w' : World χ} {e : Event} (he : e.Silent) (h : w'.log = e :: w.log) :
    Quiet w w' := by
  rw [Quiet, h, stored_cons he, packetSizes_cons he]
  exact ⟨rfl, rfl⟩

theorem moves_setHost (f : Host → Host) : Moves Quiet (setHost f : Prog χ Unit) :=
  fun _ => quiet_of_log ⟨rfl, rfl⟩ rfl

section Moves

variable [Platform χ]

theorem moves_maxRegRd {reg : BYTE} (h : reg ≠ rRCVBC) :
    Moves Quiet (maxRegRd reg : Prog χ BYTE) :=
  fun _ => quiet_of_log (Event.silent_rd h _) rfl

theorem moves_maxRegWr (reg val : BYTE) : Moves Quiet (maxRegWr reg val : Prog χ Unit) :=
  fun _ => quiet_of_log ⟨rfl, rfl⟩ rfl

theorem dispatches_quiet : Dispatches fun _ => Moves (Quiet (χ := χ)) where
  toClosed := closed_moves (fun _ => ⟨rfl, rfl⟩) fun h h' => ⟨h'.1.trans h.1, h'.2.trans h.2⟩
  hirq := moves_maxRegRd (by decide)
  hrsl := moves_maxRegRd (by decide)
  wr := moves_maxRegWr
  nticks _ := quiet_of_log ⟨rfl, rfl⟩ rfl
  wait _ := ⟨rfl, rfl⟩
  dispatch _ := ⟨rfl, rfl⟩

theorem moves_epinfo (addr ep : BYTE) : Moves Quiet (epinfo addr ep : Prog χ EpTable) :=
  epinfo_mem dispatches_quiet.toClosed (fun _ => quiet_of_log ⟨rfl, rfl⟩ rfl)
    (fun _ => ⟨rfl, rfl⟩) fun _ => ⟨rfl, rfl⟩

theorem moves_epRecord (addr ep : BYTE) : Moves Quiet (epRecord addr ep : Prog χ EpRecord) :=
  dispatches_quiet.bind (moves_epinfo addr ep) fun _ =>
    dispatches_quiet.bind (fun _ => ⟨rfl, rfl⟩ : Moves Quiet getHost) fun _ =>
      dispatches_quiet.pure _

theorem moves_setEpRecord (addr ep : BYTE) (f : EpRecord → EpRecord) :
    Moves Quiet (setEpRecord addr ep f : Prog χ Unit) :=
  dispatches_quiet.bind (moves_epinfo addr ep) fun _ => moves_setHost _

end Moves

/-! ## The tally of a transfer -/

variable (data : Ptr) (nbytes : ℕ)

/-- The stores so far lie in the area if and only if the packets so far fit it. -/
def Sound (w : World χ) : Prop :=
  (∀ p ∈ stored w.log, InArea data nbytes p) ↔ Fits nbytes (packetSizes w.log)

/-- `Sound`, and the write pointer stands after the packets so far. -/
def Tally (cur : Ptr) (w : World χ) : Prop :=
  cur = data.add (total (packetSizes w.log)) ∧ Sound data nbytes w

/-- The length of the next packet has been read, but not yet the packet. -/
def Pending (cur : Ptr) (size : BYTE) (w : World χ) : Prop :=
  ∃ earlier, packetSizes w.log = size :: earlier ∧ cur = data.add (total earlier) ∧
    ((∀ p ∈ stored w.log, InArea data nbytes p) ↔ Fits nbytes earlier)

variable {data nbytes}

theorem Sound.of_quiet {w w' : World χ} (hq : Quiet w w') (h : Sound data nbytes w) :
    Sound data nbytes w' := by
  rw [Sound, hq.1, hq.2]
  exact h

theorem Tally.of_quiet {cur : Ptr} {w w' : World χ} (hq : Quiet w w')
    (h : Tally data nbytes cur w) : Tally data nbytes cur w' := by
  refine ⟨?_, h.2.of_quiet hq⟩
  rw [hq.2]
  exact h.1

/-- A program that stores nothing and reads no packet length keeps the tally. -/
theorem keeps_tally {α : Type} {x : Prog χ α} (hx : Moves Quiet x) (cur : Ptr) :
    Keeps (Tally data nbytes cur) (Sound data nbytes) x where
  ok w a w' hw hr := (hx.keeps fun _ _ => Tally.of_quiet).ok w a w' hw hr
  error w e w' hw hr := (hx.keeps fun _ _ => Sound.of_quiet).error w e w' hw.2 hr

section Transfer

variable [Platform χ]

theorem rdByte_run {reg : BYTE} (hreg : reg ≠ rRCVBC) (p : Ptr) (w : World χ) :
    ∃ w', rdByte reg p w = .ok () w' ∧ packetSizes w'.log = packetSizes w.log ∧
      stored w'.log = p :: stored w.log := by
  refine ⟨_, rfl, ?_, ?_⟩
  · exact packetSizes_cons (Event.silent_rd hreg _) w.log
  · rfl

/-- A burst of reads stores to the addresses it is given and to no other. -/
theorem rdBytes_run {reg : BYTE} (hreg : reg ≠ rRCVBC) (at_ : ℕ → Ptr) (is : List ℕ)
    (w : World χ) :
    ∃ w', (is.forM fun i => rdByte reg (at_ i)) w = .ok () w' ∧
      packetSizes w'.log = packetSizes w.log ∧
      ∀ A : Ptr → Prop, (∀ p ∈ stored w'.log, A p) ↔
        (∀ i ∈ is, A (at_ i)) ∧ ∀ p ∈ stored w.log, A p := by
  induction is generalizing w with
  | nil => exact ⟨w, rfl, rfl, by simp⟩
  | cons i is ih =>
    obtain ⟨w₁, hr, hp, hs⟩ := rdByte_run hreg (at_ i) w
    obtain ⟨w₂, hr', hp', hs'⟩ := ih w₁
    refine ⟨w₂, ?_, hp'.trans hp, fun A => ?_⟩
    · exact (bind_of_ok hr _).trans hr'
    · rw [hs', hs, List.forall_mem_cons, List.forall_mem_cons]
      tauto

/-- `MAXbytes_rd` stores to the `nbytes` bytes of its buffer, and to the byte before it
where `nbytes` is 0. -/
theorem maxBytesRd_run {reg : BYTE} (hreg : reg ≠ rRCVBC) (size : BYTE) (cur : Ptr)
    (w : World χ) :
    ∃ w', maxBytesRd reg size cur w = .ok (cur.add size.toNat) w' ∧
      packetSizes w'.log = packetSizes w.log ∧
      ∀ A : Ptr → Prop, (∀ p ∈ stored w'.log, A p) ↔
        A (cur.add (size.toNat - 1)) ∧ (∀ i < size.toNat - 1, A (cur.add (i : ℕ))) ∧
          ∀ p ∈ stored w.log, A p := by
  obtain ⟨w₁, hr, hp, hs⟩ := rdBytes_run hreg (fun i => cur.add i)
    (List.range (size.toNat - 1)) w
  obtain ⟨w₂, hr', hp', hs'⟩ := rdByte_run hreg (cur.add (size.toNat - 1)) w₁
  refine ⟨w₂, ?_, hp'.trans hp, fun A => ?_⟩
  · rw [maxBytesRd, bind_of_ok hr, bind_of_ok hr']
    rfl
  · rw [hs', List.forall_mem_cons, hs]
    simp only [List.mem_range]

/-- The bytes of a packet lie in the area if and only if its end does. -/
theorem packet_inArea_iff {cur : Ptr} {done : ℕ} (hcur : cur = data.add done) (size : ℕ) :
    (InArea data nbytes (cur.add (size - 1)) ∧
        ∀ i < size - 1, InArea data nbytes (cur.add (i : ℕ))) ↔
      1 ≤ size + done ∧ size + done ≤ nbytes := by
  subst hcur
  simp only [InArea, Ptr.add_obj, Ptr.add_off, true_and]
  constructor
  · rintro ⟨h, -⟩
    omega
  · intro h
    exact ⟨by omega, fun i hi => by omega⟩

theorem pending_maxBytesRd (cur : Ptr) (size : BYTE) :
    Triple (Pending data nbytes cur size) (maxBytesRd rRCVFIFO size cur : Prog χ Ptr)
      (fun cur' => Tally data nbytes cur') (Sound data nbytes) where
  ok w a w' hw hr := by
    obtain ⟨earlier, hsizes, hcur, hiff⟩ := hw
    obtain ⟨w₁, hrun, hp, hs⟩ := maxBytesRd_run (by decide : rRCVFIFO ≠ rRCVBC) size cur w
    rw [hrun] at hr
    cases hr
    refine ⟨?_, ?_⟩
    · rw [hp, hsizes, hcur, total_cons]
      simp only [Ptr.add, Ptr.mk.injEq, true_and]
      omega
    · rw [Sound, hs, hp, hsizes, Fits, ← and_assoc, packet_inArea_iff hcur, hiff, total_cons]
      tauto
  error w e w' hw hr := by
    obtain ⟨w₁, hrun, -⟩ := maxBytesRd_run (by decide : rRCVFIFO ≠ rRCVBC) size cur w
    rw [hrun] at hr
    cases hr

theorem tally_rcvbc (cur : Ptr) :
    Triple (Tally data nbytes cur) (maxRegRd rRCVBC : Prog χ BYTE)
      (fun size => Pending data nbytes cur size) (Sound data nbytes) where
  ok w a w' hw hr := by
    cases hr
    exact ⟨packetSizes w.log, rfl, hw.1, hw.2⟩
  error w e w' _ hr := by cases hr

variable (data nbytes) in
/-- One round of the transfer keeps the tally, whatever the device answers. -/
theorem tally_inTransferRound (fuel : Fuel) (addr ep : BYTE) (n : WORD) (maxpktsize : BYTE)
    (a : Ptr × WORD) :
    Triple (Tally data nbytes a.1) (inTransferRound fuel addr ep n maxpktsize a : Prog χ _)
      (Sum.rec (fun a' => Tally data nbytes a'.1) fun _ => Sound data nbytes)
      (Sound data nbytes) := by
  obtain ⟨cur, xfrlen⟩ := a
  refine triple_bind (keeps_tally (dispatches_quiet.xferDispatchPkt fuel tokIN ep) cur)
    fun rcode => triple_ite (fun _ => triple_pure fun w h => h.2) fun _ => ?_
  refine triple_bind (keeps_tally dispatches_quiet.hirq cur) fun hirq =>
    triple_ite (fun _ => triple_pure fun w h => h.2) fun _ => ?_
  refine triple_bind (tally_rcvbc cur) fun size =>
    triple_bind (pending_maxBytesRd cur size) fun cur' => ?_
  refine triple_bind (keeps_tally (moves_maxRegWr _ _) cur') fun _ => triple_ite (fun _ => ?_)
    fun _ => triple_pure fun w h => h
  refine triple_bind (keeps_tally dispatches_quiet.hrsl cur') fun hrsl => ?_
  exact triple_bind (keeps_tally (moves_setEpRecord addr ep _) cur') fun _ =>
    triple_pure fun w h => h.2

theorem tally_xferInTransfer (fuel : Fuel) (addr ep : BYTE) (n : WORD) (maxpktsize : BYTE) :
    Triple (Tally data nbytes data) (xferInTransfer fuel addr ep n data maxpktsize : Prog χ BYTE)
      (fun _ => Sound data nbytes) (Sound data nbytes) := by
  refine triple_bind (keeps_tally (moves_epRecord addr ep) data) fun r =>
    triple_bind (keeps_tally (moves_maxRegWr _ _) data) fun _ => ?_
  exact triple_forever (tally_inTransferRound data nbytes fuel addr ep n maxpktsize)
    (fun _ _ h => h.2) fuel.transfer (data, 0)

/-- Every byte that `XferInTransfer` stores lies in the requested area if and only if every
packet it receives ends inside the area, the empty ones included. -/
theorem xferInTransfer_inArea_iff (fuel : Fuel) (addr ep : BYTE) (n : WORD) (data : Ptr)
    (maxpktsize : BYTE) (w : World χ) :
    (∀ p ∈ stored (events (xferInTransfer fuel addr ep n data maxpktsize) w),
        InArea data n.toNat p) ↔
      Fits n.toNat (packetSizes (events (xferInTransfer fuel addr ep n data maxpktsize) w)) := by
  have h : Triple (Tally data n.toNat data)
      (xferInTransfer fuel addr ep n data maxpktsize : Prog χ BYTE)
      (fun _ => Sound data n.toNat) (Sound data n.toNat) :=
    tally_xferInTransfer fuel addr ep n maxpktsize
  have hstart : Tally data n.toNat data { w with log := [] } :=
    ⟨by simp [Ptr.add, packetSizes, total], by simp [Sound, stored, packetSizes, Fits]⟩
  exact h.final hstart

end Transfer

/-! ## A report that is too long -/

/-- A keyboard in boot protocol at address 1. -/
def pollingKeyboard (answers : List BYTE) : World Script where
  chip := { answers := answers }
  host := {
    usbTaskState := usbStateRunning
    devtable := fun a => if a = 1 then { epinfo := some .hidEp, devclass := hidK } else {}
    eps := fun _ _ => { maxPktSize := 8 }
    hidDevice := { addr := 1 } }
  mem := fun _ _ => 0

/-- The poll of 8 bytes answered by a packet of 9. -/
def longReport : World Script :=
  pollingKeyboard [0x80, 0x00, 0x04, 9, 0, 0, 4, 0, 0, 0, 0, 0, 7, 0x10]

/-- The ninth byte goes behind the report. -/
theorem report_behind_kbdbuf :
    ¬ ∀ p ∈ stored (events (xferInTransfer ⟨9, 9, 9, 9, 9⟩ 1 1 8 ⟨.kbdbuf, 0⟩ 8 : Prog Script _)
        longReport), InArea ⟨.kbdbuf, 0⟩ 8 p := by
  decide +kernel

end TetrisFpga.Usb
