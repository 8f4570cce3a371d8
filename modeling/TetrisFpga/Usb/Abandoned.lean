import TetrisFpga.Usb.ProbeOutcome
import TetrisFpga.Usb.Records

/-!
# What an abandoned enumeration leaves behind

Nothing is taken back: a probe that gives up once it has found its interface leaves the device
entered, and an address that the device did not accept stays taken. The rest of the table is left
alone, as long as the packets of the configuration fit `bigbuf`.
-/

namespace TetrisFpga.Usb
open Program

section Abandoned

variable {χ : Type} [Platform χ] {driver protocol : BYTE} {fuel : Fuel} {addr : BYTE} {w : World χ}

/-- What a probe that returns FALSE leaves: the table and the HID device as they were if it did not
find its interface, and else the device entered. -/
def ProbeLeaves (driver protocol : BYTE) (probe : Fuel → BYTE → Prog χ Bool) (fuel : Fuel)
    (addr : BYTE) (w : World χ) : Prop :=
  ((∀ total pos, ¬Matched protocol fuel addr w total pos) →
    Tables w.host.devtable w.host.hidDevice (final (probe fuel addr w)).host) ∧
  ∀ total pos, Matched protocol fuel addr w total pos →
    Tables (entered w.host.devtable driver addr) ⟨addr, field (configuration fuel addr w) pos 2⟩
      (final (probe fuel addr w)).host

theorem hidProbe_leaves (hr : value? (hidProbe driver protocol fuel addr w) = some false) :
    ProbeLeaves driver protocol (hidProbe driver protocol) fuel addr w := by
  have hok := eq_ok_of_value? hr
  rw [ProbeLeaves]
  generalize final (hidProbe driver protocol fuel addr w) = w' at hok ⊢
  obtain ⟨hnone, -, htables⟩ | ⟨total, confvalue, hread, hout⟩ := hidProbe_outcome hok
  · refine ⟨fun _ => htables, fun total pos hmatched => ?_⟩
    obtain ⟨⟨confvalue, hread⟩, -⟩ := hmatched
    cases hnone.symm.trans hread
  · have hsame {total' : WORD} {pos : ℕ} (h : Matched protocol fuel addr w total' pos) :
        total' = total := by
      obtain ⟨⟨confvalue', hread'⟩, -⟩ := h
      have hpair := hread'.symm.trans hread
      simp only [Option.some.injEq, Prod.mk.injEq] at hpair
      exact hpair.1
    cases hout with
    | passed hnot htables =>
      refine ⟨fun _ => htables, fun total' pos hmatched => ?_⟩
      obtain rfl := hsame hmatched
      exact absurd hmatched.2 (hnot pos)
    | entered pos hfinds htables =>
      have hmatched : Matched protocol fuel addr w total pos := ⟨⟨confvalue, hread⟩, hfinds⟩
      refine ⟨fun hnot => absurd hmatched (hnot total pos), fun total' pos' hmatched' => ?_⟩
      obtain ⟨-, rfl⟩ := hmatched.unique hmatched'
      exact htables

/-- The world in which the address `i` is tried. -/
def triedAddress (i : BYTE) (w : World χ) : World χ :=
  final (setEpinfo i (w.host.devtable 0).epinfo w)

/-- The table with the record of address 0 in the entry for the new address, too. -/
def tried (table : BYTE → DevRecord) (i : BYTE) : BYTE → DevRecord := fun a =>
  if a = i then { table i with epinfo := (table 0).epinfo } else table a

/-- The entry that is tried for the new address keeps the record of address 0. -/
theorem addressingTask_leaves {i rcode : BYTE} (hfree : freeEntry w.host = some i)
    (hr : value? (xferSetAddr fuel 0 0 i (triedAddress i w)) = some rcode) (hfailed : rcode ≠ 0) :
    ∃ w', addressingTask fuel w = .ok () w' ∧ w'.host.devtable = tried w.host.devtable i := by
  have hget (s : World χ) : (getHost : Prog χ Host) s = .ok s.host s := rfl
  have hset : setEpinfo i (w.host.devtable 0).epinfo w = .ok () (triedAddress i w) := rfl
  have hok := eq_ok_of_value? hr
  generalize final (xferSetAddr fuel 0 0 i (triedAddress i w)) = w₁ at hok
  -- the request leaves the variables alone
  have hC : Dispatches (χ := χ) fun _ =>
      Keeps (Knows (w.mem .bigbuf) fun h => h = (triedAddress i w).host) (fun _ => True) :=
    dispatches_know
  have hrequest : Keeps (Knows (w.mem .bigbuf) fun h => h = (triedAddress i w).host) (fun _ => True)
      (xferSetAddr fuel 0 0 i : Prog χ BYTE) :=
    hC.xferCtrlReq_none fuel _ _ _ _ _ _ _ _
  have htried : Knows (w.mem .bigbuf) (fun h => h = (triedAddress i w).host) (triedAddress i w) :=
    ⟨rfl, rfl⟩
  have hhost : w₁.host = (triedAddress i w).host := (hrequest.ok _ rcode w₁ htried hok).2
  have herror : setUsbError rcode w₁ = .ok () (final (setUsbError rcode w₁)) := rfl
  have hassign : assignAddress fuel i w = .ok () (final (setUsbError rcode w₁)) := by
    rw [assignAddress, bind_of_ok (hget w), bind_of_ok hset, bind_of_ok hok, if_neg hfailed]
    exact herror
  have hstate : (final (setUsbError rcode w₁)).host.usbTaskState ≠ usbStateAddressing := by
    show usbStateError ≠ usbStateAddressing
    decide
  refine ⟨final (setUsbError rcode w₁), ?_, ?_⟩
  · rw [addressingTask, bind_of_ok (hget w), hfree, assignFreeAddress, bind_of_ok hassign,
      bind_of_ok (hget _), when, if_neg hstate]
    rfl
  · show w₁.host.devtable = _
    rw [hhost]
    rfl

/-! ## The table in memory -/

omit [Platform χ] in
theorem inMemory_of_ok {α : Type} {x : Prog χ α} {a : α} {w' : World χ}
    (hx : KeepsUnless .deref (Tracked w.host) x) (hlog : w.log = []) (hok : x w = .ok a w')
    (hconfined : Confined w'.log) : InMemory w.host w'.log w'.host := by
  have hstart : Tracked w.host w := by
    refine ⟨?_, ?_⟩
    · rw [hlog]
      rfl
    · rw [hlog]
      trivial
  refine ⟨fun b k => ?_⟩
  rw [(hx.ok w a w' hstart hok).host]
  exact memByte_eq hconfined w.host b k

theorem hidProbe_inMemory (hlog : w.log = [])
    (hr : value? (hidProbe driver protocol fuel addr w) = some false)
    (hfit : PacketsFit (final (hidProbe driver protocol fuel addr w)).log) :
    InMemory w.host (final (hidProbe driver protocol fuel addr w)).log
      (final (hidProbe driver protocol fuel addr w)).host := by
  have hplaces : Moves Places (hidProbe driver protocol fuel addr : Prog χ Bool) :=
    loop_placing.hidProbe driver protocol fuel addr
  have hplaced : Placed w.log := hlog ▸ placed_nil
  exact inMemory_of_ok (loop_tracked.hidProbe driver protocol fuel addr) hlog (eq_ok_of_value? hr)
    (confined_of_packetsFit ((hplaces w).placed hplaced) hfit)

/-- Setting the address stores nothing. -/
theorem quiet_addressingTask (fuel : Fuel) :
    Moves Quiet (addressingTask fuel : Prog χ Unit) := by
  have hC : Dispatches fun α (x : Prog χ α) => Moves Quiet x := dispatches_quiet
  have hget : Moves Quiet (getHost : Prog χ Host) := fun _ => ⟨rfl, rfl⟩
  have herror (rcode : BYTE) : Moves Quiet (setUsbError rcode : Prog χ Unit) :=
    hC.bind (moves_setHost _) fun _ => hC.bind (moves_setHost _) fun _ => moves_setHost _
  have hassign (i : BYTE) : Moves Quiet (assignAddress fuel i : Prog χ Unit) := by
    refine hC.bind hget fun _ => hC.bind (moves_setHost _) fun _ => ?_
    refine hC.bind (hC.xferCtrlReq_none _ _ _ _ _ _ _ _ _) fun rcode => hC.ite ?_ (herror rcode)
    exact hC.bind (moves_setHost _) fun _ => moves_setHost _
  refine hC.bind hget fun h => hC.bind ?_ fun _ => hC.bind hget fun _ => hC.when (herror _)
  cases freeEntry h with
  | none => exact hC.pure ()
  | some i => exact hassign i

/-- What the probes and the addressing leave where they fail, in the variables and in memory, for
every device whose packets fit. -/
theorem abandoned_leaves (fuel : Fuel) (addr i rcode : BYTE) (w : World χ) (hlog : w.log = []) :
    (value? (hidmProbe fuel addr w) = some false →
      PacketsFit (final (hidmProbe fuel addr w)).log →
      ProbeLeaves hidM hidProtocolMouse hidmProbe fuel addr w ∧
        InMemory w.host (final (hidmProbe fuel addr w)).log
          (final (hidmProbe fuel addr w)).host) ∧
    (value? (hidkProbe fuel addr w) = some false →
      PacketsFit (final (hidkProbe fuel addr w)).log →
      ProbeLeaves hidK hidProtocolKeyboard hidkProbe fuel addr w ∧
        InMemory w.host (final (hidkProbe fuel addr w)).log
          (final (hidkProbe fuel addr w)).host) ∧
    (freeEntry w.host = some i →
      value? (xferSetAddr fuel 0 0 i (triedAddress i w)) = some rcode → rcode ≠ 0 →
      (final (addressingTask fuel w)).host.devtable = tried w.host.devtable i ∧
        InMemory w.host (final (addressingTask fuel w)).log
          (final (addressingTask fuel w)).host) := by
  refine ⟨fun hr hfit => ⟨hidProbe_leaves hr, hidProbe_inMemory hlog hr hfit⟩,
    fun hr hfit => ⟨hidProbe_leaves hr, hidProbe_inMemory hlog hr hfit⟩, fun hfree hr hfailed => ?_⟩
  obtain ⟨w', hok, htable⟩ := addressingTask_leaves hfree hr hfailed
  obtain ⟨hquiet, -⟩ : Quiet w (final (addressingTask fuel w)) := quiet_addressingTask fuel w
  rw [hok] at hquiet ⊢
  have hconfined : Confined w'.log := by
    intro p hp
    have hnone : p ∈ stored w.log := hquiet ▸ hp
    rw [hlog] at hnone
    cases hnone
  exact ⟨htable, inMemory_of_ok (loop_tracked.addressingTask fuel) hlog hok hconfined⟩

end Abandoned

/-! ## A keyboard and an address that are given up -/

/-- The replies of a keyboard that stalls SET_PROTOCOL. -/
def stallingKeyboard : World Script :=
  probed (reply (keyboardConfiguration.take 9) ++ reply keyboardConfiguration ++
    [0x80, 0x00, 0x80, 0x00, 0x80, 0x05])

/-- A device that does not answer SET_ADDRESS, in the state in which it is to get one. -/
def deafDevice : World Script where
  chip := { answers := [0x80, 0x05] }
  host := {
    usbTaskState := usbStateAddressing
    devtable := fun a => if a = 0 then { epinfo := some .dev0ep } else {} }
  mem := fun _ _ => 0

theorem abandoned_leaves_keyboard :
    ProbeLeaves hidM hidProtocolMouse hidmProbe ⟨9, 9, 9, 9, 9⟩ 1 stallingKeyboard ∧
      ProbeLeaves hidK hidProtocolKeyboard hidkProbe ⟨9, 9, 9, 9, 9⟩ 1 stallingKeyboard ∧
      ((final (addressingTask ⟨9, 9, 9, 9, 9⟩ deafDevice)).host.devtable 1).epinfo =
        some .dev0ep := by
  refine ⟨((abandoned_leaves ⟨9, 9, 9, 9, 9⟩ 1 1 5 stallingKeyboard rfl).1 (by decide +kernel)
      (by decide +kernel)).1,
    ((abandoned_leaves ⟨9, 9, 9, 9, 9⟩ 1 1 5 stallingKeyboard rfl).2.1 (by decide +kernel)
      (by decide +kernel)).1, ?_⟩
  rw [((abandoned_leaves ⟨9, 9, 9, 9, 9⟩ 1 1 5 deafDevice rfl).2.2 (by decide +kernel)
    (by decide +kernel) (by decide)).1]
  rfl

/-- The probe of the keyboard returns FALSE with the keyboard entered, and the entry of the address
that could not be set is not NULL. -/
theorem abandoned_not_undone :
    (value? (hidkProbe ⟨9, 9, 9, 9, 9⟩ 1 stallingKeyboard) = some false ∧
      (final (hidkProbe ⟨9, 9, 9, 9, 9⟩ 1 stallingKeyboard)).host.devtable 1 ≠
        stallingKeyboard.host.devtable 1 ∧
      (final (hidkProbe ⟨9, 9, 9, 9, 9⟩ 1 stallingKeyboard)).host.hidDevice ≠
        stallingKeyboard.host.hidDevice) ∧
    (freeEntry deafDevice.host = some 1 ∧
      value? (xferSetAddr ⟨9, 9, 9, 9, 9⟩ 0 0 1 (triedAddress 1 deafDevice)) = some 5 ∧
      ((final (addressingTask ⟨9, 9, 9, 9, 9⟩ deafDevice)).host.devtable 1).epinfo ≠ none) := by
  decide +kernel

end TetrisFpga.Usb
