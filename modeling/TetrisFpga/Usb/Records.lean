import TetrisFpga.Usb.EndpointsMain
import TetrisFpga.Usb.Placing

/-!
# The endpoint records in memory

Every access to an endpoint record leaves its address and index in the log, and by the variables
the record is there at each of them. Whether the processor finds it there depends on the packets:
where they fit, the table in memory is the one of the variables, and where a configuration runs
over the end of `bigbuf` it is not.
-/

namespace TetrisFpga.Usb
open Program History

/-- `devtable[addr].epinfo[ep]` is looked up. -/
def Event.accessed : Event → Option (BYTE × BYTE)
  | .access addr ep => some (addr, ep)
  | _ => none

/-! ## Records by the variables -/

section Tracked

variable {χ : Type} {h₀ : Host}

/-- The log has the variables, and every record that was looked up was there. -/
structure Tracked (h₀ : Host) (w : World χ) : Prop where
  host : w.host = lastHost h₀ w.log
  valid : Always (fun e log => ∀ r ∈ e.accessed, Valid (lastHost h₀ log) r.1 r.2) w.log

theorem Tracked.event {w w' : World χ} {e : Event} (h : Tracked h₀ w)
    (hsnapshot : e.snapshot = none) (haccess : e.accessed = none) (hhost : w'.host = w.host)
    (hlog : w'.log = e :: w.log) : Tracked h₀ w' := by
  refine ⟨?_, ?_⟩
  · rw [hhost, hlog, h.host, lastHost, lastHost, snapshots, snapshots,
      List.filterMap_cons_none hsnapshot]
  · rw [hlog]
    refine ⟨fun r hr => ?_, h.valid⟩
    rw [haccess] at hr
    cases hr

theorem Tracked.same {w w' : World χ} (h : Tracked h₀ w) (hhost : w'.host = w.host)
    (hlog : w'.log = w.log) : Tracked h₀ w' :=
  ⟨by rw [hhost, hlog, h.host], hlog ▸ h.valid⟩

/-- A program with one event that is no assignment and no access. -/
theorem tracked_event {α : Type} {x : Prog χ α}
    (hx : ∀ w, ∃ a w' e, x w = .ok a w' ∧ e.snapshot = none ∧ e.accessed = none ∧
      w'.host = w.host ∧ w'.log = e :: w.log) :
    KeepsUnless .deref (Tracked h₀) x where
  ok w a w' hw hr := by
    obtain ⟨b, w₁, e, hr', hsnapshot, haccess, hhost, hlog⟩ := hx w
    cases hr'.symm.trans hr
    exact hw.event hsnapshot haccess hhost hlog
  error w e w' _ hr := by
    obtain ⟨b, w₁, e, hr', -⟩ := hx w
    cases hr'.symm.trans hr

theorem tracked_still {α : Type} {x : Prog χ α}
    (hx : ∀ w, ∃ a w', x w = .ok a w' ∧ w'.host = w.host ∧ w'.log = w.log) :
    KeepsUnless .deref (Tracked h₀) x where
  ok w a w' hw hr := by
    obtain ⟨b, w₁, hr', hhost, hlog⟩ := hx w
    cases hr'.symm.trans hr
    exact hw.same hhost hlog
  error w e w' _ hr := by
    obtain ⟨b, w₁, hr', -⟩ := hx w
    cases hr'.symm.trans hr

theorem tracked_setHost (f : Host → Host) :
    KeepsUnless .deref (Tracked h₀) (setHost f : Prog χ Unit) where
  ok w a w' hw hr := by
    cases hr
    exact ⟨rfl, fun _ => nofun, hw.valid⟩
  error w e w' _ hr := by cases hr

/-- The lookup goes on only where the record is there. -/
theorem tracked_epinfo (addr ep : BYTE) :
    KeepsUnless .deref (Tracked h₀) (epinfo addr ep : Prog χ EpTable) where
  ok w a w' hw hr := by
    by_cases hvalid : Valid w.host addr ep
    · obtain ⟨t, ht, hep⟩ := hvalid
      cases (epinfo_run ht hep).symm.trans hr
      refine ⟨hw.host, fun r hr => ?_, hw.valid⟩
      cases hr
      rw [← hw.host]
      exact ⟨a, ht, hep⟩
    -- without the record the run ends here
    · cases (epinfo_missing hvalid).symm.trans hr
  error w e w' hw hr hne := by
    by_cases hvalid : Valid w.host addr ep
    · obtain ⟨t, ht, hep⟩ := hvalid
      cases (epinfo_run ht hep).symm.trans hr
    · cases (epinfo_missing hvalid).symm.trans hr
      exact absurd rfl hne

variable [Platform χ]

theorem tracked_rd (reg : BYTE) :
    KeepsUnless .deref (Tracked h₀) (maxRegRd reg : Prog χ BYTE) :=
  tracked_event fun _ => ⟨_, _, _, rfl, rfl, rfl, rfl, rfl⟩

theorem tracked_wr (reg val : BYTE) :
    KeepsUnless .deref (Tracked h₀) (maxRegWr reg val : Prog χ Unit) :=
  tracked_event fun _ => ⟨_, _, _, rfl, rfl, rfl, rfl, rfl⟩

theorem requestsAt_tracked (addr ep : BYTE) :
    RequestsAt (χ := χ) (fun _ => KeepsUnless .deref (Tracked h₀)) addr ep where
  toClosed := closed_keepsUnless _ _
  hirq := tracked_rd rHIRQ
  hrsl := tracked_rd rHRSL
  wr := tracked_wr
  nticks := tracked_event fun _ => ⟨_, _, _, rfl, rfl, rfl, rfl, rfl⟩
  wait := keepsUnless_throw _
  dispatch := keepsUnless_throw _
  rd := tracked_rd
  store _ _ := tracked_event fun _ => ⟨_, _, _, rfl, rfl, rfl, rfl, rfl⟩
  getHost := tracked_still fun _ => ⟨_, _, rfl, rfl, rfl⟩
  setEp _ _ _ := tracked_setHost _
  transfer := keepsUnless_throw _
  epinfo := tracked_epinfo addr ep

theorem loop_tracked : Loop (χ := χ) fun _ => KeepsUnless .deref (Tracked h₀) where
  toClosed := closed_keepsUnless _ _
  getHost := tracked_still fun _ => ⟨_, _, rfl, rfl, rfl⟩
  assign f _ := tracked_setHost f
  setState _ _ := tracked_setHost _
  declare _ := tracked_still fun _ => ⟨_, _, rfl, rfl, rfl⟩
  load _ := tracked_event fun _ => ⟨_, _, _, rfl, rfl, rfl, rfl, rfl⟩
  store _ _ _ := tracked_event fun _ => ⟨_, _, _, rfl, rfl, rfl, rfl, rfl⟩
  getPio := tracked_still fun _ => ⟨_, _, rfl, rfl, rfl⟩
  setPio _ := tracked_still fun _ => ⟨_, _, rfl, rfl, rfl⟩
  nticks := tracked_event fun _ => ⟨_, _, _, rfl, rfl, rfl, rfl, rfl⟩
  rd := tracked_rd
  wr reg val _ := tracked_wr reg val
  epinfo := tracked_epinfo
  fault e _ _ := keepsUnless_throw e
  inTransfer fuel addr nbytes o maxpktsize :=
    (requestsAt_tracked addr 1).xferInTransfer fuel nbytes ⟨o, 0⟩ maxpktsize
  request _ _ fuel addr ep := (requestsAt_tracked addr ep).xferCtrlReq fuel _ _ _ _ _ _ _
  setHost := tracked_setHost
  irq := tracked_event fun _ => ⟨_, _, _, rfl, rfl, rfl, rfl, rfl⟩
  gpx := tracked_event fun _ => ⟨_, _, _, rfl, rfl, rfl, rfl, rfl⟩
  usbRst _ := tracked_event fun _ => ⟨_, _, _, rfl, rfl, rfl, rfl, rfl⟩
  reset := keepsUnless_throw _

/-- In a run of `main` from power-up every record is there when it is looked up: the run would have
ended with a fault otherwise. -/
theorem main_tracked (fuel : Fuel) (n : ℕ) (chip : χ) (device : BYTE) (mem : Obj → ℤ → BYTE)
    (pio : Pio) :
    Tracked (powerUp chip device mem pio).host
      (final (main fuel n (powerUp chip device mem pio))) := by
  have hC : Loop (χ := χ) fun _ =>
      KeepsUnless .deref (Tracked (powerUp chip device mem pio).host) := loop_tracked
  have hmain := hC.main
    (fun bLength => (requestsAt_tracked 0 0).xferCtrlReq fuel _ _ _ _ _ _ _) n
  exact hmain.final ⟨rfl, trivial⟩ (main_avoids_deref fuel n chip device mem pio)

end Tracked

/-! ## Records in memory -/

/-- `devtable[addr].epinfo` in memory points to an array, and `ep` is an index of it. -/
def Present (h₀ : Host) (addr ep : BYTE) (log : List Event) : Prop :=
  ∃ t ∈ epTables, memEpinfo h₀ addr log = t.address ∧ ep.toNat < t.size

instance (h₀ : Host) (addr ep : BYTE) (log : List Event) : Decidable (Present h₀ addr ep log) :=
  inferInstanceAs (Decidable (∃ t ∈ epTables, _ ∧ _))

/-- Every record that is looked up is there in memory. `XferInTransfer` and `XferCtrlData` begin
with such a look. -/
structure FindsRecords (h₀ : Host) (log : List Event) : Prop where
  present : Always (fun e log => ∀ r ∈ e.accessed, Present h₀ r.1 r.2 log) log

instance (h₀ : Host) : DecidablePred (FindsRecords h₀) := fun log =>
  -- not by all addresses and indices
  haveI (e : Event) (log : List Event) : Decidable (∀ r ∈ e.accessed, Present h₀ r.1 r.2 log) :=
    Option.decidableForallMem e.accessed
  decidable_of_iff (Always (fun e log => ∀ r ∈ e.accessed, Present h₀ r.1 r.2 log) log)
    ⟨fun h => ⟨h⟩, fun h => h.present⟩

theorem mem_epTables (t : EpTable) : t ∈ epTables := by
  cases t
  · exact List.mem_cons_self
  · exact List.mem_cons_of_mem _ List.mem_cons_self

theorem Valid.present {h₀ : Host} {addr ep : BYTE} {log : List Event}
    (h : Valid (lastHost h₀ log) addr ep) (hconfined : Confined log) :
    Present h₀ addr ep log := by
  obtain ⟨t, ht, hep⟩ := h
  refine ⟨t, mem_epTables t, ?_, hep⟩
  rw [memEpinfo_eq hconfined, DevRecord.pointer, ht]
  rfl

theorem findsRecords_of_confined {h₀ : Host} {log : List Event} (hconfined : Confined log)
    (hvalid : Always (fun e log => ∀ r ∈ e.accessed, Valid (lastHost h₀ log) r.1 r.2) log) :
    FindsRecords h₀ log := by
  -- each look-up is judged by the log before it, which is confined as well
  induction log with
  | nil => exact ⟨trivial⟩
  | cons e log ih =>
    refine ⟨fun r hr => ?_, (ih hconfined.of_cons hvalid.2).present⟩
    exact (hvalid.1 r hr).present hconfined.of_cons

section Main

variable {χ : Type} [Platform χ]

/-- In every run of `main` from power-up whose packets fit the objects they go to, every endpoint
record that is looked up is there in memory. -/
theorem main_findsRecords (fuel : Fuel) (n : ℕ) (chip : χ) (device : BYTE) (mem : Obj → ℤ → BYTE)
    (pio : Pio) (hfit : PacketsFit (final (main fuel n (powerUp chip device mem pio))).log) :
    FindsRecords (powerUp chip device mem pio).host
      (final (main fuel n (powerUp chip device mem pio))).log :=
  findsRecords_of_confined (main_confined rfl hfit) (main_tracked fuel n chip device mem pio).valid

/-! ## The address of a running device in memory -/

/-- While the task is in RUNNING, `devtable` in memory has one device, the boot device at address
1, and `hid_device` has that address. -/
def SettledInMemory (h₀ : Host) (log : List Event) : Prop :=
  (lastHost h₀ log).usbTaskState = usbStateRunning →
    (∀ a ∈ addresses, memEpinfo h₀ a log ≠ 0 ↔ a = 1) ∧
      memEpinfo h₀ 1 log = EpTable.hidEp.address ∧
      (memDevclass h₀ 1 log = hidK ∨ memDevclass h₀ 1 log = hidM) ∧
      (lastHost h₀ log).hidDevice.addr = 1

instance (h₀ : Host) : DecidablePred (SettledInMemory h₀) := fun _ =>
  inferInstanceAs (Decidable (_ → (∀ a ∈ addresses, (_ ↔ _)) ∧ _ ∧ _ ∧ _))

theorem pointer_ne_zero_iff (r : DevRecord) : r.pointer ≠ 0 ↔ r.epinfo ≠ none := by
  obtain ⟨t, devclass⟩ := r
  cases t with
  | none => exact iff_of_false (fun h => h rfl) fun h => h rfl
  | some t =>
    have haddress : t.address ≠ 0 := by
      cases t
      · decide
      · decide
    exact iff_of_true haddress nofun

theorem Settled.inMemory {h₀ : Host} {log : List Event} (h : Settled (lastHost h₀ log))
    (hconfined : Confined log) : SettledInMemory h₀ log := by
  intro hrun
  obtain ⟨honly, hepinfo, hclass, haddr⟩ := h hrun
  refine ⟨fun a ha => ?_, ?_, ?_, haddr⟩
  · rw [memEpinfo_eq hconfined, pointer_ne_zero_iff]
    exact honly a ha
  · rw [memEpinfo_eq hconfined, DevRecord.pointer, hepinfo]
    rfl
  · rw [memDevclass_eq hconfined]
    exact hclass

/-- The variables are those of a moment of the run. -/
theorem lastHost_mem {h₀ : Host} {log before : List Event} (h : before <:+ log) :
    lastHost h₀ before ∈ snapshots log ++ [h₀] := by
  rw [lastHost]
  cases hs : snapshots before with
  | nil => exact List.mem_append_right _ List.mem_cons_self
  | cons h' rest =>
    have hmem : h' ∈ snapshots before := hs ▸ List.mem_cons_self
    exact List.mem_append_left _ ((h.filterMap Event.snapshot).subset hmem)

/-- In a run with safe interrupts and packets that fit, a device that runs is always the one at
address 1, in memory too. -/
theorem settledInMemory_of_safeRun (fuel : Fuel) (n : ℕ) (chip : χ) (device : BYTE)
    (mem : Obj → ℤ → BYTE) (pio : Pio) (hsafe : SafeRun fuel n (powerUp chip device mem pio))
    (hfit : PacketsFit (final (main fuel n (powerUp chip device mem pio))).log)
    (log : List Event) (hlog : log <:+ (final (main fuel n (powerUp chip device mem pio))).log) :
    SettledInMemory (powerUp chip device mem pio).host log := by
  have hsettled := settled_of_safeRun fuel n chip device mem pio hsafe _ (lastHost_mem hlog)
  refine hsettled.inMemory fun p hp => ?_
  exact main_confined rfl hfit p ((hlog.filterMap Event.storeTo).subset hp)

end Main

theorem settledInMemory_plugged :
    SettledInMemory plugged.host (final (main ⟨9, 9, 9, 9, 9⟩ 9 plugged)).log :=
  settledInMemory_of_safeRun ⟨9, 9, 9, 9, 9⟩ 9 _ 0 (fun _ _ => 0) {} (by decide +kernel)
    (by decide +kernel) _ (List.suffix_refl _)

theorem main_findsRecords_plugged :
    FindsRecords plugged.host (final (main ⟨9, 9, 9, 9, 9⟩ 9 plugged)).log :=
  main_findsRecords ⟨9, 9, 9, 9, 9⟩ 9 _ 0 (fun _ _ => 0) {} (by decide +kernel)

theorem replugged_two_in_memory : ¬∀ log,
    log <:+ (final (main ⟨9, 9, 9, 9, 9⟩ 15 replugged)).log →
      SettledInMemory replugged.host log := by
  intro h
  have hend := h _ (List.suffix_refl _)
  revert hend
  decide +kernel

/-- A keyboard with control packets of 32 bytes that sends its configuration of 256 bytes in five
packets of 60. -/
def longPackets : World Script :=
  powerUp { answers := initReads ++ [0x00, 0x00, 0x00] ++
              reply ((keyboardDevice.set 7 32).take 8) ++ reply (keyboardDevice.set 7 32) ++
              [0x80, 0x00, 0x80, 0x00] ++ [0x80, 0x05] ++
              reply [9, 2, 0, 1, 1, 1, 0, 0xa0, 50] ++ [0x80, 0x00] ++
              (List.replicate 5 ([0x80, 0x00, 0x04, 60] ++ List.replicate 60 0)).flatten
            tick := 250 } 0 (fun _ _ => 0) {}

/-- The fifth packet runs over the entry of the keyboard, and the transfer then saves its toggle
through a NULL pointer. -/
theorem longPackets_not_found :
    ¬FindsRecords longPackets.host (final (main ⟨9, 9, 9, 9, 9⟩ 9 longPackets)).log := by
  decide +kernel

end TetrisFpga.Usb
