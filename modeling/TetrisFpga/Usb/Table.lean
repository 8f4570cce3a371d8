import TetrisFpga.Usb.Invariant
import TetrisFpga.Usb.Task

/-!
# The device table

What `USB_init` and the probes do to the device table and to `hid_device`.
-/

namespace TetrisFpga.Usb
open Program

/-- No address is taken. -/
def Clear (h : Host) : Prop := ∀ i ∈ addresses, (h.devtable i).epinfo = none

/-- Address 1 is taken and no other. -/
def OnlyFirst (h : Host) : Prop := ∀ i ∈ addresses, (h.devtable i).epinfo ≠ none ↔ i = 1

/-- The default address 0 has its endpoint. -/
def Rooted (h : Host) : Prop := (h.devtable 0).epinfo = some .dev0ep

/-- The table describes one boot device, at address 1, and so does `hid_device`. -/
structure AtAddressOne (h : Host) : Prop where
  only : OnlyFirst h
  epinfo : (h.devtable 1).epinfo = some .hidEp
  devclass : (h.devtable 1).devclass = hidK ∨ (h.devtable 1).devclass = hidM
  addr : h.hidDevice.addr = 1

/-- A running device is the one at address 1. -/
def Settled (h : Host) : Prop := h.usbTaskState = usbStateRunning → AtAddressOne h

instance : DecidablePred Clear := fun h =>
  List.decidableBAll (fun i => (h.devtable i).epinfo = none) addresses

instance : DecidablePred OnlyFirst := fun h =>
  List.decidableBAll (fun i => (h.devtable i).epinfo ≠ none ↔ i = 1) addresses

instance : DecidablePred AtAddressOne := fun h =>
  decidable_of_iff (OnlyFirst h ∧ (h.devtable 1).epinfo = some .hidEp ∧
      ((h.devtable 1).devclass = hidK ∨ (h.devtable 1).devclass = hidM) ∧ h.hidDevice.addr = 1)
    ⟨fun ⟨ho, he, hd, ha⟩ => ⟨ho, he, hd, ha⟩, fun ⟨ho, he, hd, ha⟩ => ⟨ho, he, hd, ha⟩⟩

theorem OnlyFirst.not_clear {h : Host} (ho : OnlyFirst h) : ¬Clear h :=
  fun hc => (ho 1 (by decide)).mpr rfl (hc 1 (by decide))

theorem ne_zero_of_mem {i : BYTE} (hi : i ∈ addresses) : i ≠ 0 := by
  rintro rfl
  revert hi
  decide

@[simp] theorem Host.setDev_self (h : Host) (i : BYTE) (r : DevRecord) :
    (h.setDev i r).devtable i = r := if_pos rfl

theorem Host.setDev_of_ne {h : Host} {i j : BYTE} (r : DevRecord) (hne : j ≠ i) :
    (h.setDev i r).devtable j = h.devtable j := if_neg hne

/-- An entry that keeps its endpoints, or gets others, stays taken. -/
theorem OnlyFirst.setDev {h : Host} (ho : OnlyFirst h) {r : DevRecord} (hr : r.epinfo ≠ none) :
    OnlyFirst (h.setDev 1 r) := by
  intro i hi
  by_cases h1 : i = 1
  · subst h1
    rw [Host.setDev_self]
    exact ⟨fun _ => rfl, fun _ => hr⟩
  · rw [Host.setDev_of_ne r h1]
    exact ho i hi

/-- `USB_init` has been through: the addresses are free and without a class, and address 0 has
its endpoint. -/
structure Emptied (h : Host) : Prop where
  entry : ∀ i ∈ addresses, h.devtable i = {}
  root : Rooted h

theorem Emptied.clear {h : Host} (he : Emptied h) : Clear h := fun i hi => by rw [he.entry i hi]

section Init

variable {χ : Type} {S p : Host → Prop}

/-- One round of the loop of `USB_init`. -/
theorem triple_clearEntry (hdev : ∀ h i r, p h → p (h.setDev i r)) (hS : ∀ h, p h → S h)
    (i : BYTE) (done : List BYTE) :
    Triple (Holds S fun h => p h ∧ ∀ j ∈ done, h.devtable j = {}) (do
        setEpinfo i none
        setDevclass i 0 : Prog χ Unit)
      (fun _ => Holds S fun h => p h ∧ ∀ j ∈ i :: done, h.devtable j = {}) (Seen S) := by
  refine triple_bind (Q := fun _ => Holds S fun h => p h ∧
      (∀ j ∈ done, j ≠ i → h.devtable j = {}) ∧ (h.devtable i).epinfo = none)
    (triple_setHost (fun h hh => ⟨hdev h _ _ hh.1, fun j hj hne => ?_, ?_⟩)
      fun h hh => hS h hh.1) fun _ =>
    triple_setHost (fun h hh => ⟨hdev h _ _ hh.1, fun j hj => ?_⟩) fun h hh => hS h hh.1
  · rw [Host.setDev_of_ne _ hne]
    exact hh.2 j hj
  · rw [Host.setDev_self]
  · by_cases hji : j = i
    · subst hji
      rw [Host.setDev_self]
      exact congrArg (fun t => ({ epinfo := t } : DevRecord)) hh.2.2
    · rw [Host.setDev_of_ne _ hji]
      exact hh.2.1 j ((List.mem_cons.mp hj).resolve_left hji) hji

/-- `USB_init` frees the addresses and gives address 0 its endpoint. -/
theorem triple_usbInit (hdev : ∀ h i r, p h → p (h.setDev i r))
    (hep : ∀ h t ep f, p h → p (h.setEp t ep f)) (hS : ∀ h, p h → S h) :
    Triple (Holds S p) (usbInit : Prog χ Unit) (fun _ => Holds S fun h => p h ∧ Emptied h)
      (Seen S) := by
  refine triple_bind ((triple_forM (triple_clearEntry hdev hS) _ []).conseq
    (fun w hw => hw.mono fun h hh => ⟨hh, nofun⟩) fun _ w hw => hw) fun _ => ?_
  refine triple_bind (triple_setHost (q := fun h => p h ∧ Emptied h)
    (fun h hh => ⟨hdev h _ _ hh.1, fun i hi => ?_, ?_⟩) fun h hh => hS h hh.1) fun _ => ?_
  · rw [Host.setDev_of_ne _ (ne_zero_of_mem hi)]
    exact hh.2 i ((by decide : ∀ i ∈ addresses,
      i ∈ ([0, 1, 2, 3, 4, 5, 6, 7, 8] : List BYTE).reverse ++ []) i hi)
  · rw [Rooted, Host.setDev_self]
  · have hset (f : EpRecord → EpRecord) : Keeps (Holds S fun h => p h ∧ Emptied h) (Seen S)
        (setHost (fun h => h.setEp .dev0ep 0 f) : Prog χ Unit) :=
      triple_setHost (fun h hh => ⟨hep h _ _ _ hh.1, hh.2.entry, hh.2.root⟩)
        fun h hh => hS h hh.1
    exact triple_bind (hset _) fun _ => triple_bind (hset _) fun _ => hset _

end Init

/-! ## The probes at address 1 -/

/-- The device at address 1 is being probed. -/
structure Probing (h : Host) : Prop where
  flag : h.runningdebugflag = 0
  state : usbStateConfiguring ≤ h.usbTaskState ∧ h.usbTaskState ≤ 0x3f
  tmpAddr : h.tmpAddr = 1
  only : OnlyFirst h

theorem Probing.settled {h : Host} (hp : Probing h) : Settled h := by
  intro hrun
  have := hp.state.2
  rw [hrun] at this
  exact absurd this (by decide)

/-- A change of the device record at address 1 that leaves it taken. -/
theorem Probing.setDev {h : Host} (hp : Probing h) {r : DevRecord} (hr : r.epinfo ≠ none) :
    Probing (h.setDev 1 r) :=
  ⟨hp.flag, hp.state, hp.tmpAddr, hp.only.setDev hr⟩

theorem Probing.epinfo_ne {h : Host} (hp : Probing h) : (h.devtable 1).epinfo ≠ none :=
  (hp.only 1 (by decide)).mpr rfl

section Probe

variable {χ : Type} [Platform χ] {driver : BYTE}

/-- The programs that keep a property of the device table have the transfers. -/
theorem transfers_probing {p : Host → Prop} (hp : ∀ h t ep f, p h → p (h.setEp t ep f)) :
    Transfers (χ := χ) fun _ => Keeps (Holds Settled fun h => Probing h ∧ p h) (Seen Settled) :=
  transfers_hold (fun h t ep f hh =>
      ⟨⟨hh.1.flag, hh.1.state, hh.1.tmpAddr, hh.1.only⟩, hp h t ep f hh.2⟩)
    fun _ hh => hh.1.settled

theorem transfers_atAddressOne : Transfers (χ := χ) fun _ =>
    Keeps (Holds Settled fun h => Probing h ∧ AtAddressOne h) (Seen Settled) :=
  transfers_probing fun _ _ _ _ hh => ⟨hh.only, hh.epinfo, hh.devclass, hh.addr⟩

/-- The record of the device is filled in as the property asks. -/
theorem triple_fillDevice (hdriver : driver = hidK ∨ driver = hidM) (pos : ℕ) :
    Triple (Holds Settled Probing) (fillDevice driver 1 pos : Prog χ Unit)
      (fun _ => Holds Settled fun h => Probing h ∧ AtAddressOne h) (Seen Settled) := by
  have hclass : Transfers (χ := χ) fun _ =>
      Keeps (Holds Settled fun h => Probing h ∧ (h.devtable 1).devclass = driver) (Seen Settled) :=
    transfers_probing fun _ _ _ _ hh => hh
  have hfilled : Transfers (χ := χ) fun _ =>
      Keeps (Holds Settled fun h => Probing h ∧ (h.devtable 1).epinfo = some .hidEp ∧
        (h.devtable 1).devclass = driver) (Seen Settled) :=
    transfers_probing fun _ _ _ _ hh => hh
  refine triple_bind (triple_setHost
    (q := fun h => Probing h ∧ (h.devtable 1).devclass = driver)
    (fun h hh => ⟨hh.setDev hh.epinfo_ne, ?_⟩) fun _ hh => hh.1.settled) fun _ => ?_
  · rw [Host.setDev_self]
  refine triple_bind (hclass.epRecord 1 0) fun r => ?_
  refine triple_bind (triple_bind (hclass.setEp _ _ _) fun _ => hclass.setEp _ _ _) fun _ => ?_
  refine triple_bind (triple_setHost
    (q := fun h => Probing h ∧ (h.devtable 1).epinfo = some .hidEp ∧
      (h.devtable 1).devclass = driver)
    (fun h hh => ⟨hh.1.setDev nofun, ?_, ?_⟩) fun _ hh => hh.1.settled) fun _ => ?_
  · rw [Host.setDev_self]
  · rw [Host.setDev_self]
    exact hh.2
  refine triple_bind (hfilled.setEpRecord 1 0 _) fun _ => ?_
  refine triple_bind (hfilled.load _) fun bInterfaceNumber => ?_
  refine triple_bind (triple_setHost
    (q := fun h => Probing h ∧ (h.devtable 1).epinfo = some .hidEp ∧
      (h.devtable 1).devclass = driver)
    (fun h hh => ?_) fun _ hh => hh.1.settled) fun _ =>
    triple_setHost (fun h hh => ?_) fun _ hh => hh.1.settled
  · exact ⟨⟨hh.1.flag, hh.1.state, hh.1.tmpAddr, hh.1.only⟩, hh.2⟩
  · refine ⟨⟨hh.1.flag, hh.1.state, hh.1.tmpAddr, hh.1.only⟩, hh.1.only, hh.2.1, ?_, rfl⟩
    exact hh.2.2 ▸ hdriver

/-- The search for the endpoint leaves the table alone. -/
theorem triple_endpointLoop (fuel : Fuel) (confvalue : BYTE) (total : WORD) (n pos : ℕ) :
    Keeps (Holds Settled fun h => Probing h ∧ AtAddressOne h) (Seen Settled)
        (endpointLoop fuel 1 confvalue total n pos : Prog χ (ℕ ⊕ Bool)) := by
  have hC : Transfers (χ := χ) fun _ =>
      Keeps (Holds Settled fun h => Probing h ∧ AtAddressOne h) (Seen Settled) :=
    transfers_atAddressOne
  refine hC.whileLoop (triple_throw fun _ h => h.2) (fun _ => hC.pure _) (fun pos => ?_)
    (fun _ => hC.pure _) n pos
  exact hC.skipTo _ (fun pos => hC.bind (hC.fillEndpoint _ _ _ _) fun _ => hC.pure _) pos

/-- What a probe leaves behind: a device that it accepts is the one at address 1. -/
def Probed (accepted : Bool) (h : Host) : Prop :=
  Probing h ∧ (accepted = true → AtAddressOne h)

theorem triple_parseInterface (hdriver : driver = hidK ∨ driver = hidM) (fuel : Fuel)
    (protocol confvalue : BYTE) (total : WORD) (pos : ℕ) :
    Triple (Holds Settled Probing)
      (parseInterface fuel driver protocol 1 confvalue total pos : Prog χ (ℕ ⊕ Bool))
      (Sum.rec (fun _ => Holds Settled Probing) fun b => Holds Settled (Probed b))
      (Seen Settled) := by
  have hC : Transfers (χ := χ) fun _ => Keeps (Holds Settled Probing) (Seen Settled) :=
    transfers_hold (fun h t ep f hh => ⟨hh.flag, hh.state, hh.tmpAddr, hh.only⟩)
      fun _ hh => hh.settled
  refine triple_bind (hC.load _) fun _ => triple_bind (hC.load _) fun _ =>
    triple_bind (hC.load _) fun _ => triple_ite (fun _ => ?_) fun _ =>
      triple_pure fun w hw => hw.mono fun h hh => ⟨hh, nofun⟩
  refine triple_bind (triple_fillDevice hdriver pos) fun _ =>
    triple_bind (transfers_atAddressOne.load _) fun _ =>
      (triple_endpointLoop fuel confvalue total _ _).conseq (fun _ hw => hw) fun r w hw => ?_
  cases r with
  | inl pos' => exact hw.mono fun h hh => hh.1
  | inr b => exact hw.mono fun h hh => ⟨hh.1, fun _ => hh.2⟩

theorem triple_hidProbe (hdriver : driver = hidK ∨ driver = hidM) (fuel : Fuel)
    (protocol : BYTE) :
    Triple (Holds Settled Probing) (hidProbe driver protocol fuel 1 : Prog χ Bool)
      (fun b => Holds Settled (Probed b)) (Seen Settled) := by
  have hC : Transfers (χ := χ) fun _ => Keeps (Holds Settled Probing) (Seen Settled) :=
    transfers_hold (fun h t ep f hh => ⟨hh.flag, hh.state, hh.tmpAddr, hh.only⟩)
      fun _ hh => hh.settled
  have hfalse : Triple (Holds Settled Probing) (pure false : Prog χ Bool)
      (fun b => Holds Settled (Probed b)) (Seen Settled) :=
    triple_pure fun w hw => hw.mono fun h hh => ⟨hh, nofun⟩
  refine triple_bind (hC.readConfiguration fuel 1) fun r => ?_
  cases r with
  | none => exact hfalse
  | some r =>
    refine triple_whileLoop (fun _ => hC.pure _) (fun pos => ?_) (fun _ => hfalse)
      (fun _ _ hw => hw.2) fuel.walk 0
    refine triple_bind (hC.load _) fun _ => triple_ite (fun _ => ?_) fun _ =>
      triple_parseInterface hdriver fuel protocol r.2 r.1 pos
    exact triple_bind (hC.load _) fun _ => triple_pure fun _ hw => hw

end Probe

end TetrisFpga.Usb
