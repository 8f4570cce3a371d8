import TetrisFpga.Usb.Irq
import TetrisFpga.Usb.Running
import TetrisFpga.Usb.Tasks

/-!
# The endpoint records that are used

A transfer uses the record `devtable[addr].epinfo[ep]`. The table is filled by the USB task,
pointed elsewhere by the probes and cleared in two places, and `main` uses it through a variable
and an address of its own. In no run is a record used that is not there.
-/

namespace TetrisFpga.Usb
open Program

/-! ## Records that are there -/

/-- `devtable[addr].epinfo` is not NULL and `ep` is an index of its array. -/
def Valid (h : Host) (addr ep : BYTE) : Prop :=
  ∃ t, (h.devtable addr).epinfo = some t ∧ ep.toNat < t.size

theorem valid_zero {h : Host} {addr : BYTE} (hdev : (h.devtable addr).epinfo ≠ none) :
    Valid h addr 0 := by
  obtain ⟨t, ht⟩ := Option.ne_none_iff_exists'.mp hdev
  exact ⟨t, ht, by cases t <;> decide⟩

theorem valid_hidEp {h : Host} {addr ep : BYTE} (hdev : (h.devtable addr).epinfo = some .hidEp)
    (hep : ep.toNat < 2) : Valid h addr ep :=
  ⟨.hidEp, hdev, hep⟩

section Missing

variable {χ : Type} {addr ep : BYTE} {w : World χ}

/-- An access to a record that is not there ends with a fault of its own. -/
theorem epinfo_missing (h : ¬Valid w.host addr ep) :
    epinfo addr ep w = .error .deref (w.accessed addr ep) := by
  cases ht : (w.host.devtable addr).epinfo with
  | none => exact epinfo_null ht
  | some t => exact epinfo_outside ht fun hep => h ⟨t, ht, hep⟩

end Missing

/-! ## Programs that use records that are there -/

section On

variable {χ : Type} {p q : Host → Prop} {e : Fault}

/-- `p` is true of the variables. -/
def On (p : Host → Prop) (w : World χ) : Prop := p w.host

theorem On.at_read {w : World χ} {h : Host} {F : Prop} (hw : On (fun h' => h' = h ∧ F) w)
    (hp : p h) : On p w := by
  show p w.host
  rw [hw.1]
  exact hp

theorem safe_quiet {α : Type} {x : Prog χ α}
    (hx : ∀ w, ∃ a w', x w = .ok a w' ∧ w'.host = w.host) :
    Safe e (On p) x (fun _ => On p) where
  ok w a w' hw hr := by
    obtain ⟨b, w₁, hr', hhost⟩ := hx w
    cases hr'.symm.trans hr
    rw [On, hhost]
    exact hw
  error w w' _ hr := by
    obtain ⟨b, w₁, hr', -⟩ := hx w
    cases hr'.symm.trans hr

theorem safe_setHost {f : Host → Host} (hf : ∀ h, p h → q (f h)) :
    Safe e (On p) (setHost f : Prog χ Unit) (fun _ => On q) where
  ok w a w' hw hr := by
    cases hr
    exact hf w.host hw
  error w w' _ hr := by cases hr

theorem safe_getHost :
    Safe e (On p) (getHost : Prog χ Host) (fun h => On fun h' => h' = h ∧ p h) where
  ok w a w' hw hr := by
    cases hr
    exact ⟨rfl, hw⟩
  error w w' _ hr := by cases hr

theorem safe_epinfo {addr ep : BYTE} (hp : ∀ h, p h → Valid h addr ep) :
    KeepsSafe .deref (On p) (epinfo addr ep : Prog χ EpTable) where
  ok w a w' hw hr := by
    obtain ⟨t, ht, hep⟩ := hp w.host hw
    cases (epinfo_run ht hep).symm.trans hr
    exact hw
  error w w' hw hr := by
    obtain ⟨t, ht, hep⟩ := hp w.host hw
    cases (epinfo_run ht hep).symm.trans hr

/-- What is true of the variables before may be used as a fact. -/
theorem safe_of_on {α : Type} {x : Prog χ α} {Q : α → World χ → Prop} {c : Prop}
    (hc : ∀ h, p h → c) (hx : c → Safe e (On p) x Q) : Safe e (On p) x Q where
  ok w a w' hw hr := (hx (hc _ hw)).ok w a w' hw hr
  error w w' hw hr := (hx (hc _ hw)).error w w' hw hr

variable [Platform χ]

theorem safe_wr (reg val : BYTE) :
    Safe e (On p) (maxRegWr reg val : Prog χ Unit) (fun _ => On p) :=
  safe_quiet fun _ => ⟨_, _, rfl, rfl⟩

theorem safe_rd (reg : BYTE) : Safe e (On p) (maxRegRd reg : Prog χ BYTE) (fun _ => On p) :=
  safe_quiet fun _ => ⟨_, _, rfl, rfl⟩

omit [Platform χ] in
theorem safe_load (ptr : Ptr) : Safe e (On p) (load ptr : Prog χ BYTE) (fun _ => On p) :=
  safe_quiet fun _ => ⟨_, _, rfl, rfl⟩

theorem safe_altMs : Safe e (On p) (altMs : Prog χ DWORD) (fun _ => On p) :=
  safe_bind (safe_quiet fun _ => ⟨_, _, rfl, rfl⟩) fun _ => safe_pure fun _ hw => hw

/-- The programs that keep `p` have the transfers with a record that `p` says is there. -/
theorem transfersAt_on {addr ep : BYTE} (hp : ∀ h, p h → Valid h addr ep)
    (hset : ∀ h t ep f, p h → p (h.setEp t ep f)) :
    TransfersAt (χ := χ) (fun _ => KeepsSafe .deref (On p)) addr ep where
  toClosed := closed_safe _ _
  hirq := safe_rd _
  hrsl := safe_rd _
  wr := safe_wr
  nticks := safe_quiet fun _ => ⟨_, _, rfl, rfl⟩
  wait := safe_throw (by decide)
  dispatch := safe_throw (by decide)
  rd := safe_rd
  load := safe_load
  store _ _ := safe_quiet fun _ => ⟨_, _, rfl, rfl⟩
  getHost := safe_getHost.conseq (fun _ hw => hw) fun _ _ hw => hw.at_read hw.2
  setEp t ep f := safe_setHost fun h => hset h t ep f
  transfer := safe_throw (by decide)
  epinfo := safe_epinfo hp

end On

/-! ## What the table holds -/

/-- The default address has a record, `tmp_addr` is in the table, and where a device in the
table has a class, the one at `hid_device.addr` has the HID records. -/
structure TableSound (h : Host) : Prop where
  root : (h.devtable 0).epinfo ≠ none
  tmpAddr : h.tmpAddr = 0 ∨ h.tmpAddr ∈ addresses
  boot : ∀ i ∈ addresses, (h.devtable i).devclass ≠ 0 →
    (h.devtable h.hidDevice.addr).epinfo = some .hidEp

/-- Every address is taken. -/
def Full (h : Host) : Prop := ∀ i ∈ addresses, (h.devtable i).epinfo ≠ none

/-- Address 1 and `tmp_addr` are taken. -/
def Assigned (h : Host) : Prop :=
  (h.devtable 1).epinfo ≠ none ∧ (h.devtable h.tmpAddr).epinfo ≠ none

theorem Full.assigned {h : Host} (hf : Full h) (hs : TableSound h) : Assigned h := by
  refine ⟨hf 1 (by decide), ?_⟩
  obtain h0 | hmem := hs.tmpAddr
  · rw [h0]
    exact hs.root
  · exact hf _ hmem

/-- The driver that `main` polls has its records. -/
def Driven (h : Host) : Prop :=
  h.device = 1 ∨ h.device = 2 → (h.devtable h.hidDevice.addr).epinfo = some .hidEp

/-- The beginning of a round. The states behind ADDRESSING are those a bus event steps to. -/
structure RoundStart (h : Host) : Prop where
  sound : TableSound h
  full : usbStateAddressing + 1 ≤ h.usbTaskState → h.usbTaskState ≤ 0x2f → Full h
  assigned : usbStateConfiguring ≤ h.usbTaskState → h.usbTaskState ≤ usbStateRunning → Assigned h
  flag : h.runningdebugflag ≠ 0 ↔ h.usbTaskState = usbStateRunning
  driven : h.usbTaskState = usbStateRunning → Driven h

/-- After the interrupts of a round. -/
structure AfterIrq (h : Host) : Prop where
  sound : TableSound h
  assigned : usbStateConfiguring ≤ h.usbTaskState → h.usbTaskState ≤ usbStateRunning → Assigned h
  flag : h.runningdebugflag ≠ 0 →
    (h.usbTaskState = usbStateRunning ∨ h.usbTaskState ∈ leftStates) ∧ Driven h

/-- After the USB task of a round. -/
structure AfterTask (h : Host) : Prop where
  sound : TableSound h
  full : usbStateAddressing + 1 ≤ h.usbTaskState → h.usbTaskState ≤ 0x2f → Full h
  assigned : usbStateConfiguring ≤ h.usbTaskState → h.usbTaskState ≤ usbStateRunning → Assigned h
  flag : h.runningdebugflag ≠ 0 →
    h.usbTaskState ≠ usbStateError ∧ (h.usbTaskState = usbStateRunning → Driven h)

theorem TableSound.setState {h : Host} (hs : TableSound h) (s : BYTE) :
    TableSound (h.setState s) := ⟨hs.root, hs.tmpAddr, hs.boot⟩

/-! ## Interrupts -/

theorem probeStates_low : ∀ s ∈ probeStates,
    ¬usbStateConfiguring ≤ s ∧ ¬usbStateConfiguring ≤ s + 1 := by
  decide

theorem configuring_of_succ : ∀ s : BYTE,
    usbStateConfiguring ≤ s + 1 → s + 1 ≤ usbStateRunning →
      (usbStateAddressing + 1 ≤ s ∧ s ≤ 0x2f) ∨
        (usbStateConfiguring ≤ s ∧ s ≤ usbStateRunning) := by
  decide

theorem RoundStart.handled {h : Host} (hr : RoundStart h) (hirq sample : BYTE) :
    AfterIrq (h.setState (handledState hirq sample h.usbTaskState)) where
  sound := hr.sound.setState _
  assigned := by
    intro hlow hhigh
    have hassigned : Assigned h := by
      obtain hc | hc := condetState_cases hirq sample h.usbTaskState
      · obtain he | he := handledState_cases hirq sample h.usbTaskState
        · rw [Host.setState_usbTaskState, he, hc] at hlow hhigh
          exact hr.assigned hlow hhigh
        · rw [Host.setState_usbTaskState, he, hc] at hlow hhigh
          obtain ⟨h1, h2⟩ | ⟨h1, h2⟩ := configuring_of_succ _ hlow hhigh
          · exact (hr.full h1 h2).assigned hr.sound
          · exact hr.assigned h1 h2
      · obtain he | he := handledState_cases hirq sample h.usbTaskState
        · rw [Host.setState_usbTaskState, he] at hlow
          exact absurd hlow (probeStates_low _ hc).1
        · rw [Host.setState_usbTaskState, he] at hlow
          exact absurd hlow (probeStates_low _ hc).2
    exact hassigned
  flag := by
    intro hflag
    have hrun := hr.flag.mp hflag
    have hcases := running_handled (condetState hirq sample h.usbTaskState)
      (by rw [← hrun]; exact condetState_cases hirq sample h.usbTaskState)
    refine ⟨?_, hr.driven hrun⟩
    obtain he | he := handledState_cases hirq sample h.usbTaskState
    · rw [Host.setState_usbTaskState, he]
      exact hcases.1
    · rw [Host.setState_usbTaskState, he]
      exact .inr hcases.2

theorem RoundStart.idle {h : Host} (hr : RoundStart h) : AfterIrq h where
  sound := hr.sound
  assigned := hr.assigned
  flag hflag := ⟨.inl (hr.flag.mp hflag), hr.driven (hr.flag.mp hflag)⟩

section Handlers

variable {χ : Type} [Platform χ] {p q : Host → Prop}

/-- The driver of the chip uses no record. -/
theorem maxBusprobe_avoids : Avoids .deref (maxBusprobe : Prog χ Unit) :=
  maxBusprobe_mem (closed_avoids _) (fun _ _ _ _ => nofun) (fun _ _ _ => nofun) (fun _ _ => nofun)
    fun _ _ _ _ => nofun

theorem max3421eTask_avoids : Avoids .deref (max3421eTask : Prog χ Unit) := by
  have hC : Closed fun α (x : Prog χ α) => Avoids .deref x := closed_avoids Fault.deref
  have hset (f : Host → Host) : Avoids .deref (setHost f : Prog χ Unit) := fun _ _ => nofun
  have hwr (reg val : BYTE) : Avoids .deref (maxRegWr reg val : Prog χ Unit) := fun _ _ => nofun
  have hrd (reg : BYTE) : Avoids .deref (maxRegRd reg : Prog χ BYTE) := fun _ _ => nofun
  have hirq : Avoids .deref (usbIrq : Prog χ BYTE) := fun _ _ => nofun
  have hgpx : Avoids .deref (usbGpx : Prog χ BYTE) := fun _ _ => nofun
  refine hC.bind hirq fun _ => hC.bind (hC.when ?_) fun _ =>
    hC.bind hgpx fun _ => hC.when (hC.bind (hrd _) fun _ => hC.pure ())
  refine hC.bind (hrd _) fun hirq => hC.bind (hC.when maxBusprobe_avoids) fun _ => ?_
  exact hC.bind (hC.when (hwr _ _)) fun _ => hC.bind (hC.when (hset _)) fun _ => hwr _ _

theorem max3421eInit_avoids (fuel : Fuel) : Avoids .deref (max3421eInit fuel : Prog χ Unit) :=
  max3421eInit_mem (closed_avoids _) (fun _ _ _ _ _ _ => nofun) (fun _ _ _ => nofun)
    (fun _ _ _ => nofun) (avoids_throw (by decide)) maxBusprobe_avoids fuel

theorem safe_max3421eInit
    (hq : ∀ h sample, p h → q (h.setState (probedState sample h.usbTaskState))) (fuel : Fuel) :
    Safe .deref (On p) (max3421eInit fuel : Prog χ Unit) (fun _ => On q) :=
  ((triple_max3421eInit (χ := χ) (S := fun _ => True) hq (fun _ _ => trivial) fuel).safe
    (max3421eInit_avoids fuel)).conseq (fun _ hw => ⟨hw, fun _ _ => trivial⟩) fun _ _ hw => hw.1

theorem safe_interrupts :
    Safe .deref (On RoundStart) (max3421eTask : Prog χ Unit) (fun _ => On AfterIrq) := by
  have htriple := (triple_max3421eTask (χ := χ) (S := fun _ => True) (p := RoundStart)
    (q := AfterIrq) (fun _ _ => True) (fun _ _ _ _ _ => trivial)
    (fun h hirq sample hr _ => hr.handled hirq sample) (fun _ hr => hr.idle)
    fun _ _ => trivial).safe max3421eTask_avoids
  exact htriple.conseq (fun _ hw => ⟨⟨hw, fun _ _ => trivial⟩, fun _ _ => trivial⟩)
    fun _ _ hw => hw.1

end Handlers

/-! ## The USB task -/

/-- `tmp_addr` is an index of the table. -/
def Indexed (h : Host) : Prop := h.tmpAddr = 0 ∨ h.tmpAddr ∈ addresses

/-- No address has a class, and the default address has its record. -/
def Cleared (h : Host) : Prop :=
  (h.devtable 0).epinfo ≠ none ∧ ∀ i ∈ addresses, (h.devtable i).devclass = 0

theorem Cleared.sound {h : Host} (hc : Cleared h) (hi : Indexed h) : TableSound h :=
  ⟨hc.1, hi, fun i hmem hne => absurd (hc.2 i hmem) hne⟩

/-- The task is in the state `s`, with a sound table and `runningdebugflag` as given. -/
structure InState (s f : BYTE) (h : Host) : Prop where
  sound : TableSound h
  state : h.usbTaskState = s
  flag : h.runningdebugflag = f

theorem InState.setEp {s f : BYTE} {h : Host} (hi : InState s f h) (t : EpTable) (ep : BYTE)
    (g : EpRecord → EpRecord) : InState s f (h.setEp t ep g) :=
  ⟨⟨hi.sound.root, hi.sound.tmpAddr, hi.sound.boot⟩, hi.state, hi.flag⟩

section Task

variable {χ : Type} {p : Host → Prop} {s f : BYTE}

theorem Emptied.cleared {h : Host} (he : Emptied h) : Cleared h := by
  refine ⟨?_, fun i hi => ?_⟩
  · rw [he.root]
    exact nofun
  · rw [he.entry i hi]

theorem usbInit_avoids : Avoids .deref (usbInit : Prog χ Unit) :=
  usbInit_mem (closed_avoids _) fun _ _ _ _ => nofun

theorem safe_usbInit (hdev : ∀ h i r, p h → p (h.setDev i r))
    (hep : ∀ h t ep f, p h → p (h.setEp t ep f)) :
    Safe .deref (On p) (usbInit : Prog χ Unit) (fun _ => On fun h => p h ∧ Cleared h) :=
  ((triple_usbInit (S := fun _ => True) hdev hep fun _ _ => trivial).safe usbInit_avoids).conseq
    (fun _ hw => ⟨hw, fun _ _ => trivial⟩) fun _ _ hw => ⟨hw.1.1, hw.1.2.cleared⟩

theorem safe_setState {s' : BYTE} :
    Safe .deref (On (InState s f)) (setUsbTaskState s' : Prog χ Unit)
      (fun _ => On (InState s' f)) :=
  safe_setHost fun _ hi => ⟨hi.sound.setState _, rfl, hi.flag⟩

theorem safe_setUsbError (rcode : BYTE) :
    Safe .deref (On (InState s f)) (setUsbError rcode : Prog χ Unit)
      (fun _ => On (InState usbStateError f)) := by
  refine safe_bind (safe_setHost (q := InState s f) fun h hi => ?_) fun _ =>
    safe_bind (safe_setHost (q := InState s f) fun h hi => ?_) fun _ => safe_setState
  · exact ⟨⟨hi.sound.root, hi.sound.tmpAddr, hi.sound.boot⟩, hi.state, hi.flag⟩
  · exact ⟨⟨hi.sound.root, hi.sound.tmpAddr, hi.sound.boot⟩, hi.state, hi.flag⟩

theorem afterTask_of_low {h : Host} (hs : TableSound h)
    (hlow : h.usbTaskState ≤ usbStateAddressing) :
    AfterTask h := by
  have hcases : ∀ s : BYTE, s ≤ usbStateAddressing → ¬usbStateAddressing + 1 ≤ s ∧
      ¬usbStateConfiguring ≤ s ∧ s ≠ usbStateError ∧ s ≠ usbStateRunning := by
    decide
  obtain ⟨hfull, hassigned, herror, hrun⟩ := hcases _ hlow
  exact ⟨hs, fun h => absurd h hfull, fun h => absurd h hassigned,
    fun _ => ⟨herror, fun h => absurd h hrun⟩⟩

theorem afterTask_of_error {h : Host} (hi : InState usbStateError 0 h) : AfterTask h := by
  refine ⟨hi.sound, fun _ hle => ?_, fun _ hle => ?_, fun hflag => absurd hi.flag hflag⟩
  · rw [hi.state] at hle
    exact absurd hle (by decide)
  · rw [hi.state] at hle
    exact absurd hle (by decide)

variable [Platform χ]

/-- A property of the state machine and the table, and the transfers with address 0. -/
theorem transfersAt_root :
    TransfersAt (χ := χ) (fun _ => KeepsSafe .deref (On (InState s f))) 0 0 :=
  transfersAt_on (fun _ hi => valid_zero hi.sound.root) fun _ t ep g hi => hi.setEp t ep g

/-- INITIALIZE clears the table, the other detached states do nothing. -/
theorem safe_detachedTask (hs : s &&& usbStateMask = usbStateDetached) :
    Safe .deref (On (InState s f)) (detachedTask s : Prog χ Unit) (fun _ => On AfterTask) := by
  have hstay (w : World χ) (hi : On (InState s f) w) : On AfterTask w := by
    refine afterTask_of_low hi.sound ?_
    rw [hi.state]
    exact (by decide : ∀ s : BYTE, s &&& usbStateMask = usbStateDetached →
      s ≤ usbStateAddressing) s hs
  refine safe_ite (fun _ => ?_) fun _ => safe_ite (fun _ => ?_) fun _ => safe_pure hstay
  · refine safe_bind ((safe_usbInit (p := Indexed) (fun _ _ _ hh => hh)
      fun _ _ _ _ hh => hh).conseq (fun w hi => hi.sound.tmpAddr) fun _ _ hw => hw) fun _ => ?_
    refine safe_setHost fun h hh => afterTask_of_low ((hh.2.sound hh.1).setState _) ?_
    exact (by decide : usbDetachedSubstateWaitForDevice ≤ usbStateAddressing)
  · exact (safe_wr _ _).conseq (fun _ hw => hw) fun _ => hstay

theorem safe_getStrDescr (fuel : Fuel) (index : BYTE) :
    KeepsSafe .deref (On (InState s f)) (getStrDescr fuel index : Prog χ Unit) := by
  have hC : TransfersAt (χ := χ) (fun _ => KeepsSafe .deref (On (InState s f))) 0 0 :=
    transfersAt_root
  refine hC.bind (safe_quiet fun _ => ⟨_, _, rfl, rfl⟩) fun _ => ?_
  refine hC.bind (hC.xferCtrlReq _ _ _ _ _ _ _ _) fun _ => hC.bind (hC.load _) fun _ => ?_
  refine hC.bind (hC.xferCtrlReq _ _ _ _ _ _ _ _) fun _ => hC.bind (hC.load _) fun _ => ?_
  exact hC.convUTF8ToStr _ _

/-- The descriptor is read with the record of address 0. -/
theorem safe_getDeviceDescriptor (fuel : Fuel) :
    Safe .deref (On (InState s f)) (getDeviceDescriptor fuel : Prog χ Unit)
      (fun _ => On fun h => InState usbStateAddressing f h ∨ InState usbStateError f h) := by
  have hC : TransfersAt (χ := χ) (fun _ => KeepsSafe .deref (On (InState s f))) 0 0 :=
    transfersAt_root
  refine safe_bind (hC.setEpRecord _) fun _ => ?_
  refine safe_bind (hC.xferCtrlReq _ _ _ _ _ _ _ _) fun rcode => safe_ite (fun _ => ?_)
    fun _ => (safe_setUsbError rcode).conseq (fun _ hw => hw) fun _ _ hw => .inr hw
  refine safe_bind (hC.load _) fun _ => safe_bind (hC.setEpRecord _) fun _ => ?_
  refine safe_bind (hC.load _) fun _ => safe_bind (hC.xferCtrlReq _ _ _ _ _ _ _ _) fun _ => ?_
  refine safe_bind (hC.load _) fun _ =>
    safe_bind (hC.when (safe_getStrDescr fuel _)) fun _ => ?_
  refine safe_bind (hC.load _) fun _ =>
    safe_bind (hC.when (safe_getStrDescr fuel _)) fun _ => ?_
  exact safe_setState.conseq (fun _ hw => hw) fun _ _ hw => .inl hw

/-- The attached states lead to one another, to ADDRESSING, and from the last one to ERROR. -/
theorem safe_attachedTask (hs : s &&& usbStateMask = usbStateAttached)
    (hf : f ≠ 0 → s ≠ usbAttachedSubstateGetDeviceDescriptorSize) (fuel : Fuel) :
    Safe .deref (On (InState s f)) (attachedTask fuel s : Prog χ Unit)
      (fun _ => On AfterTask) := by
  have hlow {s' : BYTE} (hs' : s' ≤ usbStateAddressing) (w : World χ)
      (hi : On (InState s' f) w) : On AfterTask w := by
    refine afterTask_of_low hi.sound ?_
    rw [hi.state]
    exact hs'
  have hstay : Safe .deref (On (InState s f)) (pure () : Prog χ Unit) (fun _ => On AfterTask) :=
    safe_pure (hlow ((by decide : ∀ s : BYTE, s &&& usbStateMask = usbStateAttached →
      s ≤ usbStateAddressing) s hs))
  have hset {s' : BYTE} (hs' : s' ≤ usbStateAddressing) :
      Safe .deref (On (InState s f)) (setUsbTaskState s' : Prog χ Unit) (fun _ => On AfterTask) :=
    safe_setState.conseq (fun _ hw => hw) fun _ => hlow hs'
  refine safe_ite (fun _ => ?_) fun _ => safe_ite (fun _ => ?_) fun _ =>
    safe_ite (fun _ => ?_) fun _ => safe_ite (fun _ => ?_) fun _ =>
    safe_ite (fun _ => ?_) fun _ => safe_ite (fun h15 => ?_) fun _ => hstay
  · refine safe_bind safe_altMs fun now => safe_bind (safe_setHost (q := InState s f)
      fun h hi => ?_) fun _ => hset (by decide)
    exact ⟨⟨hi.sound.root, hi.sound.tmpAddr, hi.sound.boot⟩, hi.state, hi.flag⟩
  · refine safe_bind safe_altMs fun now => safe_bind safe_getHost fun h => ?_
    refine (safe_ite (fun _ => hset (by decide)) fun _ => hstay).conseq (fun _ hw => ?_)
      fun _ _ hw => hw
    exact hw.at_read hw.2
  · exact safe_bind (safe_wr _ _) fun _ => safe_bind (safe_wr _ _) fun _ => hset (by decide)
  · refine safe_bind (safe_rd _) fun _ => safe_ite (fun _ => ?_) fun _ => hstay
    exact safe_bind (safe_rd _) fun _ => safe_bind (safe_wr _ _) fun _ => hset (by decide)
  · exact safe_bind (safe_rd _) fun _ => safe_ite (fun _ => hset (by decide)) fun _ => hstay
  · refine (safe_getDeviceDescriptor fuel).conseq (fun _ hw => hw) fun _ w hw => ?_
    obtain hi | hi := hw
    · exact hlow (by decide) w hi
    · have h0 : f = 0 := Decidable.byContradiction fun hne => hf hne h15
      subst h0
      exact afterTask_of_error hi

/-- A free address gets the record of address 0. -/
theorem TableSound.assign {h : Host} (hs : TableSound h) {i : BYTE} (hi : i ∈ addresses)
    (hfree : (h.devtable i).epinfo = none) :
    TableSound (h.setDev i { h.devtable i with epinfo := (h.devtable 0).epinfo }) := by
  refine ⟨?_, hs.tmpAddr, fun j hj hclass => ?_⟩
  · rw [Host.setDev_of_ne _ (ne_zero_of_mem hi).symm]
    exact hs.root
  · have hdriver : (h.devtable h.hidDevice.addr).epinfo = some .hidEp := by
      refine hs.boot j hj ?_
      by_cases hji : j = i
      · subst hji
        rwa [Host.setDev_self] at hclass
      · rwa [Host.setDev_of_ne _ hji] at hclass
    -- the driver's entry has a table and entry `i` has none
    have haddr : h.hidDevice.addr ≠ i := by
      rintro heq
      rw [heq, hfree] at hdriver
      cases hdriver
    show ((h.setDev i _).devtable h.hidDevice.addr).epinfo = _
    rw [Host.setDev_of_ne _ haddr]
    exact hdriver

theorem safe_assignAddress {i : BYTE} (hi : i ∈ addresses) (fuel : Fuel) :
    Safe .deref (On fun h => InState s 0 h ∧ (h.devtable i).epinfo = none ∧
        (i = 1 ∨ (h.devtable 1).epinfo ≠ none))
      (assignAddress fuel i : Prog χ Unit)
      (fun _ => On fun h => InState usbStateError 0 h ∨
        InState usbStateConfiguring 0 h ∧ Assigned h) := by
  let p : Host → Prop := fun h => InState s 0 h ∧ (h.devtable 1).epinfo ≠ none ∧
    (h.devtable i).epinfo ≠ none
  have hC : TransfersAt (χ := χ) (fun _ => KeepsSafe .deref (On p)) 0 0 :=
    transfersAt_on (fun _ hh => valid_zero hh.1.sound.root)
      fun _ t ep g hh => ⟨hh.1.setEp t ep g, hh.2⟩
  refine safe_bind safe_getHost fun h => safe_bind (safe_setHost (q := p) ?_) fun _ => ?_
  · rintro h' ⟨rfl, hs, hfree, h1⟩
    refine ⟨⟨hs.sound.assign hi hfree, hs.state, hs.flag⟩, ?_, ?_⟩
    · by_cases h1i : (1 : BYTE) = i
      · rw [← h1i, Host.setDev_self]
        exact hs.sound.root
      · rw [Host.setDev_of_ne _ h1i]
        exact h1.resolve_left fun h => h1i h.symm
    · rw [Host.setDev_self]
      exact hs.sound.root
  · refine safe_bind (hC.xferCtrlReq _ _ _ _ _ _ _ _) fun rcode => safe_ite (fun _ => ?_)
      fun _ => (safe_setUsbError rcode).conseq (fun _ hw => hw.1) fun _ _ hw => .inl hw
    refine safe_bind (safe_setHost (q := fun h => InState s 0 h ∧ Assigned h) fun h hh => ?_)
      fun _ => safe_setHost fun h hh => .inr ?_
    · exact ⟨⟨⟨hh.1.sound.root, .inr hi, hh.1.sound.boot⟩, hh.1.state, hh.1.flag⟩, hh.2⟩
    · exact ⟨⟨hh.1.sound.setState _, rfl, hh.1.flag⟩, hh.2⟩

theorem freeEntry_some {h : Host} {i : BYTE} (hfree : freeEntry h = some i) :
    i ∈ addresses ∧ (h.devtable i).epinfo = none ∧ (i = 1 ∨ (h.devtable 1).epinfo ≠ none) := by
  refine ⟨List.mem_of_find?_eq_some hfree, ?_, ?_⟩
  · simpa using List.find?_some hfree
  · rw [freeEntry, addresses, List.find?_cons] at hfree
    split at hfree
    · cases hfree
      exact .inl rfl
    · rename_i htaken
      have hone : (h.devtable 1).epinfo.isNone = false := htaken
      refine .inr fun hnull => ?_
      rw [hnull] at hone
      cases hone

theorem freeEntry_none {h : Host} (hfree : freeEntry h = none) : Full h := by
  intro i hi hnull
  have := List.find?_eq_none.mp hfree i hi
  simp [hnull] at this

theorem safe_addressingTask (hs : s &&& usbStateMask = usbStateAddressing) (fuel : Fuel) :
    Safe .deref (On (InState s 0)) (addressingTask fuel : Prog χ Unit) (fun _ => On AfterTask) := by
  refine safe_bind safe_getHost fun h => ?_
  let q : Host → Prop := fun h => InState usbStateError 0 h ∨
    InState usbStateConfiguring 0 h ∧ Assigned h ∨ InState s 0 h ∧ Full h
  refine safe_bind (Q := fun _ => On q) ?_ fun _ => safe_bind safe_getHost fun h =>
    safe_ite (fun hsame => ?_) fun hsame => safe_pure fun w hw => ?_
  · cases hfree : freeEntry h with
    | none =>
      refine safe_pure fun w hw => hw.at_read (.inr (.inr ⟨hw.2, ?_⟩))
      exact freeEntry_none hfree
    | some i =>
      obtain ⟨hi, hnull, h1⟩ := freeEntry_some hfree
      refine (safe_assignAddress hi fuel).conseq (fun w hw => hw.at_read ⟨hw.2, hnull, h1⟩)
        fun _ w hw => ?_
      exact hw.imp_right .inl
  · refine (safe_setUsbError (s := usbStateAddressing) (f := 0) 0xfe).conseq (fun w hw => ?_)
      fun _ _ => afterTask_of_error
    obtain ⟨rfl, herror | ⟨hconf, -⟩ | ⟨hi, -⟩⟩ := hw
    · rw [herror.state] at hsame
      exact absurd hsame (by decide)
    · rw [hconf.state] at hsame
      exact absurd hsame (by decide)
    · exact ⟨hi.sound, hsame, hi.flag⟩
  · have hq : q h := hw.2
    refine hw.at_read ?_
    obtain herror | ⟨hconf, hassigned⟩ | ⟨hi, hfull⟩ := hq
    · exact afterTask_of_error herror
    · refine ⟨hconf.sound, fun _ hle => ?_, fun _ _ => hassigned, fun hflag =>
        absurd hconf.flag hflag⟩
      rw [hconf.state] at hle
      exact absurd hle (by decide)
    · refine ⟨hi.sound, fun _ _ => hfull, fun hle _ => ?_, fun hflag => absurd hi.flag hflag⟩
      rw [hi.state] at hle
      exact absurd hle ((by decide : ∀ s : BYTE, s &&& usbStateMask = usbStateAddressing →
        ¬usbStateConfiguring ≤ s) s hs)

end Task

/-! ### The probes -/

/-- The device at `a` is being probed. -/
structure ProbedAt (s a : BYTE) (h : Host) : Prop where
  inState : InState s 0 h
  assigned : Assigned h
  tmpAddr : h.tmpAddr = a

theorem ProbedAt.epinfo_ne {s a : BYTE} {h : Host} (hp : ProbedAt s a h) :
    (h.devtable a).epinfo ≠ none := by
  rw [← hp.tmpAddr]
  exact hp.assigned.2

/-- A class is entered for the device, and its HID records are not in place yet. -/
structure Entered (s a : BYTE) (h : Host) : Prop where
  root : (h.devtable 0).epinfo ≠ none
  indexed : Indexed h
  state : h.usbTaskState = s
  flag : h.runningdebugflag = 0
  assigned : Assigned h
  tmpAddr : h.tmpAddr = a

theorem Entered.epinfo_ne {s a : BYTE} {h : Host} (he : Entered s a h) :
    (h.devtable a).epinfo ≠ none := by
  rw [← he.tmpAddr]
  exact he.assigned.2

theorem Entered.setEp {s a : BYTE} {h : Host} (he : Entered s a h) (t : EpTable) (ep : BYTE)
    (g : EpRecord → EpRecord) : Entered s a (h.setEp t ep g) :=
  ⟨he.root, he.indexed, he.state, he.flag, he.assigned, he.tmpAddr⟩

/-- An entry that is taken stays so if its record is replaced by one that is not NULL. -/
theorem setDev_epinfo_ne {h : Host} {i j : BYTE} {r : DevRecord} (hr : r.epinfo ≠ none)
    (hj : (h.devtable j).epinfo ≠ none) : ((h.setDev i r).devtable j).epinfo ≠ none := by
  by_cases hji : j = i
  · subst hji
    rwa [Host.setDev_self]
  · rwa [Host.setDev_of_ne _ hji]

theorem Entered.setDev {s a : BYTE} {h : Host} (he : Entered s a h) {i : BYTE} {r : DevRecord}
    (hr : r.epinfo ≠ none) : Entered s a (h.setDev i r) :=
  ⟨setDev_epinfo_ne hr he.root, he.indexed, he.state, he.flag,
    ⟨setDev_epinfo_ne hr he.assigned.1, setDev_epinfo_ne hr he.assigned.2⟩, he.tmpAddr⟩

section Probe

variable {χ : Type} [Platform χ] {s a driver : BYTE}

theorem transfersAt_probed :
    TransfersAt (χ := χ) (fun _ => KeepsSafe .deref (On (ProbedAt s a))) a 0 :=
  transfersAt_on (fun _ hp => valid_zero hp.epinfo_ne) fun _ t ep g hp =>
    ⟨hp.inState.setEp t ep g, hp.assigned, hp.tmpAddr⟩

/-- The HID records are in place at `a`. -/
def Filled (s a : BYTE) (h : Host) : Prop :=
  ProbedAt s a h ∧ (h.devtable a).epinfo = some .hidEp

theorem transfersAt_filled {ep : BYTE} (hep : ep.toNat < 2) :
    TransfersAt (χ := χ) (fun _ => KeepsSafe .deref (On (Filled s a))) a ep :=
  transfersAt_on (fun _ hp => valid_hidEp hp.2 hep) fun _ t ep g hp =>
    ⟨⟨hp.1.inState.setEp t ep g, hp.1.assigned, hp.1.tmpAddr⟩, hp.2⟩

/-- The record of the device is switched to the HID records before `hid_device` names it. -/
theorem safe_fillDevice (pos : ℕ) :
    Safe .deref (On (ProbedAt s a)) (fillDevice driver a pos : Prog χ Unit)
      (fun _ => On (Filled s a)) := by
  let p : Host → Prop := fun h => Entered s a h ∧ (h.devtable a).epinfo = some .hidEp
  have hC : TransfersAt (χ := χ) (fun _ => KeepsSafe .deref (On (Entered s a))) a 0 :=
    transfersAt_on (fun _ he => valid_zero he.epinfo_ne) fun _ t ep g he => he.setEp t ep g
  have hC' : TransfersAt (χ := χ) (fun _ => KeepsSafe .deref (On p)) a 0 :=
    transfersAt_on (fun _ hh => valid_hidEp hh.2 (by decide))
      fun _ t ep g hh => ⟨hh.1.setEp t ep g, hh.2⟩
  refine safe_bind (safe_setHost (q := Entered s a) fun h hp => ?_) fun _ => ?_
  · have hsound := hp.inState.sound
    have he : Entered s a h := ⟨hsound.root, hsound.tmpAddr, hp.inState.state, hp.inState.flag,
      hp.assigned, hp.tmpAddr⟩
    exact he.setDev hp.epinfo_ne
  refine safe_bind hC.epRecord fun r => ?_
  refine safe_bind (safe_bind (hC.setEp _ _ _) fun _ => hC.setEp _ _ _) fun _ => ?_
  refine safe_bind (safe_setHost (q := p) fun h he => ⟨he.setDev nofun, ?_⟩) fun _ => ?_
  · rw [Host.setDev_self]
  refine safe_bind (hC'.setEpRecord _) fun _ => safe_bind (hC'.load _) fun _ => ?_
  refine safe_bind (safe_setHost (q := p) fun h hh => ?_) fun _ => safe_setHost fun h hh => ?_
  · exact ⟨⟨hh.1.root, hh.1.indexed, hh.1.state, hh.1.flag, hh.1.assigned, hh.1.tmpAddr⟩, hh.2⟩
  · exact ⟨⟨⟨⟨hh.1.root, hh.1.indexed, fun _ _ _ => hh.2⟩, hh.1.state, hh.1.flag⟩,
      hh.1.assigned, hh.1.tmpAddr⟩, hh.2⟩

theorem safe_endpointLoop (fuel : Fuel) (confvalue : BYTE) (total : WORD) (n pos : ℕ) :
    KeepsSafe .deref (On (Filled s a))
        (endpointLoop fuel a confvalue total n pos : Prog χ (ℕ ⊕ Bool)) := by
  have hC : TransfersAt (χ := χ) (fun _ => KeepsSafe .deref (On (Filled s a))) a 0 :=
    transfersAt_filled (by decide)
  have hC₁ : TransfersAt (χ := χ) (fun _ => KeepsSafe .deref (On (Filled s a))) a 1 :=
    transfersAt_filled (by decide)
  refine hC.whileLoop (safe_throw (by decide)) (fun _ => hC.pure _) (fun pos => ?_)
    (fun _ => hC.pure _) n pos
  exact hC.skipTo _ (fun pos => hC.bind (hC.fillEndpoint hC₁ _ _ _) fun _ => hC.pure _) pos

theorem safe_hidProbe (fuel : Fuel) (protocol : BYTE) :
    KeepsSafe .deref (On (ProbedAt s a)) (hidProbe driver protocol fuel a : Prog χ Bool) := by
  have hC : TransfersAt (χ := χ) (fun _ => KeepsSafe .deref (On (ProbedAt s a))) a 0 :=
    transfersAt_probed
  have hparse (confvalue : BYTE) (total : WORD) (pos : ℕ) : KeepsSafe .deref (On (ProbedAt s a))
      (parseInterface fuel driver protocol a confvalue total pos : Prog χ (ℕ ⊕ Bool)) := by
    refine hC.bind (hC.load _) fun _ => hC.bind (hC.load _) fun _ =>
      hC.bind (hC.load _) fun _ => hC.ite ?_ (hC.pure _)
    refine safe_bind (safe_fillDevice pos) fun _ => safe_bind (safe_load _) fun _ => ?_
    exact (safe_endpointLoop _ _ _ _ _).conseq (fun _ hw => hw) fun _ _ hw => hw.1
  refine hC.bind (hC.readConfiguration fuel) fun r => ?_
  cases r with
  | none => exact hC.pure false
  | some r =>
    refine hC.whileLoop (safe_throw (by decide)) (fun _ => hC.pure _) (fun pos => ?_)
      (fun _ => hC.pure _) _ _
    exact hC.skipTo _ (hparse _ _) pos

omit [Platform χ] in
/-- The probes that are tried keep the records of the device. -/
theorem safe_runProbes {probes : List (BYTE → Prog χ Bool)}
    (hprobes : ∀ probe ∈ probes, KeepsSafe .deref (On (ProbedAt s a)) (probe a)) :
    Safe .deref (On (ProbedAt s a)) (runProbes probes)
      (fun _ => On fun h => ProbedAt s a h ∨ ProbedAt usbStateRunning a h) := by
  induction probes with
  | nil => exact safe_pure fun _ hw => .inl hw
  | cons probe rest ih =>
    refine safe_bind safe_getHost fun h => safe_of_on (c := h.tmpAddr = a)
      (fun h' hh => hh.2.tmpAddr) fun htmp => ?_
    rw [htmp]
    refine safe_bind ((hprobes probe List.mem_cons_self).conseq
      (fun w hw => hw.at_read hw.2) fun _ _ hw => hw) fun b => safe_ite (fun _ => ?_) fun _ => ?_
    · refine safe_setHost fun h hp => .inr ⟨⟨?_, rfl, hp.inState.flag⟩, hp.assigned, hp.tmpAddr⟩
      exact hp.inState.sound.setState _
    · exact ih fun probe hmem => hprobes probe (List.mem_cons_of_mem _ hmem)

theorem ProbedAt.afterTask {h : Host} (hs : usbStateConfiguring ≤ s) (hp : ProbedAt s a h) :
    AfterTask h := by
  refine ⟨hp.inState.sound, fun _ hle => ?_, fun _ _ => hp.assigned,
    fun hflag => absurd hp.inState.flag hflag⟩
  rw [hp.inState.state] at hle
  exact absurd hle ((by decide : ∀ s : BYTE, usbStateConfiguring ≤ s → ¬s ≤ 0x2f) s hs)

theorem safe_configuringTask (hs : usbStateConfiguring ≤ s) (fuel : Fuel) :
    Safe .deref (On (ProbedAt s a)) (configuringTask fuel : Prog χ Unit)
      (fun _ => On AfterTask) := by
  have hfalse : KeepsSafe .deref (On (ProbedAt s a))
      (pure false : Prog χ Bool) := safe_pure fun _ hw => hw
  refine safe_bind (safe_runProbes fun probe hmem => ?_) fun _ =>
    safe_bind safe_getHost fun h => safe_ite (fun hsame => ?_) fun _ => safe_pure fun w hw => ?_
  · simp only [clientDriverTable, List.mem_cons, List.not_mem_nil, or_false] at hmem
    obtain rfl | rfl | rfl | rfl := hmem
    · exact hfalse
    · exact safe_hidProbe fuel hidProtocolMouse
    · exact safe_hidProbe fuel hidProtocolKeyboard
    · exact hfalse
  · refine (safe_setUsbError (s := usbStateConfiguring) (f := 0) 0xfd).conseq (fun w hw => ?_)
      fun _ _ => afterTask_of_error
    obtain ⟨rfl, hp | hp⟩ := hw
    · exact ⟨hp.inState.sound, hsame, hp.inState.flag⟩
    · rw [hp.inState.state] at hsame
      exact absurd hsame (by decide)
  · refine hw.at_read ?_
    obtain hp | hp := hw.2
    · exact hp.afterTask hs
    · exact hp.afterTask (by decide)

end Probe

end TetrisFpga.Usb
