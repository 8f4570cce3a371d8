import Mathlib.Tactic.ByContra
import TetrisFpga.Usb.Endpoints
import TetrisFpga.Usb.RunningAddress

/-!
# The endpoint records in the main loop

The loop of `main` keeps the table sound, whatever the device does and whenever it is plugged in
or out, and no run of it uses a record that is not there.
-/

namespace TetrisFpga.Usb
open Program

section Main

variable {χ : Type} [Platform χ]

/-! ## The USB task -/

theorem AfterIrq.unchanged {h : Host} (hi : AfterIrq h)
    (hg : h.usbTaskState &&& usbStateMask ≠ usbStateAddressing) : AfterTask h where
  sound := hi.sound
  full hlow hhigh := by
    have hgroup : ∀ s : BYTE, usbStateAddressing + 1 ≤ s → s ≤ 0x2f →
        s &&& usbStateMask = usbStateAddressing := by
      decide
    exact absurd (hgroup _ hlow hhigh) hg
  assigned := hi.assigned
  flag hflag := by
    obtain ⟨hrun | hleft, hdriven⟩ := hi.flag hflag
    · refine ⟨?_, fun _ => hdriven⟩
      rw [hrun]
      decide
    · exact ⟨(leftStates_group _ hleft).2.2.2, fun _ => hdriven⟩

/-- A device that has been running is not given an address again before the table is cleared. -/
theorem AfterIrq.flag_zero {h : Host} (hi : AfterIrq h)
    (hg : h.usbTaskState &&& usbStateMask = usbStateAddressing ∨
      h.usbTaskState &&& usbStateMask = usbStateConfiguring) : h.runningdebugflag = 0 := by
  by_contra hflag
  obtain ⟨hrun | hleft, -⟩ := hi.flag hflag
  · rw [hrun] at hg
    exact absurd hg (by decide)
  · obtain ⟨haddressing, hconfiguring, -⟩ := leftStates_group _ hleft
    exact hg.elim haddressing hconfiguring

theorem AfterIrq.attached {h : Host} (hi : AfterIrq h) (hflag : h.runningdebugflag ≠ 0) :
    h.usbTaskState ≠ usbAttachedSubstateGetDeviceDescriptorSize := by
  obtain ⟨hrun | hleft, -⟩ := hi.flag hflag
  · rw [hrun]
    decide
  · exact (by decide : ∀ s ∈ leftStates, s ≠ usbAttachedSubstateGetDeviceDescriptorSize) _ hleft

theorem safe_usbTask (fuel : Fuel) :
    Safe .deref (On AfterIrq) (usbTask fuel : Prog χ Unit) (fun _ => On AfterTask) := by
  refine safe_bind (safe_quiet fun _ => ⟨_, _, rfl, rfl⟩) fun _ => safe_bind safe_getHost fun h =>
    safe_of_on (c := AfterIrq h) (fun h' hh => hh.1 ▸ hh.2) fun hi => ?_
  have hstate : InState h.usbTaskState h.runningdebugflag h := ⟨hi.sound, rfl, rfl⟩
  refine safe_ite (fun hd => ?_) fun hd => safe_ite (fun ha => ?_) fun ha =>
    safe_ite (fun hg => ?_) fun hg => safe_ite (fun hc => ?_) fun hc => ?_
  · exact (safe_detachedTask hd).conseq (fun w hw => hw.at_read hstate) fun _ _ hw => hw
  · exact (safe_attachedTask ha hi.attached fuel).conseq (fun w hw => hw.at_read hstate)
      fun _ _ hw => hw
  · rw [hi.flag_zero (.inl hg)] at hstate
    exact (safe_addressingTask hg fuel).conseq (fun w hw => hw.at_read hstate) fun _ _ hw => hw
  · rw [hi.flag_zero (.inr hc)] at hstate
    have hgroup : ∀ s : BYTE, s &&& usbStateMask = usbStateConfiguring →
        usbStateConfiguring ≤ s ∧ s ≤ usbStateRunning := by
      decide
    obtain ⟨hlow, hhigh⟩ := hgroup _ hc
    have hp : ProbedAt h.usbTaskState h.tmpAddr h := ⟨hstate, hi.assigned hlow hhigh, rfl⟩
    exact (safe_configuringTask hlow fuel).conseq (fun w hw => hw.at_read hp) fun _ _ hw => hw
  · exact safe_pure fun w hw => hw.at_read (hi.unchanged hg)

/-! ## The rest of a round -/

/-- A device is running and may be asked for its driver. -/
structure Served (h : Host) : Prop where
  sound : TableSound h
  assigned : Assigned h
  state : h.usbTaskState = usbStateRunning
  flag : h.runningdebugflag ≠ 0

theorem Served.roundStart {h : Host} (hr : Served h) (hd : Driven h) : RoundStart h := by
  refine ⟨hr.sound, fun _ hle => ?_, fun _ _ => hr.assigned, ?_, fun _ => hd⟩
  · rw [hr.state] at hle
    exact absurd hle (by decide)
  · exact ⟨fun _ => hr.state, fun _ => hr.flag⟩

/-- The class that `GetDriverandReport` returns is one in the table, or none. -/
theorem foldl_class_cases (h : Host) (is : List BYTE) (d : BYTE) :
    let device := is.foldl (fun device i =>
      if (h.devtable i).epinfo ≠ none then (h.devtable i).devclass else device) d
    device = d ∨ ∃ i ∈ is, (h.devtable i).devclass = device := by
  induction is generalizing d with
  | nil => exact .inl rfl
  | cons i is ih =>
    obtain heq | ⟨j, hj, heq⟩ :=
      ih (if (h.devtable i).epinfo ≠ none then (h.devtable i).devclass else d)
    · rw [List.foldl_cons, heq]
      by_cases hdev : (h.devtable i).epinfo ≠ none
      · rw [if_pos hdev]
        exact .inr ⟨i, List.mem_cons_self, rfl⟩
      · rw [if_neg hdev]
        exact .inl rfl
    · exact .inr ⟨j, List.mem_cons_of_mem _ hj, heq⟩

/-- The driver is polled only where the device in the table has a class. -/
theorem safe_getDriverandReport (fuel : Fuel) :
    Safe .deref (On Served) (getDriverandReport fuel : Prog χ BYTE)
      (fun device => On fun h => Served h ∧ Driven { h with device := device }) := by
  refine safe_bind safe_getHost fun h₀ => ?_
  let device := addresses.foldl (fun device i =>
    if (h₀.devtable i).epinfo ≠ none then (h₀.devtable i).devclass else device) 0xff
  let p : Host → Prop := fun h => Served h ∧ Driven { h with device := device }
  have hC : TransfersAt (χ := χ) (fun _ => KeepsSafe .deref (On p)) 1 0 := by
    refine transfersAt_on (fun _ hh => valid_zero hh.1.assigned.1) fun h t ep g hh => ?_
    have hs := hh.1.sound
    exact ⟨⟨⟨hs.root, hs.tmpAddr, hs.boot⟩, hh.1.assigned, hh.1.state, hh.1.flag⟩, hh.2⟩
  have hp : p h₀ ∨ ¬Served h₀ := by
    by_cases hr : Served h₀
    · refine .inl ⟨hr, fun hclass => ?_⟩
      obtain heq | ⟨i, hi, heq⟩ := foldl_class_cases h₀ addresses 0xff
      · have hff : device = 0xff := heq
        change device = 1 ∨ device = 2 at hclass
        rw [hff] at hclass
        exact absurd hclass (by decide)
      · refine hr.sound.boot i hi ?_
        change device = 1 ∨ device = 2 at hclass
        rw [show (h₀.devtable i).devclass = device from heq]
        obtain h1 | h2 := hclass
        · rw [h1]
          decide
        · rw [h2]
          decide
    · exact .inr hr
  have hrest : Safe .deref (On p) (do
      declare .tmpbyte
      let _ ← xferGetIdle fuel addr 0 (← getHost).hidDevice.interface 0 ⟨.tmpbyte, 0⟩
      let _ ← xferGetProto fuel addr 0 (← getHost).hidDevice.interface ⟨.tmpbyte, 0⟩
      return device : Prog χ BYTE)
      (fun device => On fun h => Served h ∧ Driven { h with device := device }) := by
    refine safe_bind (safe_quiet fun _ => ⟨_, _, rfl, rfl⟩) fun _ => ?_
    refine safe_bind hC.getHost fun _ => safe_bind (hC.xferCtrlReq _ _ _ _ _ _ _ _) fun _ => ?_
    refine safe_bind hC.getHost fun _ => safe_bind (hC.xferCtrlReq _ _ _ _ _ _ _ _) fun _ => ?_
    exact safe_pure fun _ hw => hw
  refine hrest.conseq (fun w hw => hw.at_read (hp.resolve_right ?_)) fun _ _ hw => hw
  exact not_not.mpr (hw.1 ▸ hw.2)

/-- The running device at `a` has the HID records. -/
structure Polled (a : BYTE) (h : Host) : Prop where
  runs : Served h
  addr : h.hidDevice.addr = a
  records : (h.devtable a).epinfo = some .hidEp

theorem transfersAt_polled {a : BYTE} : TransfersAt (χ := χ) (fun _ =>
    KeepsSafe .deref (On (Polled a))) a 1 := by
  refine transfersAt_on (fun _ hp => valid_hidEp hp.records (by decide)) fun h t ep g hp => ?_
  have hs := hp.runs.sound
  exact ⟨⟨⟨hs.root, hs.tmpAddr, hs.boot⟩, hp.runs.assigned, hp.runs.state, hp.runs.flag⟩,
    hp.addr, hp.records⟩

omit [Platform χ] in
theorem safe_readAddr {a : BYTE} {α : Type} {f : Host → Prog χ α} {Q : α → World χ → Prop}
    (hf : ∀ h, h.hidDevice.addr = a → Safe .deref (On (Polled a)) (f h) Q) :
    Safe .deref (On (Polled a)) (getHost >>= f) Q := by
  refine safe_bind safe_getHost fun h => safe_of_on (c := h.hidDevice.addr = a)
    (fun h' hh => hh.1 ▸ hh.2.addr) fun haddr => ?_
  exact (hf h haddr).conseq (fun w hw => hw.at_read (hw.1 ▸ hw.2)) fun _ _ hw => hw

theorem safe_hidPoll {a : BYTE} (fuel : Fuel) (buf : Ptr) :
    KeepsSafe .deref (On (Polled a)) (hidPoll fuel buf : Prog χ BYTE) := by
  have hC : TransfersAt (χ := χ) (fun _ => KeepsSafe .deref (On (Polled a))) a 1 :=
    transfersAt_polled
  -- each access reads `hid_device.addr` anew
  refine safe_readAddr fun h haddr => ?_
  rw [haddr]
  refine safe_bind (hC.wr _ _) fun _ => safe_readAddr fun h haddr => ?_
  rw [haddr]
  refine safe_bind hC.epRecord fun r => safe_readAddr fun h haddr => ?_
  rw [haddr]
  exact hC.xferInTransfer _ _ _ _

omit [Platform χ] in
theorem safe_setPio {p : Host → Prop} (f : Pio → Pio) :
    KeepsSafe .deref (On p) (setPio f : Prog χ Unit) :=
  safe_quiet fun _ => ⟨_, _, rfl, rfl⟩

theorem shows_polled {a : BYTE} : Shows (χ := χ) fun _ => KeepsSafe .deref (On (Polled a)) where
  toClosed := transfersAt_polled.toClosed
  load := safe_load
  getPio := safe_quiet fun _ => ⟨_, _, rfl, rfl⟩
  setPio f _ := safe_setPio f

theorem safe_whileRunning {h₀ : Host} (hw : AfterTask h₀)
    (hrun : h₀.usbTaskState = usbStateRunning) (fuel : Fuel) :
    Safe .deref (On fun h => h = h₀) (whileRunning fuel : Prog χ Unit)
      (fun _ => On RoundStart) := by
  have hassigned : Assigned h₀ := hw.assigned (by rw [hrun]; decide) (by rw [hrun]; decide)
  refine safe_bind safe_getHost fun h => safe_of_on (c := h = h₀) (fun h' hh => hh.1 ▸ hh.2) ?_
  rintro rfl
  refine safe_ite (fun _ => ?_) fun hflag => ?_
  · refine safe_bind (safe_setHost (q := Served) ?_) fun _ => safe_bind (safe_setPio _) fun _ => ?_
    · rintro h' ⟨rfl, -⟩
      exact ⟨⟨hw.sound.root, hw.sound.tmpAddr, hw.sound.boot⟩, hassigned, hrun, nofun⟩
    refine safe_bind (safe_getDriverandReport fuel) fun device => safe_setHost fun h' hh => ?_
    have hs := hh.1.sound
    have hr : Served { h' with device := device } :=
      ⟨⟨hs.root, hs.tmpAddr, hs.boot⟩, hh.1.assigned, hh.1.state, hh.1.flag⟩
    exact hr.roundStart hh.2
  · have hr : Served h := ⟨hw.sound, hassigned, hrun, hflag⟩
    have hdriven : Driven h := (hw.flag hflag).2 hrun
    -- the polls leave `device` and the table as they are
    have hpoll {x : Prog χ Unit} (hclass : h.device = 1 ∨ h.device = 2)
        (hx : KeepsSafe .deref (On (Polled h.hidDevice.addr)) x) :
        Safe .deref (On fun h' => h' = h ∧ h = h) x (fun _ => On RoundStart) := by
      refine hx.conseq (fun w hh => hh.at_read ⟨hr, rfl, hdriven hclass⟩) fun _ w hp => ?_
      refine hp.runs.roundStart fun _ => ?_
      show (w.host.devtable w.host.hidDevice.addr).epinfo = _
      rw [hp.addr]
      exact hp.records
    have hC : Shows (χ := χ) fun _ => KeepsSafe .deref (On (Polled h.hidDevice.addr)) :=
      shows_polled
    have hkeyboard := hC.pollKeyboard (fun _ => safe_setPio _) (safe_hidPoll fuel ⟨.kbdbuf, 0⟩)
    have hmouse := hC.pollMouse (safe_hidPoll fuel ⟨.mousebuf, 0⟩)
    refine safe_ite (fun h1 => hpoll (.inl h1) hkeyboard) fun _ =>
      safe_ite (fun h2 => hpoll (.inr h2) hmouse) fun _ => ?_
    exact safe_pure fun w hh => hh.at_read (hr.roundStart hdriven)

/-! ## The hardware is initialised -/

/-- What `main` does at first, and again after a device has been running. -/
theorem safe_init (fuel : Fuel) :
    Safe .deref (On fun h => Indexed h ∧ h.runningdebugflag = 0) (do
        max3421eInit fuel
        usbInit : Prog χ Unit) (fun _ => On RoundStart) := by
  let p : Host → Prop := fun h => Indexed h ∧ h.runningdebugflag = 0
  let q : Host → Prop := fun h => p h ∧ h.usbTaskState ≤ usbStateAddressing
  have hchip : Safe .deref (On p) (max3421eInit fuel : Prog χ Unit) (fun _ => On q) :=
    safe_max3421eInit (fun h sample hp => ⟨hp, probedState_le sample _⟩) fuel
  refine safe_bind hchip fun _ => (safe_usbInit (p := q) (fun _ _ _ hh => hh)
    fun _ _ _ _ hh => hh).conseq (fun _ hw => hw) fun _ w hw => ?_
  obtain ⟨⟨⟨hindexed, hflag⟩, hlow⟩, hcleared⟩ := hw
  have hcases : ∀ s : BYTE, s ≤ usbStateAddressing → ¬usbStateAddressing + 1 ≤ s ∧
      ¬usbStateConfiguring ≤ s ∧ s ≠ usbStateRunning := by
    decide
  obtain ⟨hfull, hassigned, hrun⟩ := hcases _ hlow
  exact ⟨hcleared.sound hindexed, fun h => absurd h hfull, fun h => absurd h hassigned,
    ⟨fun h => absurd hflag h, fun h => absurd h hrun⟩, fun h => absurd h hrun⟩

theorem RoundStart.setErrorflag {h : Host} (hr : RoundStart h) (v : BYTE) :
    RoundStart { h with errorflag := v } :=
  ⟨⟨hr.sound.root, hr.sound.tmpAddr, hr.sound.boot⟩, hr.full, hr.assigned, hr.flag, hr.driven⟩

/-- With `runningdebugflag` down, a round ends as the USB task leaves it. -/
theorem AfterTask.roundStart {h : Host} (hw : AfterTask h) (hflag : h.runningdebugflag = 0)
    (hrun : h.usbTaskState ≠ usbStateRunning) : RoundStart h :=
  ⟨hw.sound, hw.full, hw.assigned, ⟨fun h => absurd hflag h, fun h => absurd h hrun⟩,
    fun h => absurd h hrun⟩

theorem safe_whileNotRunning {h₀ : Host} (hw : AfterTask h₀)
    (hrun : h₀.usbTaskState ≠ usbStateRunning) (fuel : Fuel) :
    Safe .deref (On fun h => h = h₀) (whileNotRunning fuel : Prog χ Unit)
      (fun _ => On RoundStart) := by
  refine safe_bind safe_getHost fun h => safe_of_on (c := h = h₀) (fun h' hh => hh.1 ▸ hh.2) ?_
  rintro rfl
  refine safe_bind (Q := fun _ => On RoundStart) (safe_ite (fun _ => ?_) fun hz =>
    safe_pure fun w hh => hh.at_read (hw.roundStart (not_not.mp hz) hrun)) fun _ =>
    safe_bind (safe_setHost fun h hr => hr.setErrorflag 0) fun _ => safe_setPio _
  refine safe_bind (safe_setHost (q := fun h => Indexed h ∧ h.runningdebugflag = 0) ?_)
    fun _ => safe_init fuel
  rintro h' ⟨rfl, -⟩
  exact ⟨hw.sound.tmpAddr, rfl⟩

/-- A round uses no record that is not there. -/
theorem safe_mainRound (fuel : Fuel) :
    KeepsSafe .deref (On RoundStart) (mainRound fuel : Prog χ Unit) := by
  refine safe_bind safe_interrupts fun _ => safe_bind (safe_usbTask fuel) fun _ =>
    safe_bind safe_getHost fun h => safe_of_on (c := AfterTask h) (fun h' hh => hh.1 ▸ hh.2)
      fun hw => ?_
  refine safe_ite (fun hrun => ?_) fun hrun => safe_ite (fun herror => ?_) fun _ => ?_
  · exact (safe_whileRunning hw hrun fuel).conseq (fun w hh => hh.at_read rfl) fun _ _ hr => hr
  · have hflag : h.runningdebugflag = 0 := by
      by_contra hne
      exact (hw.flag hne).1 herror
    have hr : RoundStart h := hw.roundStart hflag hrun
    refine safe_ite (fun _ => ?_) fun _ => safe_pure fun w hh => hh.at_read hr
    refine safe_bind (safe_setHost (q := RoundStart) ?_) fun _ => safe_setPio _
    rintro h' ⟨rfl, -⟩
    exact hr.setErrorflag 1
  · exact (safe_whileNotRunning hw hrun fuel).conseq (fun w hh => hh.at_read rfl)
      fun _ _ hr => hr

/-- No run of `main` from power-up ends with the fault of a record that is not there, whatever the
device does, however it is plugged in and out and whenever interrupts come. -/
theorem main_avoids_deref (fuel : Fuel) (n : ℕ) (chip : χ) (device : BYTE)
    (mem : Obj → ℤ → BYTE) (pio : Pio) (w' : World χ) :
    main fuel n (powerUp chip device mem pio) ≠ .error .deref w' := by
  have hrounds : KeepsSafe .deref (On RoundStart) (times (mainRound fuel) n : Prog χ Unit) :=
    (closed_safe Fault.deref (On RoundStart)).times (safe_mainRound fuel) n
  have hinit : Safe .deref (On fun h => Indexed h ∧ h.runningdebugflag = 0)
      (mainInit fuel : Prog χ Unit) (fun _ => On RoundStart) :=
    safe_bind (safe_rd _) fun _ => safe_init fuel
  exact (safe_bind hinit fun _ => hrounds).error _ w' ⟨.inl rfl, rfl⟩

end Main

end TetrisFpga.Usb
