import TetrisFpga.Usb.Running

/-!
# The address in the main loop

A round of `main` keeps `Ready` when its interrupt is safe, so in every moment of a run of
safe rounds a running device is the one at address 1. A device that is plugged in again
while the table still has the last one gets address 2.
-/

namespace TetrisFpga.Usb
open Program

instance : DecidablePred Settled := fun h =>
  inferInstanceAs (Decidable (h.usbTaskState = usbStateRunning → AtAddressOne h))

section Main

variable {χ : Type} {F p : Host → Prop}

/-- The display on the PIOs assigns to no variable. -/
theorem triple_setPio {S : Host → Prop} (f : Pio → Pio) :
    Keeps (Holds S p) (Seen S) (setPio f : Prog χ Unit) :=
  triple_quiet fun _ => ⟨_, _, rfl, rfl, rfl⟩

/-! ## The hardware is initialised -/

theorem probedState_le (sample s : BYTE) : probedState sample s ≤ usbStateAddressing := by
  obtain hsame | hmem : probedState sample s = s ∧ s = usbAttachedSubstateWaitResetComplete ∨
      probedState sample s ∈ probeStates := by
    unfold probedState
    split_ifs with _ hwait
    · exact .inr (by decide)
    · exact .inl ⟨rfl, Decidable.not_not.mp hwait⟩
    · exact .inr (by decide)
    · exact .inr (by decide)
    · exact .inr (by decide)
  · rw [hsame.1, hsame.2]
    decide
  · exact (by decide : ∀ s ∈ probeStates, s ≤ usbStateAddressing) _ hmem

section Init

variable [Platform χ]

/-- What `main` does at first, and again after a device has been running. -/
theorem triple_init (fuel : Fuel) :
    Triple (Holds Settled fun h => h.runningdebugflag = 0 ∧ h.usbTaskState ≠ usbStateRunning)
      (do
        max3421eInit fuel
        usbInit : Prog χ Unit)
      (fun _ => Holds Settled Ready) (Seen Settled) := by
  have hlow (h : Host) (hh : h.runningdebugflag = 0 ∧ h.usbTaskState ≤ usbStateAddressing) :
      Settled h := by
    intro hrun
    rw [hrun] at hh
    exact absurd hh.2 (by decide)
  refine triple_bind (triple_max3421eInit
    (fun h sample hh => ⟨hh.1, probedState_le sample _⟩) hlow fuel) fun _ => ?_
  exact (triple_usbInit (fun _ _ _ hh => hh) (fun _ _ _ _ hh => hh) hlow).conseq (fun _ hw => hw)
    fun _ _ hw => hw.mono fun h hh => .unassigned hh.1.1 hh.2.clear hh.2.root (.inl hh.1.2)

end Init

/-! ## The rest of a round -/

theorem Ready.setErrorflag {h : Host} (hr : Ready h) (v : BYTE) :
    Ready { h with errorflag := v } := by
  cases hr with
  | running hflag hs ht =>
    exact .running hflag hs ⟨ht.only, ht.epinfo, ht.devclass, ht.addr⟩
  | unassigned hflag hclear hroot hs => exact .unassigned hflag hclear hroot hs
  | assigned hflag honly hs => exact .assigned hflag honly hs

theorem triple_setErrorflag (v : BYTE) :
    Keeps (Holds Settled Ready) (Seen Settled) (setErrorflag v : Prog χ Unit) :=
  triple_setHost (fun _ hr => hr.setErrorflag v) fun _ hr => hr.settled

section Round

variable [Platform χ]

theorem triple_whileNotRunning {h : Host} (hw : Worked h)
    (hrun : h.usbTaskState ≠ usbStateRunning) (fuel : Fuel) :
    Triple (Holds Settled fun h' => h' = h) (whileNotRunning fuel : Prog χ Unit)
      (fun _ => Holds Settled Ready) (Seen Settled) := by
  have hready (hflag : h.runningdebugflag = 0) : Ready h := by
    cases hw with
    | running hs _ => exact absurd hs hrun
    | left hne _ _ => exact absurd hflag hne
    | unassigned hflag hclear hroot hs => exact .unassigned hflag hclear hroot hs
    | assigned hflag honly hs => exact .assigned hflag honly hs
  refine triple_bind triple_getHost fun h₁ => triple_of_imp (c := h₁ = h) (fun _ hw => hw.1.2) ?_
  rintro rfl
  refine triple_bind (Q := fun _ => Holds Settled Ready) (triple_when (fun _ => ?_) fun hz w hw =>
      hw.at_read (hready (Decidable.not_not.mp hz))) fun _ =>
    triple_bind (triple_setErrorflag 0) fun _ => triple_setPio _
  refine triple_bind (triple_setHost (q := fun h => h.runningdebugflag = 0 ∧
    h.usbTaskState ≠ usbStateRunning) ?_ fun _ hh hr => absurd hr hh.2) fun _ => triple_init fuel
  rintro h' ⟨rfl, -⟩
  exact ⟨rfl, hrun⟩

/-- A device is running. -/
def Runs (h : Host) : Prop :=
  h.runningdebugflag ≠ 0 ∧ h.usbTaskState = usbStateRunning ∧ AtAddressOne h

theorem transfers_runs : Transfers (χ := χ) fun _ => Keeps (Holds Settled Runs) (Seen Settled) :=
  transfers_hold (fun _ _ _ _ hh =>
    ⟨hh.1, hh.2.1, hh.2.2.only, hh.2.2.epinfo, hh.2.2.devclass, hh.2.2.addr⟩)
    fun _ hh _ => hh.2.2

omit [Platform χ] in
theorem shows_runs : Shows (χ := χ) fun _ => Keeps (Holds Settled Runs) (Seen Settled) where
  toClosed := closed_keeps _ _
  load _ := triple_quiet fun _ => ⟨_, _, rfl, rfl, rfl⟩
  getPio := triple_quiet fun _ => ⟨_, _, rfl, rfl, rfl⟩
  setPio f _ := triple_setPio f

theorem triple_getDriverandReport (fuel : Fuel) :
    Keeps (Holds Settled Runs) (Seen Settled) (getDriverandReport fuel : Prog χ BYTE) := by
  have hC : Transfers (χ := χ) fun _ => Keeps (Holds Settled Runs) (Seen Settled) := transfers_runs
  refine hC.bind hC.getHost fun _ =>
    hC.bind (triple_quiet fun _ => ⟨_, _, rfl, rfl, rfl⟩) fun _ => ?_
  refine hC.bind hC.getHost fun _ => hC.bind (hC.xferCtrlReq _ _ _ _ _ _ _ _ _ _) fun _ => ?_
  refine hC.bind hC.getHost fun _ => hC.bind (hC.xferCtrlReq _ _ _ _ _ _ _ _ _ _) fun _ => ?_
  exact hC.pure _

theorem triple_whileRunning {h : Host} (ht : AtAddressOne h)
    (hrun : h.usbTaskState = usbStateRunning) (fuel : Fuel) :
    Triple (Holds Settled fun h' => h' = h) (whileRunning fuel : Prog χ Unit)
      (fun _ => Holds Settled Ready) (Seen Settled) := by
  have hready (w : World χ) (hw : Holds Settled Runs w) : Holds Settled Ready w :=
    hw.mono fun _ hh => .running hh.1 hh.2.1 hh.2.2
  refine triple_bind triple_getHost fun h₁ => triple_of_imp (c := h₁ = h) (fun _ hw => hw.1.2) ?_
  rintro rfl
  refine triple_ite (fun _ => ?_) fun hflag => ?_
  · refine triple_bind (triple_setHost (q := Runs) ?_ fun _ hh _ => hh.2.2) fun _ => ?_
    · rintro h' ⟨rfl, -⟩
      exact ⟨nofun, hrun, ht.only, ht.epinfo, ht.devclass, ht.addr⟩
    refine triple_bind (triple_setPio _) fun _ =>
      triple_bind (triple_getDriverandReport fuel) fun device =>
      triple_setHost (fun h hh => ?_) fun _ hr => hr.settled
    exact .running hh.1 hh.2.1 ⟨hh.2.2.only, hh.2.2.epinfo, hh.2.2.devclass, hh.2.2.addr⟩
  · have hpoll {x : Prog χ Unit}
        (hx : Keeps (Holds Settled Runs) (Seen Settled) x) :
        Triple (Holds Settled fun h' => h' = h₁ ∧ h₁ = h₁) x (fun _ => Holds Settled Ready)
          (Seen Settled) :=
      hx.conseq (fun _ hw => hw.at_read ⟨hflag, hrun, ht⟩) fun _ => hready
    have hkeyboard := shows_runs.pollKeyboard (fun _ => triple_setPio _)
      (transfers_runs (χ := χ).hidPoll fuel ⟨.kbdbuf, 0⟩)
    have hmouse := shows_runs.pollMouse (transfers_runs (χ := χ).hidPoll fuel ⟨.mousebuf, 0⟩)
    exact triple_ite (fun _ => hpoll hkeyboard) fun _ => triple_ite (fun _ => hpoll hmouse)
      fun _ => hpoll (triple_pure fun _ hw => hw)

theorem triple_mainRound (fuel : Fuel) :
    Triple (fun w => Holds Settled Ready w ∧ SafeIrq w) (mainRound fuel : Prog χ Unit)
      (fun _ => Holds Settled Ready) (Seen Settled) := by
  refine triple_bind triple_interrupts fun _ => triple_bind (triple_usbTask fuel) fun _ =>
    triple_bind triple_getHost fun h => triple_of_imp (c := Worked h) (fun _ hw => hw.1.2)
      fun hworked => ?_
  refine triple_ite (fun hrun => ?_) fun hrun => triple_ite (fun herror => ?_) fun herror => ?_
  · exact (triple_whileRunning (hworked.settled hrun) hrun fuel).conseq
      (fun _ hw => hw.at_read rfl) fun _ _ hw => hw
  · have hready : Ready h := by
      cases hworked with
      | running hs _ => exact absurd hs hrun
      | left _ _ hne => exact absurd herror hne
      | unassigned hflag hclear hroot hs => exact .unassigned hflag hclear hroot hs
      | assigned hflag honly hs => exact .assigned hflag honly hs
    have hkeep : Keeps (Holds Settled Ready) (Seen Settled) (do
          setErrorflag 1
          clearLED 9 : Prog χ Unit) :=
      triple_bind (triple_setErrorflag 1) fun _ => triple_setPio _
    exact triple_ite (fun _ => hkeep.conseq (fun _ hw => hw.at_read hready) fun _ _ hw => hw)
      fun _ => triple_pure fun _ hw => hw.at_read hready
  · exact (triple_whileNotRunning hworked hrun fuel).conseq (fun _ hw => hw.at_read rfl)
      fun _ _ hw => hw

end Round

/-! ## Runs from power-up -/

section Runs

variable [Platform χ]

/-- In every round of this run of `main` the interrupt, if there is one, is safe. -/
def SafeRun (fuel : Fuel) (n : ℕ) (w : World χ) : Prop :=
  match mainInit fuel w with
  | .ok _ w' => Guarded (mainRound fuel) SafeIrq n w'
  | .error _ _ => True

instance (fuel : Fuel) (n : ℕ) (w : World χ) : Decidable (SafeRun fuel n w) := by
  unfold SafeRun
  split <;> infer_instance

/-- The variables in every moment of a run of `main`. -/
def moments (fuel : Fuel) (n : ℕ) (w : World χ) : List Host :=
  snapshots (final (main fuel n w)).log ++ [w.host]

theorem triple_mainInit (fuel : Fuel) :
    Triple (Holds Settled fun h => h.runningdebugflag = 0 ∧ h.usbTaskState ≠ usbStateRunning)
      (mainInit fuel : Prog χ Unit) (fun _ => Holds Settled Ready) (Seen Settled) :=
  triple_bind (triple_quiet fun _ => ⟨_, _, rfl, rfl, rfl⟩) fun _ => triple_init fuel

theorem triple_main {fuel : Fuel} {n : ℕ} {w : World χ} (hsafe : SafeRun fuel n w)
    (hw : Holds Settled (fun h => h.runningdebugflag = 0 ∧ h.usbTaskState ≠ usbStateRunning) w) :
    Triple (fun w' => w' = w) (main fuel n : Prog χ Unit) (fun _ => Holds Settled Ready)
      (Seen Settled) := by
  refine triple_bind (Q := fun _ w' => Holds Settled Ready w' ∧
    Guarded (mainRound fuel) SafeIrq n w') ⟨?_, ?_⟩ fun _ => (triple_mainRound fuel).times n
  · rintro _ _ w' rfl hr
    rw [SafeRun, hr] at hsafe
    exact ⟨(triple_mainInit fuel).ok _ _ w' hw hr, hsafe⟩
  · rintro _ e w' rfl hr
    exact (triple_mainInit fuel).error _ e w' hw hr

/-- In a run with safe interrupts, a device that runs is always the one at address 1. -/
theorem settled_of_safeRun (fuel : Fuel) (n : ℕ) (chip : χ) (device : BYTE)
    (mem : Obj → ℤ → BYTE) (pio : Pio) (hsafe : SafeRun fuel n (powerUp chip device mem pio)) :
    ∀ h ∈ moments fuel n (powerUp chip device mem pio), Settled h := by
  have hne : (powerUp chip device mem pio).host.usbTaskState ≠ usbStateRunning :=
    (by decide : usbDetachedSubstateInitialize ≠ usbStateRunning)
  have hmain := (triple_main hsafe ⟨⟨rfl, hne⟩, nofun⟩).conseq (fun _ hw => hw)
    fun _ _ hw => hw.2
  intro h hmem
  obtain hmem | hmem := List.mem_append.mp hmem
  · exact hmain.final rfl h hmem
  · exact fun hrun => absurd (List.mem_singleton.mp hmem ▸ hrun) hne

end Runs

/-! ## A keyboard -/

/-- The device descriptor of a keyboard without strings. -/
def keyboardDevice : List BYTE := [18, 1, 0, 2, 0, 0, 0, 64, 1, 0, 2, 0, 0, 0, 0, 0, 0, 1]

/-- The register reads from power-up to the first connection, from there to CONFIGURING, and
while the keyboard is probed. -/
def initReads : List BYTE := [0x00, 0x01, 0x80, 0x00]

def addressReads : List BYTE :=
  [0x00, 0x00, 0x00] ++ reply (keyboardDevice.take 8) ++ reply keyboardDevice ++
    [0x80, 0x00, 0x80, 0x00]

def probeReads : List BYTE :=
  [0x80, 0x05] ++ reply (keyboardConfiguration.take 9) ++ reply keyboardConfiguration ++
    [0x80, 0x00, 0x80, 0x00, 0x80, 0x00, 0x80, 0x00]

/-- A keyboard that is plugged in once. -/
def plugged : World Script :=
  powerUp { answers := initReads ++ addressReads ++ probeReads, tick := 250 } 0 (fun _ _ => 0) {}

example : (final (main ⟨9, 9, 9, 9, 9⟩ 9 plugged)).host.usbTaskState = usbStateRunning := by
  decide +kernel

/-- A keyboard whose connection changes when it has its address. The connection interrupt
finds the bus pulled, the task attaches the device again, and the table still has the first
entry. -/
def replugged : World Script :=
  powerUp { answers := initReads ++ addressReads ++ [0x20, 0x80, 0x00] ++ addressReads ++ probeReads
            irqs := [1, 1, 1, 1, 1, 1, 1, 0]
            tick := 250 } 0 (fun _ _ => 0) {}

end Main

end TetrisFpga.Usb
