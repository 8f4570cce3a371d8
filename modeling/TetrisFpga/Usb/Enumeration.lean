import TetrisFpga.Machine.History
import TetrisFpga.Usb.RunningAddress
import TetrisFpga.Usb.States

/-!
# The order of the enumeration

Between the attachment of a device and the first SETUP token to address 0 the task waits for the
bus to settle, resets it, and waits for the end of the reset and for a start of frame. The waits
are steps of the task state, so a bus event that steps the state as well goes past them.
-/

namespace TetrisFpga.Usb
open Program History

/-! ## What the log tells -/

/-- The task state after the last assignment. -/
def taskState (log : List Event) : BYTE :=
  ((snapshots log).head?.map Host.usbTaskState).getD usbDetachedSubstateInitialize

/-- An assignment enters ATTACHED. -/
def EntersAttached (e : Event) (log : List Event) : Prop :=
  match e with
  | .host h => h.usbTaskState = usbStateAttached ∧ taskState log ≠ usbStateAttached
  | _ => False

instance : ∀ e log, Decidable (EntersAttached e log)
  | .host _, _ => inferInstanceAs (Decidable (_ ∧ _))
  | .rd .., _ | .wr .., _ | .irq _, _ | .gpx _, _ | .nticks _, _ | .usbRst _, _ | .load _, _
  | .store .., _ | .access .., _ => .isFalse id

/-- What happened since ATTACHED was last entered, if it ever was. -/
def sinceAttached : List Event → Option (List Event)
  | [] => none
  | e :: log => if EntersAttached e log then some [] else (sinceAttached log).map (e :: ·)

/-- The address in `PERADDR`. -/
def perAddr : List Event → Option BYTE
  | [] => none
  | .wr reg val :: log => if reg = rPERADDR then some val else perAddr log
  | _ :: log => perAddr log

/-- A SETUP token is sent to address 0. -/
def SetupToZero (e : Event) (log : List Event) : Prop :=
  match e with
  | .wr reg val => reg = rHXFR ∧ val &&& 0xf0 = tokSETUP ∧ perAddr log = some 0
  | _ => False

instance : ∀ e log, Decidable (SetupToZero e log)
  | .wr .., _ => inferInstanceAs (Decidable (_ ∧ _ ∧ _))
  | .rd .., _ | .host _, _ | .irq _, _ | .gpx _, _ | .nticks _, _ | .usbRst _, _ | .load _, _
  | .store .., _ | .access .., _ => .isFalse id

/-- A reading of the clock. -/
def Event.clock : Event → Option DWORD
  | .nticks t => some t
  | _ => none

/-- The readings of the clock. -/
def clocks (log : List Event) : List DWORD := log.filterMap Event.clock

/-- The millisecond clock starts again long before 2 ^ 32, so a deadline does not overflow. -/
theorem ms_add_toNat (t : DWORD) {d : DWORD} (hd : d ≤ usbXferTimeout) :
    (ms t + d).toNat = (ms t).toNat + d.toNat := by
  have hms : (ms t).toNat = (t * 1000).toNat / 1000 := BitVec.toNat_udiv
  have hlt := (t * 1000).isLt
  have hd : d.toNat ≤ 5000 := hd
  rw [BitVec.toNat_add]
  omega

/-- Two readings of the millisecond clock are more than 200 apart. -/
def Waited : List Event → Prop :=
  Once fun e log => ∃ b ∈ e.clock, ∃ a ∈ clocks log, (ms a).toNat + 200 < (ms b).toNat

/-- The event reads `reg`, and the value meets `p`. -/
def Event.Reads (reg : BYTE) (p : BYTE → Prop) : Event → Prop
  | .rd r val => r = reg ∧ p val
  | _ => False

/-- The event writes a value that meets `p` to `reg`. -/
def Event.Writes (reg : BYTE) (p : BYTE → Prop) : Event → Prop
  | .wr r val => r = reg ∧ p val
  | _ => False

instance (reg : BYTE) (p : BYTE → Prop) [DecidablePred p] : DecidablePred (Event.Reads reg p)
  | .rd .. => inferInstanceAs (Decidable (_ ∧ _))
  | .wr .. | .host _ | .irq _ | .gpx _ | .nticks _ | .usbRst _ | .load _ | .store ..
  | .access .. => .isFalse id

instance (reg : BYTE) (p : BYTE → Prop) [DecidablePred p] : DecidablePred (Event.Writes reg p)
  | .wr .. => inferInstanceAs (Decidable (_ ∧ _))
  | .rd .. | .host _ | .irq _ | .gpx _ | .nticks _ | .usbRst _ | .load _ | .store ..
  | .access .. => .isFalse id

/-- A bus reset was issued. -/
def ResetIssued : List Event → Prop :=
  Once fun e _ => e.Writes rHCTL fun val => val &&& bmBUSRST ≠ 0

/-- The end of a bus reset was seen. -/
def ResetSeen : List Event → Prop :=
  Once fun e log => (e.Reads rHCTL fun val => val &&& bmBUSRST = 0) ∧ ResetIssued log

/-- A start of frame was seen after the end of a bus reset. -/
def SofSeen : List Event → Prop :=
  Once fun e log => (e.Reads rHIRQ fun val => val &&& bmFRAMEIRQ ≠ 0) ∧ ResetSeen log

/-- Every SETUP token to address 0, the first one after an attachment among them, is sent after
the three waits. -/
structure InOrder (log : List Event) : Prop where
  setups : Always (fun e log =>
    SetupToZero e log → ∀ since ∈ sinceAttached log, Waited since ∧ SofSeen since) log

instance : DecidablePred InOrder := fun log =>
  haveI (since : List Event) : Decidable (Waited since) :=
    haveI (e : Event) (log : List Event) :
        Decidable (∃ b ∈ e.clock, ∃ a ∈ clocks log, (ms a).toNat + 200 < (ms b).toNat) :=
      haveI (b : DWORD) : Decidable (∃ a ∈ clocks log, (ms a).toNat + 200 < (ms b).toNat) :=
        List.decidableBEx _ _
      Option.decidableExistsMem e.clock
    Once.decidable since
  haveI (since : List Event) : Decidable (SofSeen since) :=
    haveI (log : List Event) : Decidable (ResetSeen log) :=
      haveI (log : List Event) : Decidable (ResetIssued log) := Once.decidable log
      Once.decidable log
    Once.decidable since
  haveI (e : Event) (log : List Event) :
      Decidable (SetupToZero e log → ∀ since ∈ sinceAttached log, Waited since ∧ SofSeen since) :=
    haveI : Decidable (∀ since ∈ sinceAttached log, Waited since ∧ SofSeen since) :=
      Option.decidableForallMem (sinceAttached log)
    inferInstance
  haveI : Decidable (Always (fun e log =>
      SetupToZero e log → ∀ since ∈ sinceAttached log, Waited since ∧ SofSeen since) log) :=
    Always.decidable log
  decidable_of_iff _ ⟨InOrder.mk, InOrder.setups⟩

/-! ## What each state knows -/

/-- What happened since ATTACHED was entered, in the state `s`. -/
structure Need (s : BYTE) (delay : DWORD) (since : List Event) : Prop where
  settle : s = usbAttachedSubstateSettle → ∃ a ∈ clocks since, delay.toNat = (ms a).toNat + 200
  waited : usbAttachedSubstateResetDevice ≤ s → Waited since
  issued : usbAttachedSubstateWaitResetComplete ≤ s → ResetIssued since
  seen : usbAttachedSubstateWaitSof ≤ s → ResetSeen since
  sof : usbAttachedSubstateGetDeviceDescriptorSize ≤ s → SofSeen since

theorem clocks_cons {a : DWORD} {log : List Event} (ha : a ∈ clocks log) (e : Event) :
    a ∈ clocks (e :: log) := by
  unfold clocks at ha ⊢
  cases hc : e.clock with
  | none => rwa [List.filterMap_cons_none hc]
  | some b =>
    rw [List.filterMap_cons_some hc]
    exact List.mem_cons_of_mem _ ha

theorem Need.cons {s : BYTE} {delay : DWORD} {since : List Event} (hn : Need s delay since)
    (e : Event) : Need s delay (e :: since) where
  settle hs := by
    obtain ⟨a, ha, hdelay⟩ := hn.settle hs
    exact ⟨a, clocks_cons ha e, hdelay⟩
  waited hs := .inr (hn.waited hs)
  issued hs := .inr (hn.issued hs)
  seen hs := .inr (hn.seen hs)
  sof hs := .inr (hn.sof hs)

/-- Up to ATTACHED nothing is known, and nothing needs to be. -/
theorem need_low {s : BYTE} (hs : s ≤ usbStateAttached) (delay : DWORD) (since : List Event) :
    Need s delay since := by
  have hcases : ∀ s : BYTE, s ≤ usbStateAttached → s ≠ usbAttachedSubstateSettle ∧
      ¬usbAttachedSubstateResetDevice ≤ s ∧ ¬usbAttachedSubstateWaitResetComplete ≤ s ∧
      ¬usbAttachedSubstateWaitSof ≤ s ∧ ¬usbAttachedSubstateGetDeviceDescriptorSize ≤ s := by
    decide
  obtain ⟨h1, h2, h3, h4, h5⟩ := hcases s hs
  exact ⟨fun h => absurd h h1, fun h => absurd h h2, fun h => absurd h h3, fun h => absurd h h4,
    fun h => absurd h h5⟩

/-- From the last of the attached states on, everything is known. -/
theorem Need.work {s s' : BYTE} {delay delay' : DWORD} {since : List Event}
    (hn : Need s delay since) (hs : usbAttachedSubstateGetDeviceDescriptorSize ≤ s)
    (hs' : usbAttachedSubstateGetDeviceDescriptorSize ≤ s') : Need s' delay' since := by
  have hcases : ∀ s : BYTE, usbAttachedSubstateGetDeviceDescriptorSize ≤ s →
      s ≠ usbAttachedSubstateSettle ∧ usbAttachedSubstateResetDevice ≤ s ∧
      usbAttachedSubstateWaitResetComplete ≤ s ∧ usbAttachedSubstateWaitSof ≤ s := by
    decide
  obtain ⟨-, h2, h3, h4⟩ := hcases s hs
  exact ⟨fun h => absurd h (hcases s' hs').1, fun _ => hn.waited h2, fun _ => hn.issued h3,
    fun _ => hn.seen h4, fun _ => hn.sof hs⟩

/-- The log is in order, and the task knows what its state says. -/
structure Orderly (h : Host) (log : List Event) : Prop where
  inOrder : InOrder log
  state : taskState log = h.usbTaskState
  need : ∀ since ∈ sinceAttached log, Need h.usbTaskState h.usbDelay since

theorem sinceAttached_cons {e : Event} (he : e.snapshot = none) (log : List Event) :
    sinceAttached (e :: log) = (sinceAttached log).map (e :: ·) := by
  cases e with
  | host h => cases he
  | _ => rfl

theorem taskState_cons {e : Event} (he : e.snapshot = none) (log : List Event) :
    taskState (e :: log) = taskState log := by
  rw [taskState, snapshots, List.filterMap_cons_none he]
  rfl

/-- An event that is no assignment. A SETUP token is sent when everything is known. -/
theorem Orderly.event {h : Host} {log : List Event} {e : Event} (ho : Orderly h log)
    (he : e.snapshot = none) (hsetup : SetupToZero e log →
      usbAttachedSubstateGetDeviceDescriptorSize ≤ h.usbTaskState) : Orderly h (e :: log) where
  inOrder := by
    refine ⟨⟨fun hs since hsince => ?_, ho.inOrder.setups⟩⟩
    have hn := ho.need since hsince
    exact ⟨hn.waited ((by decide : ∀ s : BYTE, usbAttachedSubstateGetDeviceDescriptorSize ≤ s →
      usbAttachedSubstateResetDevice ≤ s) _ (hsetup hs)), hn.sof (hsetup hs)⟩
  state := (taskState_cons he log).trans ho.state
  need since hsince := by
    rw [sinceAttached_cons he] at hsince
    obtain ⟨since, hbefore, rfl⟩ := Option.map_eq_some_iff.mp hsince
    exact (ho.need since hbefore).cons e

theorem Orderly.assign {h h' : Host} {log : List Event} (ho : Orderly h log)
    (hneed : ∀ since ∈ sinceAttached log, Need h.usbTaskState h.usbDelay since →
      Need h'.usbTaskState h'.usbDelay since) : Orderly h' (.host h' :: log) where
  inOrder := ⟨⟨False.elim, ho.inOrder.setups⟩⟩
  state := rfl
  need since hsince := by
    rw [sinceAttached] at hsince
    split_ifs at hsince with henters
    · exact need_low (by rw [henters.1]; decide) _ _
    · obtain ⟨since, hbefore, rfl⟩ := Option.map_eq_some_iff.mp hsince
      exact (hneed since hbefore (ho.need since hbefore)).cons _

/-! ## Programs that keep the order -/

section Keep

variable {χ : Type} {p q : Host → Prop} {F : List Event → Prop}

/-- The log is in order, `p` is true of the variables, and `F` of what happened since ATTACHED
was entered. -/
def Stage (p : Host → Prop) (F : List Event → Prop) (w : World χ) : Prop :=
  Orderly w.host w.log ∧ p w.host ∧ ∀ since ∈ sinceAttached w.log, F since

theorem Stage.mono {G : List Event → Prop} {w : World χ} (hw : Stage p F w)
    (hpq : ∀ h, p h → q h) (hF : ∀ since, F since → G since) : Stage q G w :=
  ⟨hw.1, hpq _ hw.2.1, fun since hsince => hF since (hw.2.2 since hsince)⟩

/-- The log of a run that is cut off is in order. -/
def Kept (w : World χ) : Prop := InOrder w.log

theorem Stage.event {G : List Event → Prop} {w w' : World χ} {e : Event} (hw : Stage p F w)
    (hhost : w'.host = w.host) (hlog : w'.log = e :: w.log) (he : e.snapshot = none)
    (hsetup : SetupToZero e w.log →
      usbAttachedSubstateGetDeviceDescriptorSize ≤ w.host.usbTaskState)
    (hF : ∀ since, F since → G (e :: since)) : Stage p G w' := by
  refine ⟨?_, ?_, ?_⟩
  · rw [hhost, hlog]
    exact hw.1.event he hsetup
  · rw [hhost]
    exact hw.2.1
  · rw [hlog, sinceAttached_cons he]
    intro since hsince
    obtain ⟨since, hbefore, rfl⟩ := Option.map_eq_some_iff.mp hsince
    exact hF since (hw.2.2 since hbefore)

/-- A program that leaves the variables and the log alone. -/
theorem triple_still {α : Type} {x : Prog χ α}
    (hx : ∀ w, ∃ a w', x w = .ok a w' ∧ w'.host = w.host ∧ w'.log = w.log) :
    Keeps (Stage p F) Kept x where
  ok w a w' hw hr := by
    obtain ⟨b, w₁, hr', hhost, hlog⟩ := hx w
    cases hr'.symm.trans hr
    rw [Stage, hhost, hlog]
    exact hw
  error w e w' _ hr := by
    obtain ⟨b, w₁, hr', -⟩ := hx w
    cases hr'.symm.trans hr

theorem triple_readHost :
    Triple (Stage p F) (getHost : Prog χ Host) (fun h => Stage (fun h' => h' = h ∧ p h) F) Kept
    where
  ok w a w' hw hr := by
    cases hr
    exact ⟨hw.1, ⟨rfl, hw.2.1⟩, hw.2.2⟩
  error w e w' _ hr := by cases hr

/-- An assignment after which less is needed, or nothing. -/
theorem triple_assign {f : Host → Host} {G : List Event → Prop} (hq : ∀ h, p h → q (f h))
    (hneed : ∀ h since, p h → F since → Need h.usbTaskState h.usbDelay since →
      Need (f h).usbTaskState (f h).usbDelay since)
    (hF : ∀ h since, F since → G (.host (f h) :: since))
    (henters : ∀ h, p h → (f h).usbTaskState = usbStateAttached →
      h.usbTaskState = usbStateAttached ∨ ∀ since, G since) :
    Triple (Stage p F) (setHost f : Prog χ Unit) (fun _ => Stage q G) Kept where
  ok w a w' hw hr := by
    cases hr
    refine ⟨hw.1.assign fun since hsince => hneed _ since hw.2.1 (hw.2.2 since hsince),
      hq _ hw.2.1, fun since hsince => ?_⟩
    rw [sinceAttached] at hsince
    split_ifs at hsince with hnew
    · obtain hold | hall := henters _ hw.2.1 hnew.1
      · exact absurd (hw.1.state.trans hold) hnew.2
      · exact hall since
    · obtain ⟨since, hbefore, rfl⟩ := Option.map_eq_some_iff.mp hsince
      exact hF _ since (hw.2.2 since hbefore)
  error w e w' _ hr := by cases hr

variable [Platform χ]

theorem triple_rdReg {reg : BYTE} {G : BYTE → List Event → Prop}
    (hF : ∀ val since, F since → G val (.rd reg val :: since)) :
    Triple (Stage p F) (maxRegRd reg : Prog χ BYTE) (fun val => Stage p (G val)) Kept where
  ok w a w' hw hr := by
    cases hr
    exact hw.event rfl rfl rfl False.elim (hF _)
  error w e w' _ hr := by cases hr

/-- A register other than `HXFR` is written. -/
theorem triple_wrReg {reg val : BYTE} (hreg : reg ≠ rHXFR) {G : List Event → Prop}
    (hF : ∀ since, F since → G (.wr reg val :: since)) :
    Triple (Stage p F) (maxRegWr reg val : Prog χ Unit) (fun _ => Stage p G) Kept where
  ok w a w' hw hr := by
    cases hr
    exact hw.event rfl rfl rfl (fun hs => absurd hs.1 hreg) hF
  error w e w' _ hr := by cases hr

theorem triple_clock {G : DWORD → List Event → Prop}
    (hF : ∀ t since, F since → G (ms t) (.nticks t :: since)) :
    Triple (Stage p F) (altMs : Prog χ DWORD) (fun now => Stage p (G now)) Kept := by
  refine triple_bind (Q := fun t => Stage p (G (ms t))) ⟨?_, ?_⟩ fun t =>
    triple_pure fun _ hw => hw
  · intro w a w' hw hr
    cases hr
    exact hw.event rfl rfl rfl False.elim (hF _)
  · intro w e w' _ hr
    cases hr

end Keep

end TetrisFpga.Usb
