import Mathlib.Tactic.ByContra
import TetrisFpga.Usb.Hid
import TetrisFpga.Usb.Invariant

/-!
# When the probes end

The loops of the probes go from one descriptor to the next by its `bLength`. A descriptor
that is skipped and has `bLength` 0 is left for itself, so the loops end exactly on the
configurations in which none is reached, and then within `total_length` rounds.
-/

namespace TetrisFpga.Usb
open Program

/-! ## The chain of descriptors -/

/-- The byte `k` of the descriptor at `pos`, in the contents `m` of `bigbuf`. -/
def field (m : ℤ → BYTE) (pos k : ℕ) : BYTE := m (descr pos k).off

theorem descr_next (pos k : ℕ) : (descr pos k).add 1 = descr pos (k + 1) := by
  rw [descr, descr, Int.natCast_add, ← Int.add_assoc]
  rfl

/-- A 16-bit field of the descriptor at `pos`. -/
def wordField (m : ℤ → BYTE) (pos k : ℕ) : WORD := field m pos (k + 1) ++ field m pos k

/-- Where the load finds the high byte of that field. -/
def highByte (pos k : ℕ) : ℕ := if (pos + k) % 4 = 3 then k else k + 1

/-- The field as the processor reads it. -/
def wordRead (m : ℤ → BYTE) (pos k : ℕ) : WORD := field m pos (highByte pos k) ++ field m pos k

theorem highByte_mem (pos k : ℕ) : highByte pos k ∈ [k, k + 1] := by
  rw [highByte]
  split <;> simp

theorem wordRead_of_aligned {m : ℤ → BYTE} {pos k : ℕ} (h : (pos + k) % 4 ≠ 3) :
    wordRead m pos k = wordField m pos k := by
  rw [wordRead, highByte, if_neg h, wordField]

/-- The low byte is right in every alignment. -/
theorem setWidth_wordRead (m : ℤ → BYTE) (pos k : ℕ) :
    ((wordRead m pos k).setWidth 8 : BYTE) = field m pos k :=
  BitVec.setWidth_append_eq_right

theorem setWidth_wordField (m : ℤ → BYTE) (pos k : ℕ) :
    ((wordField m pos k).setWidth 8 : BYTE) = field m pos k :=
  BitVec.setWidth_append_eq_right

theorem descr_high (pos k : ℕ) : (if (descr pos k).off % 4 = 3 then descr pos k
    else (descr pos k).add 1) = descr pos (highByte pos k) := by
  have hoff : (descr pos k).off % 4 = 3 ↔ (pos + k) % 4 = 3 := by
    change ((pos : ℤ) + k) % 4 = 3 ↔ (pos + k) % 4 = 3
    omega
  rw [highByte, descr_next]
  simp only [hoff]
  split <;> rfl

/-- The descriptor after the one at `pos`. -/
def nextDescr (m : ℤ → BYTE) (pos : ℕ) : ℕ := pos + (field m pos 0).toNat

section Chain

variable (m : ℤ → BYTE) (total : ℕ) (kind protocol : BYTE)

/-- The loop that looks for a descriptor of type `kind` skips the one at `pos`. -/
def Skipped (pos : ℕ) : Prop := pos < total ∧ field m pos 1 ≠ kind

/-- That loop gets from one position to the other. -/
inductive Skips : ℕ → ℕ → Prop
  | refl (pos : ℕ) : Skips pos pos
  | skip {pos pos' : ℕ} : Skipped m total kind pos → Skips (nextDescr m pos) pos' →
      Skips pos pos'

/-- From `pos` on, every descriptor that is skipped has a length. -/
def Advances (pos : ℕ) : Prop :=
  ∀ pos', Skips m total kind pos pos' → Skipped m total kind pos' → field m pos' 0 ≠ 0

/-- The interface descriptor at `pos` is the boot interface with the given protocol. -/
def IsBootInterface (pos : ℕ) : Prop :=
  field m pos 5 = hidIntf ∧ field m pos 6 = bootIntfSubclass ∧ field m pos 7 = protocol

/-- The outer loop gets from `pos` to the interface looked for at `pos'`. -/
def FindsInterface (pos pos' : ℕ) : Prop :=
  Skips m total usbDescriptorInterface pos pos' ∧ pos' < total ∧
    field m pos' 1 = usbDescriptorInterface ∧ IsBootInterface m protocol pos'

/-- No descriptor of length 0 is skipped: neither on the way to the interface nor, where it
is the one looked for, from there to its endpoint. -/
def Linked (pos : ℕ) : Prop :=
  Advances m total usbDescriptorInterface pos ∧ ∀ pos', FindsInterface m total protocol pos pos' →
    Advances m total usbDescriptorEndpoint (nextDescr m pos')

variable {m total kind protocol}

theorem Advances.next {pos : ℕ} (h : Advances m total kind pos)
    (hskip : Skipped m total kind pos) : Advances m total kind (nextDescr m pos) :=
  fun pos' hpos' => h pos' (.skip hskip hpos')

theorem Advances.lt {pos : ℕ} (h : Advances m total kind pos)
    (hskip : Skipped m total kind pos) : pos < nextDescr m pos := by
  have hne := h pos (.refl pos) hskip
  have hpos : 0 < (field m pos 0).toNat := by
    rcases Nat.eq_zero_or_pos (field m pos 0).toNat with h0 | h0
    · exact absurd (BitVec.eq_of_toNat_eq h0) hne
    · exact h0
  rw [nextDescr]
  omega

theorem Linked.next {pos : ℕ} (h : Linked m total protocol pos)
    (hskip : Skipped m total usbDescriptorInterface pos) :
    Linked m total protocol (nextDescr m pos) :=
  ⟨h.1.next hskip, fun pos' hpos' => h.2 pos' ⟨.skip hskip hpos'.1, hpos'.2⟩⟩

theorem not_advances {pos : ℕ} (h : ¬Advances m total kind pos) :
    Skipped m total kind pos ∧ ¬Advances m total kind (nextDescr m pos) := by
  simp only [Advances, not_forall, not_not] at h
  obtain ⟨pos', hskips, hskip, hzero⟩ := h
  cases hskips with
  | refl =>
    have hself : nextDescr m pos = pos := by rw [nextDescr, hzero]; rfl
    rw [hself]
    exact ⟨hskip, fun hadv => hadv pos (.refl pos) hskip hzero⟩
  | skip hfirst hrest => exact ⟨hfirst, fun hadv => hadv pos' hrest hskip hzero⟩

theorem not_linked {pos : ℕ} (h : ¬Linked m total protocol pos) :
    (Skipped m total usbDescriptorInterface pos ∧ ¬Linked m total protocol (nextDescr m pos)) ∨
      (pos < total ∧ field m pos 1 = usbDescriptorInterface ∧ IsBootInterface m protocol pos ∧
        ¬Advances m total usbDescriptorEndpoint (nextDescr m pos)) := by
  by_cases hadv : Advances m total usbDescriptorInterface pos
  · have hinner : ¬∀ pos', FindsInterface m total protocol pos pos' →
        Advances m total usbDescriptorEndpoint (nextDescr m pos') := fun hall => h ⟨hadv, hall⟩
    simp only [not_forall] at hinner
    obtain ⟨pos', ⟨hskips, hrest⟩, hstuck⟩ := hinner
    cases hskips with
    | refl => exact .inr ⟨hrest.1, hrest.2.1, hrest.2.2, hstuck⟩
    | skip hfirst hskips =>
      exact .inl ⟨hfirst, fun hlinked => hstuck (hlinked.2 pos' ⟨hskips, hrest⟩)⟩
  · obtain ⟨hskip, hnext⟩ := not_advances hadv
    exact .inl ⟨hskip, fun hlinked => hnext hlinked.1⟩

end Chain

/-! ## The parts of a probe -/

section Parts

variable {χ : Type} {m : ℤ → BYTE} {addr : BYTE} {w : World χ}

/-- The configuration is `m` and the device at `addr` has an endpoint record. -/
def Config (m : ℤ → BYTE) (addr : BYTE) (w : World χ) : Prop :=
  w.mem .bigbuf = m ∧ (w.host.devtable addr).epinfo ≠ none

theorem load_config (hw : Config m addr w) (pos k : ℕ) :
    ∃ w', load (descr pos k) w = .ok (field m pos k) w' ∧ Config m addr w' := by
  obtain ⟨rfl, hdev⟩ := hw
  exact ⟨_, rfl, rfl, hdev⟩

theorem load_succeeds (pos k : ℕ) :
    Succeeds (Config m addr) (load (descr pos k) : Prog χ BYTE) fun _ => Config m addr := by
  intro w hw
  obtain ⟨w', hr, hw'⟩ := load_config hw pos k
  exact ⟨_, w', hr, hw'⟩

theorem skipTo_skip {β : Type} {kind : BYTE} {pos : ℕ} (hw : Config m addr w)
    (h : field m pos 1 ≠ kind) (found : ℕ → Prog χ (ℕ ⊕ β)) :
    ∃ w', skipTo kind found pos w = .ok (.inl (nextDescr m pos)) w' ∧ Config m addr w' := by
  obtain ⟨w₁, h₁, hw₁⟩ := load_config hw pos 1
  obtain ⟨w₂, h₂, hw₂⟩ := load_config hw₁ pos 0
  refine ⟨w₂, ?_, hw₂⟩
  rw [skipTo, bind_of_ok h₁, if_pos h, bind_of_ok h₂]
  rfl

theorem skipTo_found {β : Type} {kind : BYTE} {pos : ℕ} (hw : Config m addr w)
    (h : field m pos 1 = kind) (found : ℕ → Prog χ (ℕ ⊕ β)) :
    ∃ w', skipTo kind found pos w = found pos w' ∧ Config m addr w' := by
  obtain ⟨w₁, h₁, hw₁⟩ := load_config hw pos 1
  refine ⟨w₁, ?_, hw₁⟩
  rw [skipTo, bind_of_ok h₁, if_neg (not_not.mpr h)]

theorem setHost_config {f : Host → Host}
    (hf : ∀ h, (h.devtable addr).epinfo ≠ none → ((f h).devtable addr).epinfo ≠ none) :
    Succeeds (Config m addr) (setHost f : Prog χ Unit) fun _ => Config m addr :=
  fun w hw => ⟨(), _, rfl, hw.1, hf w.host hw.2⟩

theorem epRecord_config :
    Succeeds (Config m addr) (epRecord addr 0 : Prog χ EpRecord) fun _ => Config m addr := by
  intro w hw
  obtain ⟨t, ht⟩ := Option.ne_none_iff_exists'.mp hw.2
  exact ⟨_, _, epRecord_run ht (by cases t <;> decide), hw⟩

theorem setEpRecord_config (f : EpRecord → EpRecord) :
    Succeeds (Config m addr) (setEpRecord addr 0 f : Prog χ Unit) fun _ => Config m addr := by
  intro w hw
  obtain ⟨t, ht⟩ := Option.ne_none_iff_exists'.mp hw.2
  exact ⟨(), _, setEpRecord_run ht (by cases t <;> decide), hw.1, hw.2⟩

/-- What leaves a loop was found. -/
theorem skipTo_inr {β : Type} {kind : BYTE} {pos : ℕ} {found : ℕ → Prog χ (ℕ ⊕ β)} {b : β}
    {w' : World χ} (h : skipTo kind found pos w = .ok (.inr b) w') :
    ∃ w₁, found pos w₁ = .ok (.inr b) w' := by
  have hload : load (descr pos 1) w = .ok _ _ := rfl
  rw [skipTo, bind_of_ok hload] at h
  split at h
  · cases h
  · exact ⟨_, h⟩

/-- Filling in the device record leaves the configuration alone and a record behind it. -/
theorem fillDevice_config (driver : BYTE) (pos : ℕ) :
    Succeeds (Config m addr) (fillDevice driver addr pos : Prog χ Unit)
      fun _ => Config m addr := by
  refine succeeds_bind (setHost_config fun h hdev => by simpa [Host.setDev] using hdev)
    fun _ => succeeds_bind epRecord_config fun r => ?_
  refine succeeds_bind (succeeds_bind (setHost_config fun h hdev => hdev)
    fun _ => setHost_config fun h hdev => hdev) fun _ => ?_
  refine succeeds_bind (setHost_config fun h hdev => by simp [Host.setDev])
    fun _ => succeeds_bind (setEpRecord_config _) fun _ => ?_
  refine succeeds_bind (load_succeeds pos 2) fun bInterfaceNumber => ?_
  exact succeeds_bind (setHost_config fun h hdev => hdev)
    fun _ => setHost_config fun h hdev => hdev

/-! The loops of the probes, which differ in the type they look for and in what they do with
a descriptor of that type. -/

section SkipLoop

variable {β : Type} {total n pos : ℕ} {kind : BYTE} {found : ℕ → Prog χ (ℕ ⊕ β)}
  {after : ℕ → Prog χ β}

/-- A loop that advances on every descriptor it skips needs no more rounds than there are
bytes left, if what is found does not send it back. -/
theorem skipLoop_ends {J : ℕ → Prop}
    (hJ : ∀ pos, J pos → Skipped m total kind pos →
      J (nextDescr m pos) ∧ pos < nextDescr m pos)
    (hfault : ∀ pos w w', Config m addr w → J pos → pos < total → field m pos 1 = kind →
      found pos w ≠ .error .walk w')
    (hfound : ∀ pos pos' w w', Config m addr w → found pos w = .ok (.inl pos') w' →
      total ≤ pos')
    (hafter : ∀ pos w w', after pos w ≠ .error .walk w') (hw : Config m addr w)
    (hpos : J pos) (hn : total - pos ≤ n) (w' : World χ) :
    whileLoop .walk (fun pos => pure (decide (pos < total))) (skipTo kind found) after n pos w ≠
      .error .walk w' := by
  refine whileLoop_ends (fun pos => total - pos)
    (I := fun pos w => total ≤ pos ∨ Config m addr w ∧ J pos) ?_ ?_ ?_
    (fun pos w _ => hafter pos w) (.inr ⟨hw, hpos⟩) hn w'
  · intro pos hlive
    have := of_decide_eq_true hlive
    omega
  · intro pos w hI hlive w' heq
    have hlt := of_decide_eq_true hlive
    obtain ⟨hw, hpos⟩ := hI.resolve_left (by omega)
    by_cases h : field m pos 1 = kind
    · obtain ⟨w₁, hr, hw₁⟩ := skipTo_found hw h found
      exact hfault pos w₁ w' hw₁ hpos hlt h (hr.symm.trans heq)
    · obtain ⟨w₁, hr, -⟩ := skipTo_skip hw h found
      cases hr.symm.trans heq
  · intro pos w pos' w' hI hlive heq
    have hlt := of_decide_eq_true hlive
    obtain ⟨hw, hpos⟩ := hI.resolve_left (by omega)
    by_cases h : field m pos 1 = kind
    · obtain ⟨w₁, hr, hw₁⟩ := skipTo_found hw h found
      have hend := hfound pos pos' w₁ w' hw₁ (hr.symm.trans heq)
      exact ⟨.inl hend, by omega⟩
    · obtain ⟨w₁, hr, hw₁⟩ := skipTo_skip hw h found
      cases hr.symm.trans heq
      obtain ⟨hnext, hadv⟩ := hJ pos hpos ⟨hlt, h⟩
      exact ⟨.inr ⟨hw₁, hnext⟩, by omega⟩

/-- A loop that only meets positions in `K` uses up any fuel. -/
theorem skipLoop_spins {K : ℕ → Prop}
    (hK : ∀ pos, K pos → Skipped m total kind pos ∧ K (nextDescr m pos) ∨
      pos < total ∧ field m pos 1 = kind ∧
        ∀ w, Config m addr w → ∃ w', found pos w = .error .walk w')
    (hw : Config m addr w) (hpos : K pos) :
    ∃ w', whileLoop .walk (fun pos => pure (decide (pos < total))) (skipTo kind found) after n
      pos w = .error .walk w' := by
  refine whileLoop_spins (I := fun pos w => Config m addr w ∧ K pos) ?_ n ⟨hw, hpos⟩
  intro pos w ⟨hw, hpos⟩
  obtain ⟨hskip, hnext⟩ | ⟨hlt, h, hstuck⟩ := hK pos hpos
  · obtain ⟨w₁, hr, hw₁⟩ := skipTo_skip hw hskip.2 found
    exact ⟨decide_eq_true hskip.1, .inl ⟨_, w₁, hr, hw₁, hnext⟩⟩
  · obtain ⟨w₁, hr, hw₁⟩ := skipTo_found hw h found
    obtain ⟨w₂, hr'⟩ := hstuck w₁ hw₁
    exact ⟨decide_eq_true hlt, .inr ⟨w₂, hr.trans hr'⟩⟩

end SkipLoop

end Parts

/-! ## The probes -/

section Probes

variable {χ : Type} [Platform χ] {m : ℤ → BYTE} {addr : BYTE} {w : World χ}
variable {total : WORD} {fuel : Fuel} {driver protocol confvalue : BYTE} {n pos : ℕ}

/-- Only the loops of the probes can run out of rounds here. -/
theorem transfers_avoid_walk :
    Transfers fun α (x : Prog χ α) => Avoids .walk x where
  toClosed := closed_avoids Fault.walk
  hirq _ _ := nofun
  hrsl _ _ := nofun
  wr _ _ _ _ := nofun
  nticks _ _ := nofun
  wait := avoids_throw (by decide)
  dispatch := avoids_throw (by decide)
  rd _ _ _ := nofun
  load _ _ _ := nofun
  store _ _ _ _ := nofun
  getHost _ _ := nofun
  setEp _ _ _ _ _ := nofun
  transfer := avoids_throw (by decide)
  deref := avoids_throw (by decide)
  access _ _ _ _ := nofun

/-- The inner loop ends in time, if it advances. -/
theorem endpointLoop_ends (hw : Config m addr w)
    (hadv : Advances m total.toNat usbDescriptorEndpoint pos) (hn : total.toNat - pos ≤ n)
    (w' : World χ) : endpointLoop fuel addr confvalue total n pos w ≠ .error .walk w' := by
  refine skipLoop_ends (fun pos hadv hskip => ⟨hadv.next hskip, hadv.lt hskip⟩) ?_ ?_
    (fun _ _ _ heq => by cases heq) hw hadv hn w'
  · intro pos w w' _ _ _ _
    exact transfers_avoid_walk.bind (transfers_avoid_walk.fillEndpoint fuel addr confvalue pos)
      (fun _ _ _ heq => by cases heq) w w'
  · intro pos pos' w w' _ heq
    cases hfill : fillEndpoint fuel addr confvalue pos w with
    | ok found w₁ => cases (bind_of_ok hfill _).symm.trans heq
    | error e w₁ => cases (bind_of_error hfill _).symm.trans heq

theorem endpointLoop_spins (hw : Config m addr w)
    (h : ¬Advances m total.toNat usbDescriptorEndpoint pos) :
    ∃ w', endpointLoop fuel addr confvalue total n pos w = .error .walk w' :=
  skipLoop_spins (K := fun pos => ¬Advances m total.toNat usbDescriptorEndpoint pos)
    (fun _ h => .inl (not_advances h)) hw h

/-- Where the inner loop falls through, the configuration is at its end. -/
theorem endpointLoop_inl {pos' : ℕ} {w' : World χ}
    (h : endpointLoop fuel addr confvalue total n pos w = .ok (.inl pos') w') :
    total.toNat ≤ pos' := by
  obtain ⟨pos, t, hdead, hr⟩ | ⟨pos, t, hr⟩ := whileLoop_eq_ok h
  · cases hr
    simpa using hdead
  · obtain ⟨w₁, hr⟩ := skipTo_inr hr
    cases hfill : fillEndpoint fuel addr confvalue pos w₁ with
    | ok found w₂ => cases (bind_of_ok hfill _).symm.trans hr
    | error e w₂ => cases (bind_of_error hfill _).symm.trans hr

/-- A boot interface is followed by the search for its endpoint. -/
theorem parseInterface_boot (hw : Config m addr w) (h : IsBootInterface m protocol pos) :
    ∃ w', parseInterface fuel driver protocol addr confvalue total pos w =
      endpointLoop fuel addr confvalue total fuel.walk (nextDescr m pos) w' ∧
      Config m addr w' := by
  obtain ⟨w₁, h₁, hw₁⟩ := load_config hw pos 5
  obtain ⟨w₂, h₂, hw₂⟩ := load_config hw₁ pos 6
  obtain ⟨w₃, h₃, hw₃⟩ := load_config hw₂ pos 7
  obtain ⟨_, w₄, h₄, hw₄⟩ := fillDevice_config driver pos w₃ hw₃
  obtain ⟨w₅, h₅, hw₅⟩ := load_config hw₄ pos 0
  refine ⟨w₅, ?_, hw₅⟩
  unfold IsBootInterface at h
  rw [parseInterface, bind_of_ok h₁, bind_of_ok h₂, bind_of_ok h₃, if_pos h, bind_of_ok h₄,
    bind_of_ok h₅]
  rfl

/-- Any other interface ends the probe. -/
theorem parseInterface_other (hw : Config m addr w) (h : ¬IsBootInterface m protocol pos) :
    ∃ w', parseInterface fuel driver protocol addr confvalue total pos w =
      .ok (.inr false) w' := by
  obtain ⟨w₁, h₁, hw₁⟩ := load_config hw pos 5
  obtain ⟨w₂, h₂, hw₂⟩ := load_config hw₁ pos 6
  obtain ⟨w₃, h₃, hw₃⟩ := load_config hw₂ pos 7
  refine ⟨w₃, ?_⟩
  unfold IsBootInterface at h
  rw [parseInterface, bind_of_ok h₁, bind_of_ok h₂, bind_of_ok h₃, if_neg h]
  rfl

theorem interfaceLoop_ends (hw : Config m addr w) (h : Linked m total.toNat protocol pos)
    (hn : total.toNat ≤ fuel.walk) (w' : World χ) :
    interfaceLoop fuel driver protocol addr confvalue total pos w ≠ .error .walk w' := by
  refine skipLoop_ends (fun pos h hskip => ⟨h.next hskip, h.1.lt hskip⟩) ?_ ?_
    (fun _ _ _ heq => by cases heq) hw h (by omega) w'
  · intro pos w w' hw h hlt hkind heq
    by_cases hboot : IsBootInterface m protocol pos
    · obtain ⟨w₁, hr, hw₁⟩ := parseInterface_boot hw hboot
      have hadv := h.2 pos ⟨.refl pos, hlt, hkind, hboot⟩
      exact endpointLoop_ends hw₁ hadv (by omega) w' (hr.symm.trans heq)
    · obtain ⟨w₁, hr⟩ := parseInterface_other hw hboot
      cases hr.symm.trans heq
  · intro pos pos' w w' hw heq
    by_cases hboot : IsBootInterface m protocol pos
    · obtain ⟨w₁, hr, -⟩ := parseInterface_boot hw hboot
      exact endpointLoop_inl (hr.symm.trans heq)
    · obtain ⟨w₁, hr⟩ := parseInterface_other hw hboot
      cases hr.symm.trans heq

theorem interfaceLoop_spins (hw : Config m addr w) (h : ¬Linked m total.toNat protocol pos) :
    ∃ w', interfaceLoop fuel driver protocol addr confvalue total pos w = .error .walk w' := by
  refine skipLoop_spins (K := fun pos => ¬Linked m total.toNat protocol pos) ?_ hw h
  intro pos h
  obtain hskip | ⟨hlt, hkind, hboot, hstuck⟩ := not_linked h
  · exact .inl hskip
  · refine .inr ⟨hlt, hkind, fun w hw => ?_⟩
    obtain ⟨w₁, hr, hw₁⟩ := parseInterface_boot hw hboot
    obtain ⟨w₂, hr'⟩ := endpointLoop_spins hw₁ hstuck
    exact ⟨w₂, hr.trans hr'⟩

/-- A request with a data stage does not succeed at an address without a record. -/
theorem xferGetConfDescr_null (nbytes : WORD) (conf : BYTE) (data : Ptr) :
    Triple (Holds (fun _ => True) fun h => (h.devtable addr).epinfo = none)
      (xferGetConfDescr fuel addr 0 nbytes conf data : Prog χ BYTE) (fun rcode _ => rcode ≠ 0)
      (Seen fun _ => True) := by
  have hC : Transfers (χ := χ) fun _ =>
      Keeps (Holds (fun _ => True) fun h => (h.devtable addr).epinfo = none) (Seen fun _ => True) :=
    transfers_hold (fun _ _ _ _ h => h) fun _ _ => trivial
  refine triple_bind (hC.wr _ _) fun _ => triple_bind (hC.maxBytesWr _ _) fun _ => ?_
  refine triple_bind (hC.xferDispatchPkt _ _ _) fun rcode =>
    triple_ite (fun h => triple_pure fun _ _ => h) fun _ => ?_
  refine triple_ite (fun _ => triple_bind (Q := fun _ _ => False) ⟨?_, ?_⟩ fun _ => ?_)
    fun h => absurd rfl h
  · intro w _ w' hw hr
    cases (bind_of_error (epinfo_null hw.1) _).symm.trans hr
  · intro w e w' hw hr
    cases (bind_of_error (epinfo_null hw.1) _).symm.trans hr
    exact fun _ _ => trivial
  · exact ⟨fun _ _ _ h => h.elim, fun _ _ _ h => h.elim⟩

/-- A probe that has read its configuration has a record at its address. -/
theorem readConfiguration_epinfo {r : WORD × BYTE} {w' : World χ}
    (hr : readConfiguration fuel addr w = .ok (some r) w') :
    (w'.host.devtable addr).epinfo ≠ none := by
  have hseen : Seen (fun _ => True) w := fun _ _ => trivial
  by_cases hnull : (w.host.devtable addr).epinfo = none
  · have htriple : Triple (Holds (fun _ => True) fun h => (h.devtable addr).epinfo = none)
        (readConfiguration fuel addr : Prog χ _) (fun r _ => r = none)
        (Seen fun _ => True) := by
      refine triple_bind (xferGetConfDescr_null _ _ _) fun rcode =>
        triple_ite (fun _ => triple_pure fun _ _ => rfl) fun h => ?_
      exact ⟨fun _ _ _ hne _ => absurd hne h, fun _ _ _ hne _ => absurd hne h⟩
    cases htriple.ok w _ w' ⟨hnull, hseen⟩ hr
  · have hC : Transfers (χ := χ) fun _ =>
        Keeps (Holds (fun _ => True) fun h => (h.devtable addr).epinfo ≠ none)
          (Seen fun _ => True) :=
      transfers_hold (fun _ _ _ _ h => h) fun _ _ => trivial
    exact ((hC.readConfiguration fuel addr).ok w _ w' ⟨hnull, hseen⟩ hr).1

/-- The loops of the probe end, each within `n` rounds. -/
def WalkEnds (probe : Fuel → BYTE → Prog χ Bool) (fuel : Fuel) (addr : BYTE) (n : ℕ)
    (w : World χ) : Prop :=
  ∀ w', probe { fuel with walk := n } addr w ≠ .error .walk w'

variable (driver protocol) in
/-- A probe that has read its configuration goes on to its loops. -/
theorem hidProbe_config {total : WORD} {confvalue : BYTE}
    (hr : value? (readConfiguration fuel addr w) = some (some (total, confvalue))) (n : ℕ) :
    ∃ w', Config ((final (readConfiguration fuel addr w)).mem .bigbuf) addr w' ∧
      hidProbe driver protocol { fuel with walk := n } addr w =
        interfaceLoop { fuel with walk := n } driver protocol addr confvalue total 0 w' := by
  have hok := eq_ok_of_value? hr
  refine ⟨final (readConfiguration fuel addr w), ⟨rfl, readConfiguration_epinfo hok⟩, ?_⟩
  exact bind_of_ok hok _

/-- On a configuration the probe has read, its loops end within `total_length` rounds if no
descriptor of length 0 is skipped, and never otherwise. -/
theorem hidProbe_walkEnds_iff {total : WORD} {confvalue : BYTE}
    (hr : value? (readConfiguration fuel addr w) = some (some (total, confvalue))) :
    (WalkEnds (hidProbe driver protocol) fuel addr total.toNat w ↔
      Linked ((final (readConfiguration fuel addr w)).mem .bigbuf) total.toNat protocol 0) ∧
    ((∃ n, WalkEnds (hidProbe driver protocol) fuel addr n w) ↔
      Linked ((final (readConfiguration fuel addr w)).mem .bigbuf) total.toNat protocol 0) := by
  have hends (h : Linked ((final (readConfiguration fuel addr w)).mem .bigbuf) total.toNat
      protocol 0) : WalkEnds (hidProbe driver protocol) fuel addr total.toNat w := by
    intro w' heq
    obtain ⟨w₁, hw₁, hrun⟩ := hidProbe_config driver protocol hr total.toNat
    exact interfaceLoop_ends hw₁ h (Nat.le_refl _) w' (hrun.symm.trans heq)
  have hspins (n : ℕ) (h : WalkEnds (hidProbe driver protocol) fuel addr n w) :
      Linked ((final (readConfiguration fuel addr w)).mem .bigbuf) total.toNat protocol 0 := by
    by_contra hnot
    obtain ⟨w₁, hw₁, hrun⟩ := hidProbe_config driver protocol hr n
    obtain ⟨w', heq⟩ := interfaceLoop_spins hw₁ hnot
    exact h w' (hrun.trans heq)
  exact ⟨⟨hspins _, hends⟩, fun ⟨n, h⟩ => hspins n h, fun h => ⟨_, hends h⟩⟩

/-- The loops of `HIDMProbe` and of `HIDKProbe` end within `total_length` rounds, or at all, if
and only if the configuration makes them skip no descriptor of length 0. -/
theorem probes_walkEnd_iff_linked {total : WORD} {confvalue : BYTE}
    (hr : value? (readConfiguration fuel addr w) = some (some (total, confvalue))) :
    let m := (final (readConfiguration fuel addr w)).mem .bigbuf
    ((WalkEnds hidmProbe fuel addr total.toNat w ↔
        Linked m total.toNat hidProtocolMouse 0) ∧
      ((∃ n, WalkEnds hidmProbe fuel addr n w) ↔ Linked m total.toNat hidProtocolMouse 0)) ∧
    ((WalkEnds hidkProbe fuel addr total.toNat w ↔
        Linked m total.toNat hidProtocolKeyboard 0) ∧
      ((∃ n, WalkEnds hidkProbe fuel addr n w) ↔ Linked m total.toNat hidProtocolKeyboard 0)) :=
  ⟨hidProbe_walkEnds_iff hr, hidProbe_walkEnds_iff hr⟩

end Probes

/-! ## Configurations of a scripted device -/

/-- A device at address 1 that answers as told, in the state in which it is probed. -/
def probed (answers : List BYTE) : World Script where
  chip := { answers := answers }
  host := {
    usbTaskState := usbStateConfiguring
    tmpAddr := 1
    devtable := fun a => if a ≤ 1 then { epinfo := some .dev0ep } else {}
    eps := fun _ _ => { maxPktSize := 64 } }
  mem := fun _ _ => 0

/-- The replies of a keyboard to the requests of its probe. -/
def keyboardReplies (configuration : List BYTE) : World Script :=
  probed (reply (configuration.take 9) ++ reply configuration ++
    [0x80, 0x00, 0x80, 0x00, 0x80, 0x00, 0x80, 0x00])

/-- A configuration descriptor whose `bLength` is 0. -/
def zeroLengthConfiguration : List BYTE := [0, 2, 9, 0, 1, 1, 0, 0x80, 50]

theorem probes_walkEnd_iff_linked_keyboard :
    let w := probed (reply (keyboardConfiguration.take 9) ++ reply keyboardConfiguration)
    let m := (final (readConfiguration ⟨9, 9, 9, 0, 9⟩ 1 w)).mem .bigbuf
    ((WalkEnds hidmProbe ⟨9, 9, 9, 0, 9⟩ 1 25 w ↔ Linked m 25 hidProtocolMouse 0) ∧
      ((∃ n, WalkEnds hidmProbe ⟨9, 9, 9, 0, 9⟩ 1 n w) ↔ Linked m 25 hidProtocolMouse 0)) ∧
    ((WalkEnds hidkProbe ⟨9, 9, 9, 0, 9⟩ 1 25 w ↔ Linked m 25 hidProtocolKeyboard 0) ∧
      ((∃ n, WalkEnds hidkProbe ⟨9, 9, 9, 0, 9⟩ 1 n w) ↔ Linked m 25 hidProtocolKeyboard 0)) :=
  @probes_walkEnd_iff_linked Script _ 1 _ ⟨9, 9, 9, 0, 9⟩ 25 1 (by decide +kernel)

/-- Both probes are caught on the configuration descriptor. -/
theorem zero_length_probes_spin :
    let w := probed (reply zeroLengthConfiguration ++ reply zeroLengthConfiguration)
    (∀ n, ¬WalkEnds hidmProbe ⟨9, 9, 9, 0, 9⟩ 1 n w) ∧
      ∀ n, ¬WalkEnds hidkProbe ⟨9, 9, 9, 0, 9⟩ 1 n w := by
  intro w
  have hr : value? (readConfiguration ⟨9, 9, 9, 0, 9⟩ 1 w) = some (some (9, 1)) := by
    decide +kernel
  have hstuck (protocol : BYTE) : ¬Linked
      ((final (readConfiguration ⟨9, 9, 9, 0, 9⟩ 1 w)).mem .bigbuf) (9 : WORD).toNat protocol 0 :=
    fun h => h.1 0 (.refl 0) ⟨by decide, by decide +kernel⟩ (by decide +kernel)
  exact ⟨fun n h => hstuck _ ((hidProbe_walkEnds_iff hr).2.mp ⟨n, h⟩),
    fun n h => hstuck _ ((hidProbe_walkEnds_iff hr).2.mp ⟨n, h⟩)⟩

end TetrisFpga.Usb
