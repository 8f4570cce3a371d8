import TetrisFpga.Usb.ProbeOutcome

/-!
# Whose endpoint a probe records

The inner loop of the probes skips everything that is not an endpoint descriptor, also the next
interface, and takes the first endpoint there is. It is the interrupt IN endpoint of the interface
that was looked for if that is the first thing behind the interface.
-/

namespace TetrisFpga.Usb
open Program

section Chain

variable (m : ℤ → BYTE) (total : ℕ)

/-- The endpoint descriptor at `pos'` lies between the interface descriptor at `pos` and the
next one. -/
def Owns (pos pos' : ℕ) : Prop :=
  Skips m total usbDescriptorInterface (nextDescr m pos) pos' ∧ pos' < total ∧
    field m pos' 1 = usbDescriptorEndpoint

/-- The first descriptor from `pos` on that is one of an interface or of an endpoint. -/
inductive FirstPart : ℕ → ℕ → Prop
  | here {pos : ℕ} : pos < total →
      (field m pos 1 = usbDescriptorInterface ∨ field m pos 1 = usbDescriptorEndpoint) →
      FirstPart pos pos
  | skip {pos pos' : ℕ} : pos < total → field m pos 1 ≠ usbDescriptorInterface →
      field m pos 1 ≠ usbDescriptorEndpoint → FirstPart (nextDescr m pos) pos' →
      FirstPart pos pos'

variable {m total} {pos pos' : ℕ}

/-- An interface with an endpoint has a first one. -/
theorem Owns.first (h : Owns m total pos pos') :
    ∃ e, FindsEndpoint m total (nextDescr m pos) e ∧ Owns m total pos e := by
  obtain ⟨hskips, hlt, hkind⟩ := h
  generalize hstart : nextDescr m pos = start at hskips
  suffices hfirst : ∃ e, FindsEndpoint m total start e ∧
      Skips m total usbDescriptorInterface start e by
    obtain ⟨e, hfinds, hskips⟩ := hfirst
    exact ⟨e, hfinds, hstart.symm ▸ hskips, hfinds.2⟩
  clear hstart
  induction hskips with
  | refl start => exact ⟨start, ⟨.refl start, hlt, hkind⟩, .refl start⟩
  | @skip start _ hskip _ ih =>
    by_cases hhere : field m start 1 = usbDescriptorEndpoint
    · exact ⟨start, ⟨.refl start, hskip.1, hhere⟩, .refl start⟩
    · obtain ⟨e, hfinds, hskips⟩ := ih hlt hkind
      exact ⟨e, ⟨.skip ⟨hskip.1, hhere⟩ hfinds.1, hfinds.2⟩, .skip hskip hskips⟩

/-- The first endpoint is the interface's own if no interface comes before it. -/
theorem firstPart_iff {start e : ℕ} : FirstPart m total start e ∧
      field m e 1 = usbDescriptorEndpoint ↔
    FindsEndpoint m total start e ∧ Skips m total usbDescriptorInterface start e := by
  constructor
  · rintro ⟨hfirst, hkind⟩
    induction hfirst with
    | @here start hlt _ => exact ⟨⟨.refl start, hlt, hkind⟩, .refl start⟩
    | skip hlt hnot hnot' _ ih =>
      obtain ⟨hfinds, hskips⟩ := ih hkind
      exact ⟨⟨.skip ⟨hlt, hnot'⟩ hfinds.1, hfinds.2⟩, .skip ⟨hlt, hnot⟩ hskips⟩
  · rintro ⟨⟨hfinds, hlt, hkind⟩, hskips⟩
    refine ⟨?_, hkind⟩
    induction hfinds with
    | refl => exact .here hlt (.inr hkind)
    | skip hskip _ ih =>
      cases hskips with
      | refl => exact absurd hkind hskip.2
      | skip hskip' hskips => exact .skip hskip.1 hskip'.2 hskip.2 (ih hskips hlt hkind)

end Chain

/-! ## The recorded endpoint -/

/-- An interrupt IN endpoint, from the address and the attributes in its descriptor. -/
def InterruptIn (epAddr attr : BYTE) : Prop := epAddr &&& 0x80 ≠ 0 ∧ attr &&& 0x03 = 0x03

instance (epAddr attr : BYTE) : Decidable (InterruptIn epAddr attr) :=
  inferInstanceAs (Decidable (_ ∧ _))

section Probes

variable {χ : Type} [Platform χ] {driver protocol : BYTE} {fuel : Fuel} {addr : BYTE} {w : World χ}

/-- The descriptor that a probe copies into `epinfo[1]` is one of the interface it matched, and one
of an interrupt IN endpoint. -/
def RecordsOwn (protocol : BYTE) (probe : Fuel → BYTE → Prog χ Bool) (fuel : Fuel) (addr : BYTE)
    (w : World χ) : Prop :=
  ∃ total pos pos' r, Matched protocol fuel addr w total pos ∧
    Owns (configuration fuel addr w) total.toNat pos pos' ∧
    value? (epRecord addr 1 (final (probe fuel addr w))) = some r ∧
    Describes (configuration fuel addr w) pos' r ∧ InterruptIn r.epAddr r.attr

/-- The first endpoint or interface descriptor behind the matched interface is one of an interrupt
IN endpoint. -/
def InterruptInFirst (protocol : BYTE) (fuel : Fuel) (addr : BYTE) (w : World χ) : Prop :=
  ∃ total pos pos', Matched protocol fuel addr w total pos ∧
    FirstPart (configuration fuel addr w) total.toNat (nextDescr (configuration fuel addr w) pos)
      pos' ∧
    field (configuration fuel addr w) pos' 1 = usbDescriptorEndpoint ∧
    InterruptIn (field (configuration fuel addr w) pos' 2)
      (field (configuration fuel addr w) pos' 3)

/-- After TRUE `epinfo[1]` of the device is the record of the HID drivers. -/
theorem hidProbe_epRecord {w' : World χ} (hr : hidProbe driver protocol fuel addr w = .ok true w') :
    epRecord addr 1 w' = .ok (w'.host.eps .hidEp 1) (w'.accessed addr 1) := by
  obtain ⟨total, pos, pos', -, ⟨hT, -⟩, -⟩ := hidProbe_true hr
  exact epRecord_run (by rw [hT]; simp [entered]) (by decide)

theorem hidProbe_recordsOwn_iff (hr : value? (hidProbe driver protocol fuel addr w) = some true) :
    RecordsOwn protocol (hidProbe driver protocol) fuel addr w ↔
      InterruptInFirst protocol fuel addr w := by
  have hok := eq_ok_of_value? hr
  obtain ⟨total, pos, e, hmatched, -, hfinds, hdescr⟩ := hidProbe_true hok
  have hrecord : value? (epRecord addr 1 (final (hidProbe driver protocol fuel addr w))) =
      some ((final (hidProbe driver protocol fuel addr w)).host.eps .hidEp 1) := by
    rw [hidProbe_epRecord hok]
    rfl
  constructor
  · rintro ⟨total', pos₁, pos', r, hmatched', howns, hr', -, hin⟩
    obtain ⟨rfl, rfl⟩ := hmatched.unique hmatched'
    have hsame := Option.some.inj (hr'.symm.trans hrecord)
    -- the interface has an endpoint, so the first one is its own
    obtain ⟨e', hfinds', howns'⟩ := howns.first
    obtain rfl : e' = e := hfinds'.eq hfinds
    obtain ⟨hfirst, hkind⟩ := firstPart_iff.mpr ⟨hfinds, howns'.1⟩
    rw [hsame, hdescr.epAddr, hdescr.attr] at hin
    exact ⟨total', pos₁, e', hmatched, hfirst, hkind, hin⟩
  · rintro ⟨total', pos₁, pos', hmatched', hfirst, hkind, hin⟩
    obtain ⟨rfl, rfl⟩ := hmatched.unique hmatched'
    obtain ⟨hfinds', hskips⟩ := firstPart_iff.mp ⟨hfirst, hkind⟩
    obtain rfl : pos' = e := hfinds'.eq hfinds
    refine ⟨total', pos₁, pos', _, hmatched, ⟨hskips, hfinds.2⟩, hrecord,
      hdescr.toDescribes, ?_⟩
    rw [hdescr.epAddr, hdescr.attr]
    exact hin

/-- A probe that returns TRUE has recorded the interrupt IN endpoint of the interface it matched if
and only if that is what comes first behind the interface. -/
theorem probes_recordOwn_iff (fuel : Fuel) (addr : BYTE) (w : World χ) :
    (value? (hidkProbe fuel addr w) = some true →
      (RecordsOwn hidProtocolKeyboard hidkProbe fuel addr w ↔
        InterruptInFirst hidProtocolKeyboard fuel addr w)) ∧
    (value? (hidmProbe fuel addr w) = some true →
      (RecordsOwn hidProtocolMouse hidmProbe fuel addr w ↔
        InterruptInFirst hidProtocolMouse fuel addr w)) :=
  ⟨hidProbe_recordsOwn_iff, hidProbe_recordsOwn_iff⟩

end Probes

/-! ## Keyboards with more than one endpoint descriptor -/

/-- A keyboard with an interrupt OUT endpoint for its lamps before the interrupt IN endpoint. -/
def lampKeyboard : List BYTE :=
  [9, 2, 41, 0, 1, 1, 0, 0xa0, 50,
    9, 4, 0, 0, 2, 3, 1, 1, 0, 9, 0x21, 0x11, 1, 0, 1, 0x22, 63, 0,
    7, 5, 0x01, 3, 8, 0, 10, 7, 5, 0x81, 3, 8, 0, 10]

/-- A keyboard whose endpoint belongs to its second interface. -/
def secondInterface : List BYTE :=
  [9, 2, 43, 0, 2, 1, 0, 0xa0, 50,
    9, 4, 0, 0, 0, 3, 1, 1, 0, 9, 0x21, 0x11, 1, 0, 1, 0x22, 63, 0,
    9, 4, 1, 0, 1, 3, 0, 0, 0, 7, 5, 0x82, 3, 16, 0, 4]

instance (m : ℤ → BYTE) (protocol : BYTE) (pos : ℕ) : Decidable (IsBootInterface m protocol pos) :=
  inferInstanceAs (Decidable (_ ∧ _ ∧ _))

/-- The interface descriptor of these keyboards comes second. -/
theorem matched_second {protocol : BYTE} {fuel : Fuel} {addr : BYTE} {w : World Script}
    {total : WORD} (confvalue : BYTE)
    (hread : value? (readConfiguration fuel addr w) = some (some (total, confvalue)))
    (hlt : 9 < total.toNat)
    (hfields : field (configuration fuel addr w) 0 0 = 9 ∧
      field (configuration fuel addr w) 0 1 ≠ usbDescriptorInterface ∧
      field (configuration fuel addr w) 9 1 = usbDescriptorInterface ∧
      IsBootInterface (configuration fuel addr w) protocol 9) :
    Matched protocol fuel addr w total 9 := by
  generalize hm : configuration fuel addr w = m at hfields
  obtain ⟨hlength, hskip, hkind, hboot⟩ := hfields
  have hnext : nextDescr m 0 = 9 := by rw [nextDescr, hlength]; rfl
  refine ⟨⟨confvalue, hread⟩, ?_⟩
  rw [hm]
  exact ⟨.skip ⟨by omega, hskip⟩ (hnext.symm ▸ .refl 9), hlt, hkind, hboot⟩

/-- The endpoint of the keyboard comes right behind its interface. -/
theorem firstPart_behind {m : ℤ → BYTE} {total : ℕ} (hlength : field m 9 0 = 9) (hlt : 18 < total)
    (hkind : field m 18 1 = usbDescriptorEndpoint) : FirstPart m total (nextDescr m 9) 18 := by
  have hnext : nextDescr m 9 = 18 := by rw [nextDescr, hlength]; rfl
  rw [hnext]
  exact .here hlt (.inr hkind)

theorem probes_recordOwn_keyboard :
    RecordsOwn hidProtocolKeyboard hidkProbe ⟨9, 9, 9, 9, 9⟩ 1
      (keyboardReplies keyboardConfiguration) := by
  have hiff := (probes_recordOwn_iff ⟨9, 9, 9, 9, 9⟩ 1 (keyboardReplies keyboardConfiguration)).1
    (by decide +kernel)
  have hmatched : Matched hidProtocolKeyboard ⟨9, 9, 9, 9, 9⟩ 1
      (keyboardReplies keyboardConfiguration) 25 9 :=
    matched_second 1 (by decide +kernel) (by decide) (by decide +kernel)
  refine hiff.mpr ⟨25, 9, 18, hmatched, firstPart_behind ?_ (by decide) ?_, ?_, ?_⟩
  · decide +kernel
  · decide +kernel
  · decide +kernel
  · decide +kernel

/-- Behind the first interface there is one descriptor of another type, and then an interface. -/
theorem not_owns_nine {m : ℤ → BYTE} {total pos : ℕ} (hlength : field m 9 0 = 9)
    (hnext : field m 18 0 = 9 ∧ field m 18 1 ≠ usbDescriptorEndpoint)
    (hkind : field m 27 1 = usbDescriptorInterface) : ¬Owns m total 9 pos := by
  rintro ⟨hskips, -, hpos⟩
  have h₁ : nextDescr m 9 = 18 := by rw [nextDescr, hlength]; rfl
  have h₂ : nextDescr m 18 = 27 := by rw [nextDescr, hnext.1]; rfl
  rw [h₁] at hskips
  cases hskips with
  | refl => exact hnext.2 hpos
  | skip _ hskips =>
    rw [h₂] at hskips
    cases hskips with
    | refl => exact absurd (hkind.symm.trans hpos) (by decide)
    | skip hskip _ => exact hskip.2 hkind

/-- The probe of the keyboards with a lamp and with a second interface ends with TRUE, and records
the OUT endpoint of the one and the endpoint of the second interface of the other. -/
theorem foreign_endpoint_recorded :
    (value? (hidkProbe ⟨9, 9, 9, 9, 9⟩ 1 (keyboardReplies lampKeyboard)) = some true ∧
      ¬RecordsOwn hidProtocolKeyboard hidkProbe ⟨9, 9, 9, 9, 9⟩ 1 (keyboardReplies lampKeyboard)) ∧
    (value? (hidkProbe ⟨9, 9, 9, 9, 9⟩ 1 (keyboardReplies secondInterface)) = some true ∧
      ¬RecordsOwn hidProtocolKeyboard hidkProbe ⟨9, 9, 9, 9, 9⟩ 1
        (keyboardReplies secondInterface)) := by
  refine ⟨⟨by decide +kernel, ?_⟩, by decide +kernel, ?_⟩
  · rintro ⟨_, _, _, r, -, -, hr, -, hin⟩
    have hrecord : value? (epRecord 1 1 (final
        (hidkProbe ⟨9, 9, 9, 9, 9⟩ 1 (keyboardReplies lampKeyboard)))) =
        some ⟨0x01, 3, 0x0808, 10, bmSNDTOG0, bmRCVTOG0⟩ := by decide +kernel
    rw [← Option.some.inj (hrecord.symm.trans hr)] at hin
    exact absurd hin (by decide)
  · rintro ⟨total, pos, pos', r, hmatched, howns, -⟩
    have hsecond : Matched hidProtocolKeyboard ⟨9, 9, 9, 9, 9⟩ 1
        (keyboardReplies secondInterface) 43 9 :=
      matched_second 1 (by decide +kernel) (by decide) (by decide +kernel)
    obtain ⟨rfl, rfl⟩ := hsecond.unique hmatched
    exact absurd howns (not_owns_nine (by decide +kernel) (by decide +kernel) (by decide +kernel))

end TetrisFpga.Usb
