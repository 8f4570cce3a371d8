import TetrisFpga.Usb.ProbeWalk

/-!
# What a probe leaves behind

A probe that has found its interface has entered the device, whatever comes after. The endpoint it
records is the first one behind the interface.
-/

namespace TetrisFpga.Usb
open Program

/-! ## What a probe finds -/

section Chain

variable {m : ℤ → BYTE} {total : ℕ} {kind protocol : BYTE} {pos : ℕ}

variable (m total) in
/-- The inner loop gets from `pos` to the endpoint descriptor at `pos'`. -/
def FindsEndpoint (pos pos' : ℕ) : Prop :=
  Skips m total usbDescriptorEndpoint pos pos' ∧ pos' < total ∧
    field m pos' 1 = usbDescriptorEndpoint

/-- The data of `r` are those of the endpoint descriptor at `pos`, the size as far as its low
byte. -/
structure Describes (m : ℤ → BYTE) (pos : ℕ) (r : EpRecord) : Prop where
  epAddr : r.epAddr = field m pos 2
  attr : r.attr = field m pos 3
  lowSize : r.maxPktSize.setWidth 8 = field m pos 4
  interval : r.interval = field m pos 6

theorem Describes.lowSize_eq {r : EpRecord} (h : Describes m pos r) :
    (r.maxPktSize.setWidth 8 : BYTE) = (wordField m pos 4).setWidth 8 :=
  h.lowSize.trans (setWidth_wordField m pos 4).symm

/-- The data of `r` are those of the endpoint descriptor at `pos`, as the processor reads them. -/
structure Copies (m : ℤ → BYTE) (pos : ℕ) (r : EpRecord) : Prop extends Describes m pos r where
  maxPktSize : r.maxPktSize = wordRead m pos 4

theorem Skips.trans {pos' pos'' : ℕ} (h : Skips m total kind pos pos')
    (h' : Skips m total kind pos' pos'') : Skips m total kind pos pos'' := by
  induction h with
  | refl => exact h'
  | skip hskip _ ih => exact .skip hskip (ih h')

/-- A loop stops in one place only. -/
theorem Skips.unique {a b : ℕ} (ha : Skips m total kind pos a) (hb : Skips m total kind pos b)
    (hstop : ¬Skipped m total kind a) (hstop' : ¬Skipped m total kind b) : a = b := by
  induction ha with
  | refl =>
    cases hb with
    | refl => rfl
    | skip hskip _ => exact absurd hskip hstop
  | skip hskip _ ih =>
    cases hb with
    | refl => exact absurd hskip hstop'
    | skip _ hb => exact ih hb hstop

theorem not_skipped_of_kind (h : field m pos 1 = kind) : ¬Skipped m total kind pos :=
  fun hskip => hskip.2 h

theorem FindsInterface.eq {pos₀ pos' : ℕ} (h : FindsInterface m total protocol pos₀ pos')
    (hskips : Skips m total usbDescriptorInterface pos₀ pos)
    (hstop : ¬Skipped m total usbDescriptorInterface pos) : pos' = pos :=
  h.1.unique hskips (not_skipped_of_kind h.2.2.1) hstop

theorem FindsEndpoint.eq {pos₀ pos' : ℕ} (h : FindsEndpoint m total pos₀ pos')
    (h' : FindsEndpoint m total pos₀ pos) : pos' = pos :=
  h.1.unique h'.1 (not_skipped_of_kind h.2.2) (not_skipped_of_kind h'.2.2)

end Chain

/-! ## The parts of a probe -/

section Parts

variable {χ : Type} {m : ℤ → BYTE} {p q : Host → Prop} {E : World χ → Prop}

/-- The configuration is `m`, and `p` is true of the variables. -/
def Knows (m : ℤ → BYTE) (p : Host → Prop) (w : World χ) : Prop := w.mem .bigbuf = m ∧ p w.host

/-- The device table and the HID device. -/
def Tables (T : BYTE → DevRecord) (d : HidDevice) (h : Host) : Prop :=
  h.devtable = T ∧ h.hidDevice = d

/-- The table with the record of the driver at `addr`. -/
def entered (T : BYTE → DevRecord) (driver addr : BYTE) : BYTE → DevRecord :=
  fun a => if a = addr then { epinfo := some .hidEp, devclass := driver } else T a

theorem knows_quiet {α : Type} {x : Prog χ α}
    (hx : ∀ w, ∃ a w', x w = .ok a w' ∧ w'.mem = w.mem ∧ w'.host = w.host) :
    Keeps (Knows m p) (fun _ => True) x where
  ok w a w' hw hr := by
    obtain ⟨b, w₁, hr', hmem, hhost⟩ := hx w
    cases hr'.symm.trans hr
    rw [Knows, hmem, hhost]
    exact hw
  error _ _ _ _ _ := trivial

theorem knows_load (pos k : ℕ) :
    Triple (Knows m p) (load (descr pos k) : Prog χ BYTE)
      (fun val w => Knows m p w ∧ val = field m pos k) fun _ => True where
  ok w val w' hw hr := by
    cases hr
    exact ⟨hw, congrFun hw.1 (descr pos k).off⟩
  error _ _ _ _ _ := trivial

/-- A field of a descriptor is loaded. -/
theorem knows_loadField {β : Type} (pos k : ℕ) {f : BYTE → Prog χ β} {Q : β → World χ → Prop}
    (hf : Triple (Knows m p) (f (field m pos k)) Q fun _ => True) :
    Triple (Knows m p) (load (descr pos k) >>= f) Q fun _ => True := by
  refine triple_bind (knows_load pos k) fun val => triple_of_fact fun hval => ?_
  rw [hval]
  exact hf

theorem knows_setHost {f : Host → Host} (hf : ∀ h, p h → q (f h)) :
    Triple (Knows m p) (setHost f : Prog χ Unit) (fun _ => Knows m q) fun _ => True where
  ok w a w' hw hr := by
    cases hr
    exact ⟨hw.1, hf w.host hw.2⟩
  error _ _ _ _ _ := trivial

theorem knows_epinfo (addr ep : BYTE) :
    Keeps (Knows m p) (fun _ => True) (epinfo addr ep : Prog χ EpTable) :=
  epinfo_mem (closed_keeps (Knows m p) fun _ => True) (knows_quiet fun _ => ⟨_, _, rfl, rfl, rfl⟩)
    (knows_quiet fun _ => ⟨_, _, rfl, rfl, rfl⟩) (triple_throw fun _ _ => trivial)

/-- The record at an address whose table is known. -/
theorem knows_epinfoAt {addr ep : BYTE} {t : EpTable}
    (ht : ∀ h, p h → (h.devtable addr).epinfo = some t) :
    Triple (Knows m p) (epinfo addr ep : Prog χ EpTable) (fun t' w => Knows m p w ∧ t' = t)
      fun _ => True where
  ok w t' w' hw hr := by
    by_cases hep : ep.toNat < t.size
    · cases (epinfo_run (ht w.host hw.2) hep).symm.trans hr
      exact ⟨hw, rfl⟩
    · cases (epinfo_outside (ht w.host hw.2) hep).symm.trans hr
  error _ _ _ _ _ := trivial

theorem knows_setEpRecord {addr ep : BYTE} {t : EpTable} {f : EpRecord → EpRecord}
    (ht : ∀ h, p h → (h.devtable addr).epinfo = some t) (hf : ∀ h, p h → q (h.setEp t ep f)) :
    Triple (Knows m p) (setEpRecord addr ep f : Prog χ Unit) (fun _ => Knows m q)
      fun _ => True := by
  refine triple_bind (knows_epinfoAt ht) fun t' => triple_of_fact fun hsame => ?_
  rw [hsame]
  exact knows_setHost hf

/-- Entering a device: the driver and its records in the table, the number of the interface and
the address in `hid_device`. -/
theorem fillDevice_enters (T : BYTE → DevRecord) (d : HidDevice) (driver addr : BYTE) (pos : ℕ) :
    Triple (Knows m (Tables T d)) (fillDevice driver addr pos : Prog χ Unit)
      (fun _ => Knows m (Tables (entered T driver addr) ⟨addr, field m pos 2⟩))
      fun _ => True := by
  let T₁ : BYTE → DevRecord := fun a => if a = addr then { T addr with devclass := driver } else T a
  have hinit (t : EpTable) (ep : BYTE) (f : EpRecord → EpRecord) :
      Keeps (Knows m (Tables T₁ d)) (fun _ => True)
          (setHost fun h => h.setEp t ep f : Prog χ Unit) := knows_setHost fun h hh => hh
  refine triple_bind (Q := fun _ => Knows m (Tables T₁ d)) (knows_setHost ?_) fun _ => ?_
  · rintro h ⟨rfl, rfl⟩
    exact ⟨rfl, rfl⟩
  refine triple_bind (Q := fun _ => Knows m (Tables T₁ d)) ?_ fun r => ?_
  · refine triple_bind (knows_epinfo addr 0) fun t => ?_
    exact triple_bind (knows_quiet fun _ => ⟨_, _, rfl, rfl, rfl⟩) fun h =>
      triple_pure fun _ hw => hw
  refine triple_bind (triple_bind (hinit _ _ _) fun _ => hinit _ _ _) fun _ => ?_
  refine triple_bind (Q := fun _ => Knows m (Tables (entered T driver addr) d)) (knows_setHost ?_)
    fun _ => ?_
  · rintro h ⟨hT, hd⟩
    refine ⟨?_, hd⟩
    funext a
    by_cases ha : a = addr
    · simp [Host.setDev, entered, ha, hT, T₁]
    · simp [Host.setDev, entered, ha, hT, T₁]
  have hrecord : Triple (Knows m (Tables (entered T driver addr) d))
      (setEpRecord addr 0 fun e => { e with maxPktSize := (r.maxPktSize.setWidth 8).setWidth 16 })
      (fun _ => Knows m (Tables (entered T driver addr) d)) fun _ : World χ => True :=
    triple_bind (knows_epinfo addr 0) fun t => knows_setHost fun h hh => hh
  refine triple_bind hrecord fun _ => knows_loadField pos 2 ?_
  refine triple_bind (Q := fun _ => Knows m (Tables (entered T driver addr)
    { d with interface := field m pos 2 })) (knows_setHost ?_) fun _ => knows_setHost ?_
  · rintro h ⟨hT, rfl⟩
    exact ⟨hT, rfl⟩
  · rintro h ⟨hT, hd⟩
    exact ⟨hT, by rw [hd]⟩

variable [Platform χ]

/-- The dispatches leave the variables and the configuration alone. -/
theorem dispatches_know : Dispatches (χ := χ) fun _ => Keeps (Knows m p) (fun _ => True) where
  toClosed := closed_keeps _ _
  hirq := knows_quiet fun _ => ⟨_, _, rfl, rfl, rfl⟩
  hrsl := knows_quiet fun _ => ⟨_, _, rfl, rfl, rfl⟩
  wr _ _ := knows_quiet fun _ => ⟨_, _, rfl, rfl, rfl⟩
  nticks := knows_quiet fun _ => ⟨_, _, rfl, rfl, rfl⟩
  wait := triple_throw fun _ _ => trivial
  dispatch := triple_throw fun _ _ => trivial

/-- The variables with an endpoint record in `epinfo[1]` of which `R` is true. -/
def Recorded (T : BYTE → DevRecord) (d : HidDevice) (R : EpRecord → Prop) (h : Host) : Prop :=
  Tables T d h ∧ R (h.eps .hidEp 1)

theorem fillEndpoint_records {T : BYTE → DevRecord} {d : HidDevice} {addr : BYTE}
    (hT : (T addr).epinfo = some .hidEp) (fuel : Fuel) (confvalue : BYTE) (pos : ℕ) :
    Triple (Knows m (Tables T d)) (fillEndpoint fuel addr confvalue pos : Prog χ Bool)
      (fun _ => Knows m (Recorded T d (Copies m pos))) fun _ => True := by
  have hset (R R' : EpRecord → Prop) (f : EpRecord → EpRecord) (hf : ∀ r, R r → R' (f r)) :
      Triple (Knows m (Recorded T d R)) (setEpRecord addr 1 f : Prog χ Unit)
        (fun _ => Knows m (Recorded T d R')) fun _ => True := by
    refine knows_setEpRecord (t := .hidEp) (fun h hh => by rw [hh.1.1, hT]) fun h hh => ⟨hh.1, ?_⟩
    have hnew : (h.setEp .hidEp 1 f).eps .hidEp 1 = f (h.eps .hidEp 1) := by simp [Host.setEp]
    rw [hnew]
    exact hf _ hh.2
  have hword {β : Type} {p : Host → Prop} {f : WORD → Prog χ β} {Q : β → World χ → Prop}
      (hf : Triple (Knows m p) (f (wordRead m pos 4)) Q fun _ => True) :
      Triple (Knows m p) (loadWord (descr pos 4) >>= f) Q fun _ => True := by
    refine triple_bind (Q := fun v w => Knows m p w ∧ v = wordRead m pos 4)
      (knows_loadField pos 4 ?_) fun v => triple_of_fact fun hv => ?_
    · rw [descr_high]
      exact knows_loadField pos _ (triple_pure fun w hw => ⟨hw, rfl⟩)
    · rw [hv]
      exact hf
  -- what the record has after each of the four assignments
  let R₁ (r : EpRecord) : Prop := r.epAddr = field m pos 2
  let R₂ (r : EpRecord) : Prop := R₁ r ∧ r.attr = field m pos 3
  let R₃ (r : EpRecord) : Prop := R₂ r ∧ r.maxPktSize = wordRead m pos 4
  refine Triple.conseq (P := Knows m (Recorded T d fun _ => True)) ?_
    (fun w hw => ⟨hw.1, hw.2, trivial⟩) fun _ _ hw => hw
  refine knows_loadField pos 2 (triple_bind (hset _ R₁ _ fun r _ => rfl) fun _ => ?_)
  refine knows_loadField pos 3 (triple_bind (hset _ R₂ _ fun r hr => ⟨hr, rfl⟩) fun _ => ?_)
  refine hword (triple_bind (hset _ R₃ _ fun r hr => ⟨hr, rfl⟩) fun _ => ?_)
  refine knows_loadField pos 6 (triple_bind (hset _ (Copies m pos) _ fun r hr => ?_) fun _ => ?_)
  · have hlow : (r.maxPktSize.setWidth 8 : BYTE) = field m pos 4 := by
      rw [hr.2, setWidth_wordRead]
    exact ⟨⟨hr.1.1, hr.1.2, hlow, rfl⟩, hr.2⟩
  have hC : Dispatches (χ := χ) fun _ =>
      Keeps (Knows m (Recorded T d (Copies m pos))) (fun _ => True) :=
    dispatches_know
  refine hC.bind (hC.xferCtrlReq_none _ _ _ _ _ _ _ _ _) fun _ => hC.ite (hC.pure _) ?_
  refine hC.bind (knows_quiet fun _ => ⟨_, _, rfl, rfl, rfl⟩) fun _ => ?_
  refine hC.bind (hC.xferCtrlReq_none _ _ _ _ _ _ _ _ _) fun _ => ?_
  exact hC.ite (hC.pure _) (hC.pure _)

/-! ## The loops -/

omit [Platform χ] in
/-- Both loops of a probe: what they find is left to `found`, and where `found` sends them to the
end of the configuration, or they get there, the rest is left to `after`. -/
theorem skipLoop_knows {β : Type} {total : ℕ} {kind : BYTE} {L : World χ → Prop}
    {Q : β → World χ → Prop} {found : ℕ → Prog χ (ℕ ⊕ β)} {after : ℕ → Prog χ β} {pos : ℕ}
    (hfound : ∀ a, Skips m total kind pos a → a < total → field m a 1 = kind →
      Triple (Knows m p) (found a) (Sum.rec (fun a' w => total ≤ a' ∧ L w) Q) fun _ => True)
    (hend : ∀ a, total ≤ a → Skips m total kind pos a →
      Triple (Knows m p) (after a) Q fun _ => True)
    (hafter : ∀ a, Triple L (after a) Q fun _ => True) (n : ℕ) :
    Triple (Knows m p)
      (whileLoop .walk (fun pos => pure (decide (pos < total))) (skipTo kind found) after n pos)
      Q fun _ => True := by
  -- a position is reached by skipping alone, or by what was found, behind the end
  refine (triple_whileLive (I := fun a w => (Skips m total kind pos a ∧ Knows m p w) ∨
    (total ≤ a ∧ L w)) (fun a hlive => ?_) (fun a hdead => ?_) (fun _ _ _ => trivial)
    n pos).conseq (fun w hw => .inl ⟨.refl pos, hw⟩) fun _ _ hw => hw
  · have hlt := of_decide_eq_true hlive
    refine triple_of_imp (c := Skips m total kind pos a)
      (fun w hw => (hw.resolve_right fun h => by omega).1) fun hskips => ?_
    refine Triple.conseq (P := Knows m p) ?_
      (fun w hw => (hw.resolve_right fun h => by omega).2) fun _ _ hw => hw
    refine knows_loadField a 1 (triple_ite (fun hskip => ?_) fun hkind => ?_)
    · refine knows_loadField a 0 (triple_pure fun w hw => .inl ⟨?_, hw⟩)
      exact hskips.trans (.skip ⟨hlt, hskip⟩ (.refl _))
    · refine (hfound a hskips hlt (not_not.mp hkind)).conseq (fun _ hw => hw) fun r w hw => ?_
      cases r with
      | inl a' => exact .inr hw
      | inr b => exact hw
  · have hle : total ≤ a := Nat.le_of_not_lt (of_decide_eq_false hdead)
    refine ⟨fun w b w' hw hr => ?_, fun _ _ _ _ _ => trivial⟩
    obtain ⟨hskips, hw⟩ | ⟨-, hw⟩ := hw
    · exact (hend a hle hskips).ok w b w' hw hr
    · exact (hafter a).ok w b w' hw hr

/-- The inner loop records the endpoint it finds, or it gets to the end of the configuration. -/
theorem endpointLoop_records {T : BYTE → DevRecord} {d : HidDevice} {addr : BYTE}
    (hT : (T addr).epinfo = some .hidEp) (fuel : Fuel) (confvalue : BYTE) (total : WORD)
    (n pos : ℕ) :
    Triple (Knows m (Tables T d)) (endpointLoop fuel addr confvalue total n pos : Prog χ _)
      (Sum.rec (fun pos' w => total.toNat ≤ pos' ∧ Knows m (Tables T d) w) fun _ w =>
        ∃ pos', FindsEndpoint m total.toNat pos pos' ∧
          Knows m (Recorded T d (Copies m pos')) w) fun _ => True := by
  refine skipLoop_knows (L := fun _ => False) (fun a hskips hlt hkind => ?_) (fun a hle _ => ?_)
    (fun a => ⟨fun _ _ _ hw _ => hw.elim, fun _ _ _ _ _ => trivial⟩) n
  · refine triple_bind (fillEndpoint_records hT fuel confvalue a) fun found => ?_
    exact triple_pure fun w hw => ⟨a, ⟨hskips, hlt, hkind⟩, hw⟩
  · exact triple_pure fun w hw => ⟨hle, hw⟩

/-- What a probe leaves in the variables once it has read its configuration: nothing, or, where it
finds its interface, the device and the endpoint behind the interface. -/
inductive Outcome (m : ℤ → BYTE) (total : ℕ) (driver protocol addr : BYTE) (T : BYTE → DevRecord)
    (d : HidDevice) (h : Host) : Bool → Prop
  | passed : (∀ pos, ¬FindsInterface m total protocol 0 pos) → Tables T d h →
      Outcome m total driver protocol addr T d h false
  | entered {b : Bool} (pos : ℕ) : FindsInterface m total protocol 0 pos →
      Tables (entered T driver addr) ⟨addr, field m pos 2⟩ h →
      (b = true → ∃ pos', FindsEndpoint m total (nextDescr m pos) pos' ∧
        Copies m pos' (h.eps .hidEp 1)) → Outcome m total driver protocol addr T d h b

theorem interfaceLoop_outcome (T : BYTE → DevRecord) (d : HidDevice) (fuel : Fuel)
    (driver protocol addr confvalue : BYTE) (total : WORD) :
    Triple (Knows m (Tables T d))
      (interfaceLoop fuel driver protocol addr confvalue total 0 : Prog χ Bool)
      (fun b w => Outcome m total.toNat driver protocol addr T d w.host b) fun _ => True := by
  refine skipLoop_knows
    (L := fun w => Outcome m total.toNat driver protocol addr T d w.host false)
    (fun pos hskips hlt hkind => ?_) (fun pos hle hskips => triple_pure fun w hw => ?_)
    (fun a => triple_pure fun _ hw => hw) fuel.walk
  · refine knows_loadField pos 5 (knows_loadField pos 6 (knows_loadField pos 7 ?_))
    refine triple_ite (fun hboot => ?_) fun hother => triple_pure fun w hw => ?_
    · have hfinds : FindsInterface m total.toNat protocol 0 pos := ⟨hskips, hlt, hkind, hboot⟩
      refine triple_bind (fillDevice_enters T d driver addr pos) fun _ => knows_loadField pos 0 ?_
      have hT : (entered T driver addr addr).epinfo = some .hidEp := by simp [entered]
      refine (endpointLoop_records hT fuel confvalue total fuel.walk _).conseq
        (fun _ hw => hw) fun r w hw => ?_
      cases r with
      | inl pos' => exact ⟨hw.1, .entered pos hfinds hw.2.2 nofun⟩
      | inr b =>
        obtain ⟨pos', hfinds', hw⟩ := hw
        exact .entered pos hfinds hw.2.1 fun _ => ⟨pos', hfinds', hw.2.2⟩
    -- an interface that does not match ends the scan, also where a later one would
    · refine .passed (fun pos' hfinds => hother ?_) hw.2
      exact hfinds.eq hskips (not_skipped_of_kind hkind) ▸ hfinds.2.2.2
  · have hstop : ¬Skipped m total.toNat usbDescriptorInterface pos :=
      fun hskip => absurd hskip.1 (Nat.not_lt.mpr hle)
    refine .passed (fun pos' hfinds => ?_) hw.2
    have hlt := hfinds.2.1
    rw [hfinds.eq hskips hstop] at hlt
    exact absurd hlt (Nat.not_lt.mpr hle)

/-! ## The probes -/

/-- The contents of `bigbuf` that the probe at `addr` parses. -/
def configuration (fuel : Fuel) (addr : BYTE) (w : World χ) : ℤ → BYTE :=
  (final (readConfiguration fuel addr w)).mem .bigbuf

/-- The probe finds its interface at `pos`, in a configuration of `total` bytes. -/
def Matched (protocol : BYTE) (fuel : Fuel) (addr : BYTE) (w : World χ) (total : WORD) (pos : ℕ) :
    Prop :=
  (∃ confvalue, value? (readConfiguration fuel addr w) = some (some (total, confvalue))) ∧
    FindsInterface (configuration fuel addr w) total.toNat protocol 0 pos

/-- A probe that ends leaves the table and the HID device alone or has entered the device. -/
theorem hidProbe_outcome {driver protocol : BYTE} {fuel : Fuel} {addr : BYTE} {w w' : World χ}
    {b : Bool} (hr : hidProbe driver protocol fuel addr w = .ok b w') :
    (value? (readConfiguration fuel addr w) = some none ∧ b = false ∧
      Tables w.host.devtable w.host.hidDevice w'.host) ∨
    ∃ total confvalue, value? (readConfiguration fuel addr w) = some (some (total, confvalue)) ∧
      Outcome (configuration fuel addr w) total.toNat driver protocol addr w.host.devtable
        w.host.hidDevice w'.host b := by
  have hC : Transfers (χ := χ) fun _ =>
      Keeps (Holds (fun _ => True) (Tables w.host.devtable w.host.hidDevice))
        (Seen fun _ => True) :=
    transfers_hold (fun _ _ _ _ h => h) fun _ _ => trivial
  have hseen : Seen (fun _ => True) w := fun _ _ => trivial
  cases hread : readConfiguration fuel addr w with
  | error e s =>
    rw [hidProbe, bind_of_error hread] at hr
    cases hr
  | ok r s =>
    have hs := ((hC.readConfiguration fuel addr).ok w r s ⟨⟨rfl, rfl⟩, hseen⟩ hread).1
    rw [hidProbe, bind_of_ok hread] at hr
    cases r with
    | none =>
      cases hr
      exact .inl ⟨rfl, rfl, hs⟩
    | some r =>
      refine .inr ⟨r.1, r.2, rfl, ?_⟩
      have hloop := interfaceLoop_outcome (χ := χ) (m := configuration fuel addr w)
        w.host.devtable w.host.hidDevice fuel driver protocol addr r.2 r.1
      refine hloop.ok s b w' ⟨?_, hs⟩ hr
      rw [configuration, hread]
      rfl

theorem Matched.unique {protocol : BYTE} {fuel : Fuel} {addr : BYTE} {w : World χ}
    {total total' : WORD} {pos pos' : ℕ} (h : Matched protocol fuel addr w total pos)
    (h' : Matched protocol fuel addr w total' pos') : total' = total ∧ pos' = pos := by
  obtain ⟨⟨confvalue, hr⟩, hfinds⟩ := h
  obtain ⟨⟨confvalue', hr'⟩, hfinds'⟩ := h'
  have hsame := hr'.symm.trans hr
  simp only [Option.some.injEq, Prod.mk.injEq] at hsame
  obtain ⟨rfl, -⟩ := hsame
  exact ⟨rfl, hfinds'.eq hfinds.1 (not_skipped_of_kind hfinds.2.2.1)⟩

/-- A probe that returns TRUE has entered the device and recorded the endpoint it found. -/
theorem hidProbe_true {driver protocol : BYTE} {fuel : Fuel} {addr : BYTE} {w w' : World χ}
    (hr : hidProbe driver protocol fuel addr w = .ok true w') :
    ∃ total pos pos', Matched protocol fuel addr w total pos ∧
      Tables (entered w.host.devtable driver addr) ⟨addr, field (configuration fuel addr w) pos 2⟩
        w'.host ∧
      FindsEndpoint (configuration fuel addr w) total.toNat
        (nextDescr (configuration fuel addr w) pos) pos' ∧
      Copies (configuration fuel addr w) pos' (w'.host.eps .hidEp 1) := by
  obtain ⟨-, hfalse, -⟩ | ⟨total, confvalue, hread, hout⟩ := hidProbe_outcome hr
  · cases hfalse
  · cases hout with
    | entered pos hfinds htables hendpoint =>
      obtain ⟨pos', hfinds', hdescr⟩ := hendpoint rfl
      exact ⟨total, pos, pos', ⟨⟨confvalue, hread⟩, hfinds⟩, htables, hfinds', hdescr⟩

end Parts

end TetrisFpga.Usb
