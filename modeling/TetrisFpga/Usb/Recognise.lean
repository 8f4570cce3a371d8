import TetrisFpga.Machine.TwoRuns
import TetrisFpga.Usb.FirstEndpoint
import TetrisFpga.Usb.Rounds

/-!
# What the probes recognise

On a configuration that is a sequence of whole descriptors the probes do what a search through the
list does: they take the first interface, and the first endpoint behind it.
-/

namespace TetrisFpga.Usb
open Program

/-! ## Configurations -/

/-- A descriptor starts with its length and its type. -/
structure Descriptor where
  bytes : List BYTE
  two_le : 2 ≤ bytes.length
  length_eq : (bytes.getD 0 0).toNat = bytes.length
  interface_length : bytes.getD 1 0 = usbDescriptorInterface → bytes.length = 9
  endpoint_length : bytes.getD 1 0 = usbDescriptorEndpoint → bytes.length = 7

namespace Descriptor

def byte (d : Descriptor) (k : ℕ) : BYTE := d.bytes.getD k 0

def word (d : Descriptor) (k : ℕ) : WORD := d.byte (k + 1) ++ d.byte k

/-- The word at `k` as the processor reads it, if the descriptor starts at `pos` in `bigbuf`. -/
def wordRead (d : Descriptor) (pos k : ℕ) : WORD := d.byte (highByte pos k) ++ d.byte k

theorem readable_iff {d : Descriptor} {pos k : ℕ} :
    d.wordRead pos k = d.word k ↔ (pos + k) % 4 ≠ 3 ∨ d.byte (k + 1) = d.byte k := by
  rw [wordRead, word, highByte]
  split
  · next hlast =>
    refine ⟨fun h => .inr ?_, fun h => ?_⟩
    · have hhigh := congrArg (BitVec.extractLsb' 8 8) h
      have hbyte (hi lo : BYTE) : BitVec.extractLsb' 8 8 (hi ++ lo) = hi :=
        (BitVec.extractLsb'_append_eq_of_le (Nat.le_refl 8)).trans BitVec.extractLsb'_eq_self
      rw [hbyte, hbyte] at hhigh
      exact hhigh.symm
    · rw [h.resolve_left (not_not_intro hlast)]
  · next hnot => exact ⟨fun _ => .inl hnot, fun _ => rfl⟩

/-- An interface descriptor of the boot interface with the given protocol. -/
def IsBoot (d : Descriptor) (protocol : BYTE) : Prop :=
  d.byte 5 = hidIntf ∧ d.byte 6 = bootIntfSubclass ∧ d.byte 7 = protocol

instance (d : Descriptor) (protocol : BYTE) : Decidable (d.IsBoot protocol) :=
  inferInstanceAs (Decidable (_ ∧ _ ∧ _))

end Descriptor

def totalSize (ds : List Descriptor) : ℕ := (ds.flatMap Descriptor.bytes).length

@[simp] theorem totalSize_cons (d : Descriptor) (ds : List Descriptor) :
    totalSize (d :: ds) = d.bytes.length + totalSize ds := by
  rw [totalSize, List.flatMap_cons, List.length_append, totalSize]

/-- A configuration descriptor with the descriptors behind it, of which it gives the length. -/
structure Configuration where
  config : Descriptor
  rest : List Descriptor
  config_type : config.byte 1 = usbDescriptorConfiguration
  config_length : config.bytes.length = 9
  wTotalLength : (config.word 2).toNat = totalSize (config :: rest)
  le : totalSize (config :: rest) ≤ 256

namespace Configuration

def descriptors (c : Configuration) : List Descriptor := c.config :: c.rest

def bytes (c : Configuration) : List BYTE := c.descriptors.flatMap Descriptor.bytes

/-- The configuration descriptor comes first. -/
theorem getD_bytes (c : Configuration) {k : ℕ} (hk : k < 9) :
    c.bytes.getD k 0 = c.config.byte k := by
  have hlength := c.config_length
  rw [bytes, descriptors, List.flatMap_cons, List.getD_eq_getElem?_getD,
    List.getElem?_append_left (by omega), ← List.getD_eq_getElem?_getD, Descriptor.byte]

end Configuration

/-- The first descriptor of the type, with those behind it. -/
def firstOf (kind : BYTE) : List Descriptor → Option (Descriptor × List Descriptor)
  | [] => none
  | d :: ds => if d.byte 1 = kind then some (d, ds) else firstOf kind ds

/-- The first interface, if it is the boot interface with the given protocol, and the first
endpoint behind it. -/
def recognise (protocol : BYTE) (ds : List Descriptor) : Option (Descriptor × Descriptor) :=
  match firstOf usbDescriptorInterface ds with
  | none => none
  | some (i, behind) =>
    if i.IsBoot protocol then
      (firstOf usbDescriptorEndpoint behind).map fun found => (i, found.1)
    else none

theorem recognise_of_first {protocol : BYTE} {ds behind : List Descriptor} {i : Descriptor}
    (h : firstOf usbDescriptorInterface ds = some (i, behind)) :
    recognise protocol ds = if i.IsBoot protocol then
      (firstOf usbDescriptorEndpoint behind).map fun found => (i, found.1) else none := by
  rw [recognise, h]

theorem recognise_eq_some {protocol : BYTE} {ds : List Descriptor} {i e : Descriptor}
    (h : recognise protocol ds = some (i, e)) :
    ∃ behind rest, firstOf usbDescriptorInterface ds = some (i, behind) ∧ i.IsBoot protocol ∧
      firstOf usbDescriptorEndpoint behind = some (e, rest) := by
  cases hfirst : firstOf usbDescriptorInterface ds with
  | none =>
    rw [recognise, hfirst] at h
    cases h
  | some found =>
    rw [recognise_of_first hfirst] at h
    split at h
    · next hboot =>
      obtain ⟨found', hend, hpair⟩ := Option.map_eq_some_iff.mp h
      cases hpair
      exact ⟨found.2, found'.2, rfl, hboot, hend⟩
    · cases h

/-- Where the first endpoint behind the first interface starts. -/
def Configuration.endpointStart (c : Configuration) : ℕ :=
  ((firstOf usbDescriptorInterface c.descriptors).bind fun found =>
    firstOf usbDescriptorEndpoint found.2).elim 0 fun found =>
      totalSize c.descriptors - totalSize (found.1 :: found.2)

theorem Configuration.endpointStart_eq (c : Configuration) {i e : Descriptor}
    {behind rest : List Descriptor}
    (hfirst : firstOf usbDescriptorInterface c.descriptors = some (i, behind))
    (hend : firstOf usbDescriptorEndpoint behind = some (e, rest)) :
    c.endpointStart = totalSize c.descriptors - totalSize (e :: rest) := by
  rw [endpointStart, hfirst, Option.bind_some, hend, Option.elim_some]

/-! ## Descriptors in the buffer -/

section Laid

variable {m : ℤ → BYTE} {total pos : ℕ} {kind : BYTE} {ds : List Descriptor}

/-- The descriptors lie in the buffer one after the other, from `pos` on. -/
def Laid (m : ℤ → BYTE) : ℕ → List Descriptor → Prop
  | _, [] => True
  | pos, d :: ds =>
    (∀ k < d.bytes.length, field m pos k = d.byte k) ∧ Laid m (pos + d.bytes.length) ds

theorem laid_of_bytes (h : ∀ k < totalSize ds, m ((pos + k : ℕ) : ℤ) =
    (ds.flatMap Descriptor.bytes).getD k 0) : Laid m pos ds := by
  induction ds generalizing pos with
  | nil => trivial
  | cons d ds ih =>
    rw [totalSize_cons] at h
    refine ⟨fun k hk => ?_, ih fun k hk => ?_⟩
    · have hbyte := h k (by omega)
      rw [List.flatMap_cons, List.getD_eq_getElem?_getD, List.getElem?_append_left hk,
        ← List.getD_eq_getElem?_getD] at hbyte
      rw [field, descr]
      exact hbyte
    · have hbyte := h (d.bytes.length + k) (by omega)
      rw [List.flatMap_cons, List.getD_eq_getElem?_getD,
        List.getElem?_append_right (Nat.le_add_right _ _), Nat.add_sub_cancel_left,
        ← List.getD_eq_getElem?_getD, ← Nat.add_assoc] at hbyte
      exact hbyte

theorem Laid.next {d : Descriptor} (h : Laid m pos (d :: ds)) :
    nextDescr m pos = pos + d.bytes.length := by
  rw [nextDescr, h.1 0 (by have := d.two_le; omega), ← d.length_eq]
  rfl

theorem Laid.type {d : Descriptor} (h : Laid m pos (d :: ds)) : field m pos 1 = d.byte 1 :=
  h.1 1 d.two_le

/-- The loops only come to places where descriptors start. -/
theorem Skips.laid {a : ℕ} (h : Skips m total kind pos a) (hlaid : Laid m pos ds)
    (hsize : pos + totalSize ds = total) : ∃ ds', Laid m a ds' ∧ a + totalSize ds' = total := by
  induction h generalizing ds with
  | refl pos => exact ⟨ds, hlaid, hsize⟩
  | skip hskip _ ih =>
    cases ds with
    | nil =>
      have := hskip.1
      have : totalSize [] = 0 := rfl
      omega
    | cons d ds =>
      rw [totalSize_cons] at hsize
      exact ih (hlaid.next ▸ hlaid.2) (by rw [hlaid.next]; omega)

theorem Laid.advances (hlaid : Laid m pos ds) (hsize : pos + totalSize ds = total) :
    Advances m total kind pos := by
  intro a hskips hskip hzero
  obtain ⟨ds', hlaid', hsize'⟩ := hskips.laid hlaid hsize
  cases ds' with
  | nil =>
    have := hskip.1
    have : totalSize [] = 0 := rfl
    omega
  | cons d ds' =>
    have hlength := d.length_eq
    have htwo := d.two_le
    have hbyte := hlaid'.1 0 (by omega)
    rw [hzero] at hbyte
    have : d.bytes.getD 0 0 = 0 := hbyte.symm
    rw [this] at hlength
    have : (0 : BYTE).toNat = 0 := rfl
    omega

/-- A loop finds the first descriptor of its type. -/
theorem Laid.finds {d : Descriptor} {behind : List Descriptor} (hlaid : Laid m pos ds)
    (hsize : pos + totalSize ds = total) (h : firstOf kind ds = some (d, behind)) :
    ∃ a, Skips m total kind pos a ∧ a < total ∧ field m a 1 = kind ∧
      Laid m a (d :: behind) ∧ a + totalSize (d :: behind) = total := by
  induction ds generalizing pos with
  | nil => cases h
  | cons d' ds ih =>
    have htwo := d'.two_le
    rw [totalSize_cons] at hsize
    rw [firstOf] at h
    split at h
    · next hkind =>
      cases h
      exact ⟨pos, .refl pos, by omega, hlaid.type.trans hkind, hlaid, by rw [totalSize_cons]; omega⟩
    · next hkind =>
      obtain ⟨a, hskips, hrest⟩ := ih (hlaid.next ▸ hlaid.2) (by rw [hlaid.next]; omega) h
      exact ⟨a, .skip ⟨by omega, hlaid.type ▸ hkind⟩ hskips, hrest⟩

/-- Without one it gets to the end. -/
theorem Laid.ends (hlaid : Laid m pos ds) (hsize : pos + totalSize ds = total)
    (h : firstOf kind ds = none) : Skips m total kind pos total := by
  induction ds generalizing pos with
  | nil =>
    have : pos = total := hsize
    rw [this]
    exact .refl total
  | cons d ds ih =>
    have htwo := d.two_le
    rw [totalSize_cons] at hsize
    rw [firstOf] at h
    split at h
    · cases h
    · next hkind =>
      have hskips := ih (hlaid.next ▸ hlaid.2) (by rw [hlaid.next]; omega) h
      exact .skip ⟨by omega, hlaid.type ▸ hkind⟩ hskips

end Laid

/-! ## The requests of a probe -/

section Requests

variable {χ : Type} [Platform χ] {fuel : Fuel} {addr : BYTE} {w : World χ}

/-- The request for `n` bytes of the configuration succeeds and leaves in `bigbuf` as many of
`bytes`. -/
def Delivered (bytes : List BYTE) (n : WORD) (fuel : Fuel) (addr : BYTE) (w : World χ) : Prop :=
  value? (xferGetConfDescr fuel addr 0 n 0 ⟨.bigbuf, 0⟩ w) = some 0 ∧
    ∀ k < n.toNat, k < bytes.length →
      (final (xferGetConfDescr fuel addr 0 n 0 ⟨.bigbuf, 0⟩ w)).mem .bigbuf (k : ℕ) =
        bytes.getD k 0

/-- Where the second request is made: the length has been read. -/
def afterLength (fuel : Fuel) (addr : BYTE) (w : World χ) : World χ :=
  final (loadWord (descr 0 2) (final (xferGetConfDescr fuel addr 0 confDescrLen 0 ⟨.bigbuf, 0⟩ w)))

/-- Both requests of a probe return what was asked for of the configuration. -/
def Returned (c : Configuration) (fuel : Fuel) (addr : BYTE) (w : World χ) : Prop :=
  Delivered c.bytes confDescrLen fuel addr w ∧
    Delivered c.bytes (c.config.word 2) fuel addr (afterLength fuel addr w)

/-- A probe that gets the configuration in full has it in `bigbuf`. -/
theorem Returned.read {c : Configuration} (h : Returned c fuel addr w) :
    value? (readConfiguration fuel addr w) = some (some (c.config.word 2, c.config.byte 5)) ∧
      Laid (configuration fuel addr w) 0 c.descriptors := by
  obtain ⟨⟨hr₁, hm₁⟩, hr₂, hm₂⟩ := h
  have hsize : c.bytes.length = 9 + totalSize c.rest := by
    rw [← c.config_length]
    exact totalSize_cons _ _
  have htotal : (c.config.word 2).toNat = c.bytes.length := c.wTotalLength
  have hle : c.bytes.length ≤ 256 := c.le
  generalize hw₁ : final (xferGetConfDescr fuel addr 0 confDescrLen 0 ⟨.bigbuf, 0⟩ w) = w₁ at hm₁
  have hfield₁ (k : ℕ) (hk : k < 9) : field (w₁.mem .bigbuf) 0 k = c.config.byte k := by
    rw [← c.getD_bytes hk, field, descr, ← hm₁ k hk (by omega)]
    simp
  obtain ⟨w₂, hword, hlook⟩ := looked_word (rfl : w₁.mem .bigbuf = _) 0 2
  have hw₂ : afterLength fuel addr w = w₂ := by rw [afterLength, hw₁, hword]; rfl
  rw [hw₂] at hr₂ hm₂
  generalize hw₃ : final (xferGetConfDescr fuel addr 0 (c.config.word 2) 0 ⟨.bigbuf, 0⟩ w₂) = w₃
    at hm₂
  have hlaid : Laid (w₃.mem .bigbuf) 0 c.descriptors := by
    refine laid_of_bytes fun k hk => ?_
    rw [Nat.zero_add]
    exact hm₂ k (htotal ▸ hk) hk
  have hvalue : field (w₃.mem .bigbuf) 0 5 = c.config.byte 5 :=
    hlaid.1 5 (by have := c.config_length; omega)
  have hrun : readConfiguration fuel addr w = .ok (some (c.config.word 2, c.config.byte 5))
      { w₃ with log := .load (descr 0 5) :: w₃.log } := by
    have hlength : wordRead (w₁.mem .bigbuf) 0 2 = c.config.word 2 := by
      rw [wordRead_of_aligned (by decide), wordField, hfield₁ 3 (by omega), hfield₁ 2 (by omega)]
      rfl
    have hload : load (descr 0 5) w₃ = .ok (c.config.byte 5)
        { w₃ with log := .load (descr 0 5) :: w₃.log } := hvalue ▸ rfl
    rw [hlength] at hword
    have hok₁ := eq_ok_of_value? hr₁
    have hok₂ := eq_ok_of_value? hr₂
    rw [hw₁] at hok₁
    rw [hw₃] at hok₂
    -- so the second request asks for the whole configuration
    have hnot : ¬(c.config.word 2 > 256) := by
      rw [gt_iff_lt, BitVec.lt_def]
      have : (256 : WORD).toNat = 256 := rfl
      omega
    rw [readConfiguration, bind_of_ok hok₁]
    simp only [ne_eq, not_true_eq_false, if_false]
    rw [bind_of_ok hword]
    simp only [if_neg hnot]
    rw [bind_of_ok hok₂]
    simp only [not_true_eq_false, if_false]
    rw [bind_of_ok hload]
    rfl
  rw [configuration, hrun]
  exact ⟨rfl, hlaid⟩

/-- The requests that make the device ready succeed. -/
def Configures (fuel : Fuel) (addr confvalue interface : BYTE) (w : World χ) : Prop :=
  value? (xferSetConf fuel addr 0 confvalue w) = some 0 ∧
    value? (xferSetProto fuel addr 0 interface bootProtocol
      (final (xferSetConf fuel addr 0 confvalue w))) = some 0

theorem configure_true_iff (confvalue interface : BYTE) :
    value? (configure fuel addr confvalue interface w) = some true ↔
      Configures fuel addr confvalue interface w := by
  rw [configure, Configures]
  cases hconf : xferSetConf fuel addr 0 confvalue w with
  | error e w' =>
    rw [bind_of_error hconf]
    exact ⟨by rintro ⟨⟩, fun h => by cases h.1⟩
  | ok rcode w' =>
    rw [bind_of_ok hconf]
    change _ ↔ some rcode = some 0 ∧
      value? (xferSetProto fuel addr 0 interface bootProtocol w') = some 0
    by_cases h : rcode = 0
    · rw [if_neg (not_not.mpr h)]
      cases hproto : xferSetProto fuel addr 0 interface bootProtocol w' with
      | error e w'' =>
        rw [bind_of_error hproto]
        exact ⟨by rintro ⟨⟩, fun h => by cases h.2⟩
      | ok rcode' w'' =>
        rw [bind_of_ok hproto]
        change _ ↔ _ ∧ some rcode' = some 0
        by_cases h' : rcode' = 0
        · rw [if_neg (not_not.mpr h'), h, h']
          exact iff_of_true rfl ⟨rfl, rfl⟩
        · rw [if_pos h']
          exact ⟨by rintro ⟨⟩, fun hboth => absurd (Option.some.inj hboth.2) h'⟩
    · rw [if_pos h]
      exact ⟨by rintro ⟨⟩, fun hboth => absurd (Option.some.inj hboth.1) h⟩

/-- The requests see of the program what it has written to the chip. -/
theorem configure_value {w' : World χ} (h : w'.chip = w.chip) (confvalue interface : BYTE) :
    value? (configure fuel addr confvalue interface w') =
      value? (configure fuel addr confvalue interface w) := by
  have halike {α : Type} {x : Prog χ α} (hx : ∀ chip, ∃ a chip', ∀ host mem pio log,
      ∃ w' : World χ, x ⟨chip, host, mem, pio, log⟩ = .ok a w' ∧ w'.chip = chip') :
      TwoRuns (fun w w' : World χ => w'.chip = w.chip) (fun _ => True) x := by
    refine .of_ok (fun _ _ => trivial) ?_
    rintro ⟨_, host, mem, pio, log⟩ ⟨chip, host', mem', pio', log'⟩ rfl -
    obtain ⟨a, chip', hrun⟩ := hx chip
    obtain ⟨w', hr, hw'⟩ := hrun host mem pio log
    obtain ⟨v', hr', hv'⟩ := hrun host' mem' pio' log'
    exact ⟨a, w', v', hr, hr', hv'.trans hw'.symm⟩
  have hrd (reg : BYTE) : TwoRuns (fun w w' : World χ => w'.chip = w.chip) (fun _ => True)
      (maxRegRd reg : Prog χ BYTE) := halike fun chip =>
    ⟨(Platform.rd chip reg).1, (Platform.rd chip reg).2, fun _ _ _ _ => ⟨_, rfl, rfl⟩⟩
  have hC : Dispatches (χ := χ) fun _ =>
      TwoRuns (fun w w' : World χ => w'.chip = w.chip) fun _ => True := {
    toClosed := closed_twoRuns _ _
    hirq := hrd _
    hrsl := hrd _
    wr := fun reg val => halike fun chip =>
      ⟨(), Platform.wr chip reg val, fun _ _ _ _ => ⟨_, rfl, rfl⟩⟩
    nticks := halike fun chip =>
      ⟨(Platform.nticks chip).1, (Platform.nticks chip).2, fun _ _ _ _ => ⟨_, rfl, rfl⟩⟩
    wait := twoRuns_throw _
    dispatch := twoRuns_throw _ }
  have htwo : TwoRuns (fun w w' : World χ => w'.chip = w.chip) (fun _ => True)
      (configure fuel addr confvalue interface) := ?_
  · exact (htwo.alike w w' h trivial).value?
  refine hC.bind (hC.xferCtrlReq_none _ _ _ _ _ _ _ _ _) fun _ => hC.ite (hC.pure _) ?_
  refine hC.bind (hC.xferCtrlReq_none _ _ _ _ _ _ _ _ _) fun _ => ?_
  exact hC.ite (hC.pure _) (hC.pure _)

/-! ## The walk -/

section Walk

variable {m : ℤ → BYTE} {total : WORD} {pos n : ℕ} {ds : List Descriptor}

/-- The inner loop makes the device ready if there is an endpoint, and else gets to the end. -/
theorem endpointLoop_value (fuel : Fuel) {addr : BYTE} {T : BYTE → DevRecord} {d : HidDevice}
    (hm : w.mem .bigbuf = m)
    (hw : Tables T d w.host) (hT : (T addr).epinfo = some .hidEp) (confvalue : BYTE)
    (hlaid : Laid m pos ds) (hsize : pos + totalSize ds = total.toNat) (hn : total.toNat ≤ n) :
    (firstOf usbDescriptorEndpoint ds = none ∧ ∃ w',
      endpointLoop fuel addr confvalue total n pos w = .ok (.inl total.toNat) w') ∨
    ((firstOf usbDescriptorEndpoint ds).isSome ∧ ∃ w', w'.chip = w.chip ∧
      endpointLoop fuel addr confvalue total n pos w =
        (configure fuel addr confvalue d.interface >>= fun b => pure (.inr b)) w') := by
  cases hfirst : firstOf usbDescriptorEndpoint ds with
  | none =>
    obtain ⟨k, hk, hrun⟩ := (hlaid.ends hsize hfirst).rounds (χ := χ)
    have hle := hk (hlaid.advances hsize)
    obtain ⟨n, rfl⟩ : ∃ n', n = n' + k := ⟨n - k, by omega⟩
    obtain ⟨w', -, hrest⟩ := hrun _ _ _ w hm
    exact .inl ⟨rfl, w', (hrest n).trans (skipLoop_end (Nat.le_refl _) n w')⟩
  | some found =>
    obtain ⟨d', behind⟩ := found
    obtain ⟨a, hskips, hlt, hkind, -⟩ := hlaid.finds hsize hfirst
    obtain ⟨k, hk, hrun⟩ := hskips.rounds (χ := χ)
    have hle := hk (hlaid.advances hsize)
    obtain ⟨n, rfl⟩ : ∃ n', n = n' + 1 + k := ⟨n - k - 1, by omega⟩
    obtain ⟨w₁, s₁, hrest⟩ := hrun _ _ _ w hm
    obtain ⟨w₂, s₂, hfound⟩ := skipLoop_found hlt (s₁.mem ▸ hm) hkind n
    have s₂ := s₁.trans s₂
    obtain ⟨w₃, s₃, -, hfill⟩ := fillEndpoint_run (s₂.mem ▸ hm) (s₂.host ▸ hw) hT fuel confvalue a
    refine .inr ⟨rfl, w₃, s₃.chip.trans s₂.chip, (hrest (n + 1)).trans (hfound.trans ?_)⟩
    simp only [bind_assoc, pure_bind, Sum.elim_inr]
    exact bind_of_eq hfill _

/-- A matching interface makes the device ready if there is an endpoint behind it. -/
theorem parseInterface_value (protocol : BYTE) {i : Descriptor} {behind : List Descriptor}
    (hw : Config m addr w) (hlaid : Laid m pos (i :: behind))
    (hsize : pos + totalSize (i :: behind) = total.toNat) (hn : total.toNat ≤ fuel.walk)
    (hkind : i.byte 1 = usbDescriptorInterface) (driver confvalue : BYTE) :
    (¬(i.IsBoot protocol ∧ (firstOf usbDescriptorEndpoint behind).isSome) ∧ ∃ r w',
      parseInterface fuel driver protocol addr confvalue total pos w = .ok r w' ∧
        (r = .inr false ∨ r = .inl total.toNat)) ∨
    (i.IsBoot protocol ∧ (firstOf usbDescriptorEndpoint behind).isSome ∧ ∃ w', w'.chip = w.chip ∧
      parseInterface fuel driver protocol addr confvalue total pos w =
        (configure fuel addr confvalue (i.byte 2) >>= fun b => pure (.inr b)) w') := by
  have hlength := i.interface_length hkind
  have hboot : IsBootInterface m protocol pos ↔ i.IsBoot protocol := by
    rw [IsBootInterface, hlaid.1 5 (by omega), hlaid.1 6 (by omega), hlaid.1 7 (by omega)]
    rfl
  by_cases h : i.IsBoot protocol
  · obtain ⟨w₁, s₁, t₁, hr⟩ := parseInterface_run hw (hboot.mpr h) fuel driver confvalue total
    rw [hlaid.1 2 (by omega)] at t₁
    rw [totalSize_cons] at hsize
    have hrecord : (entered w.host.devtable driver addr addr).epinfo = some .hidEp := by
      simp [entered]
    obtain ⟨hnone, w', hloop⟩ | ⟨hsome, w', hchip, hloop⟩ := endpointLoop_value fuel
      (s₁.mem ▸ hw.1) t₁ hrecord confvalue (hlaid.next ▸ hlaid.2) (by rw [hlaid.next]; omega) hn
    · refine .inl ⟨fun hboth => ?_, _, w', hr.trans hloop, .inr rfl⟩
      rw [hnone] at hboth
      cases hboth.2
    · exact .inr ⟨h, hsome, w', hchip.trans s₁.chip, hr.trans hloop⟩
  · obtain ⟨w', hr⟩ : ∃ w', parseInterface fuel driver protocol addr confvalue total pos w =
        .ok (.inr false) w' := parseInterface_other hw fun hb => h (hboot.mp hb)
    exact .inl ⟨fun hboth => h hboth.1, _, w', hr, .inl rfl⟩

/-- The loop over the interfaces of a list without one. -/
theorem interfaceLoop_none (hw : Config m addr w) (hlaid : Laid m 0 ds)
    (hsize : 0 + totalSize ds = total.toNat) (hn : total.toNat ≤ fuel.walk)
    (hfirst : firstOf usbDescriptorInterface ds = none) (driver protocol confvalue : BYTE) :
    ∃ w', interfaceLoop fuel driver protocol addr confvalue total 0 w = .ok false w' := by
  obtain ⟨k, hk, hreach⟩ := (hlaid.ends hsize hfirst).rounds (χ := χ)
  have hle := hk (hlaid.advances hsize)
  obtain ⟨n, hn'⟩ : ∃ n', fuel.walk = n' + k := ⟨fuel.walk - k, by omega⟩
  obtain ⟨w', -, hrest⟩ := hreach _ _ _ w hw.1
  refine ⟨w', ?_⟩
  rw [interfaceLoop, hn']
  exact (hrest n).trans (skipLoop_end (Nat.le_refl _) n w')

/-- The loop gets to the first interface. -/
theorem interfaceLoop_first {i : Descriptor} {behind : List Descriptor} (hw : Config m addr w)
    (hlaid : Laid m 0 ds) (hsize : 0 + totalSize ds = total.toNat)
    (hn : total.toNat ≤ fuel.walk)
    (hfirst : firstOf usbDescriptorInterface ds = some (i, behind))
    (driver protocol confvalue : BYTE) :
    ∃ a n w', Looked w w' ∧ Laid m a (i :: behind) ∧
      a + totalSize (i :: behind) = total.toNat ∧ i.byte 1 = usbDescriptorInterface ∧
      interfaceLoop fuel driver protocol addr confvalue total 0 w =
        (parseInterface fuel driver protocol addr confvalue total a >>=
          Sum.elim (skipLoop total.toNat usbDescriptorInterface (parseInterface fuel driver protocol
            addr confvalue total) (fun _ => pure false) n) pure) w' := by
  obtain ⟨a, hskips, hlt, hkind, hlaid', hsize'⟩ := hlaid.finds hsize hfirst
  obtain ⟨k, hk, hreach⟩ := hskips.rounds (χ := χ)
  have hle := hk (hlaid.advances hsize)
  obtain ⟨n, hn'⟩ : ∃ n', fuel.walk = n' + 1 + k := ⟨fuel.walk - k - 1, by omega⟩
  obtain ⟨w₁, s₁, hrest⟩ := hreach _ _ _ w hw.1
  obtain ⟨w₂, s₂, hfound⟩ := skipLoop_found hlt (s₁.mem ▸ hw.1) hkind n
  refine ⟨a, n, w₂, s₁.trans s₂, hlaid', hsize', hlaid'.type.symm.trans hkind, ?_⟩
  rw [interfaceLoop, hn']
  exact (hrest (n + 1)).trans hfound

/-- The loop over the interfaces ends as the search in the list does. -/
theorem interfaceLoop_value (hw : Config m addr w) (hlaid : Laid m 0 ds)
    (hsize : 0 + totalSize ds = total.toNat) (hn : total.toNat ≤ fuel.walk)
    (driver protocol confvalue : BYTE) :
    value? (interfaceLoop fuel driver protocol addr confvalue total 0 w) =
      match recognise protocol ds with
      | some (i, _) => value? (configure fuel addr confvalue (i.byte 2) w)
      | none => some false := by
  cases hfirst : firstOf usbDescriptorInterface ds with
  | none =>
    obtain ⟨w', hloop⟩ :=
      interfaceLoop_none hw hlaid hsize hn hfirst driver protocol confvalue
    rw [hloop, recognise, hfirst]
    rfl
  | some found =>
    obtain ⟨i, behind⟩ := found
    obtain ⟨a, n, w₁, s₁, hlaid', hsize', hkind, hloop⟩ :=
      interfaceLoop_first hw hlaid hsize hn hfirst driver protocol confvalue
    obtain ⟨hno, r, w₂, hparse, hr⟩ | ⟨hboot, hsome, w₂, hchip, hparse⟩ :=
      parseInterface_value protocol ⟨s₁.mem ▸ hw.1, s₁.host ▸ hw.2⟩ hlaid' hsize' hn hkind
        driver confvalue
    -- the first interface decides: no later one is looked at
    · have hvalue : interfaceLoop fuel driver protocol addr confvalue total 0 w =
          .ok false w₂ := by
        rw [hloop, bind_of_ok hparse]
        obtain rfl | rfl := hr
        · rfl
        · exact skipLoop_end (Nat.le_refl _) n w₂
      have hnone : recognise protocol ds = none := by
        rw [recognise_of_first hfirst]
        split
        · next hboot =>
          cases hend : firstOf usbDescriptorEndpoint behind with
          | none => rfl
          | some found => exact absurd ⟨hboot, by rw [hend]; rfl⟩ hno
        · rfl
      rw [hvalue, hnone]
      rfl
    · obtain ⟨found, hend⟩ := Option.isSome_iff_exists.mp hsome
      have hvalue : interfaceLoop fuel driver protocol addr confvalue total 0 w =
          configure fuel addr confvalue (i.byte 2) w₂ := by
        rw [hloop, bind_of_eq hparse]
        simp only [bind_assoc, pure_bind, Sum.elim_inr, bind_pure]
      rw [hvalue, recognise_of_first hfirst, if_pos hboot, hend]
      exact configure_value (hchip.trans s₁.chip) _ _

end Walk

/-- A probe ends as the search in the list does. -/
theorem hidProbe_value {c : Configuration} (driver protocol : BYTE) (hret : Returned c fuel addr w)
    (hfuel : totalSize c.descriptors ≤ fuel.walk) :
    value? (hidProbe driver protocol fuel addr w) =
      match recognise protocol c.descriptors with
      | some (i, _) => value? (configure fuel addr (c.config.byte 5) (i.byte 2)
          (final (readConfiguration fuel addr w)))
      | none => some false := by
  obtain ⟨hread, hlaid⟩ := hret.read
  obtain ⟨hconfig, hrun⟩ := hidProbe_walk driver protocol hread fuel.walk
  have hsize : 0 + totalSize c.descriptors = (c.config.word 2).toNat := by
    rw [Nat.zero_add]
    exact c.wTotalLength.symm
  have hwalk : hidProbe driver protocol fuel addr w = interfaceLoop fuel driver protocol addr
      (c.config.byte 5) (c.config.word 2) 0 (final (readConfiguration fuel addr w)) := hrun
  rw [hwalk]
  exact interfaceLoop_value hconfig hlaid hsize (by omega) driver protocol (c.config.byte 5)

/-! ## The probes -/

/-- The probe finds what it looks for, and the device can be made ready. -/
def Accepts (protocol : BYTE) (c : Configuration) (fuel : Fuel) (addr : BYTE) (w : World χ) :
    Prop :=
  ∃ i e, recognise protocol c.descriptors = some (i, e) ∧
    Configures fuel addr (c.config.byte 5) (i.byte 2) (final (readConfiguration fuel addr w))

/-- The fields of the endpoint are in `epinfo[1]`, with `size` of it as the packet size, and the
number of the interface and the address in `hid_device`. -/
def Copied (protocol : BYTE) (c : Configuration) (size : Descriptor → WORD) (addr : BYTE)
    (w : World χ) : Prop :=
  ∃ i e r, recognise protocol c.descriptors = some (i, e) ∧
    value? (epRecord addr 1 w) = some r ∧ r.epAddr = e.byte 2 ∧ r.attr = e.byte 3 ∧
    r.maxPktSize = size e ∧ r.interval = e.byte 6 ∧ w.host.hidDevice = ⟨addr, i.byte 2⟩

/-- The probe takes the devices that it should, and then has the fields of the endpoint descriptor
in `epinfo[1]`. -/
structure Recognises (protocol : BYTE) (probe : Fuel → BYTE → Prog χ Bool) (c : Configuration)
    (fuel : Fuel) (addr : BYTE) (w : World χ) : Prop where
  true_iff : value? (probe fuel addr w) = some true ↔ Accepts protocol c fuel addr w
  copied : value? (probe fuel addr w) = some true →
    Copied protocol c (fun e => e.word 4) addr (final (probe fuel addr w))

/-- The load of `wMaxPacketSize` gives the word: the field does not start in the last byte of a word
of the memory, or its two bytes are the same. -/
def SizeReadable (protocol : BYTE) (c : Configuration) : Prop :=
  ∀ i e, recognise protocol c.descriptors = some (i, e) →
    (c.endpointStart + 4) % 4 ≠ 3 ∨ e.byte 5 = e.byte 4

theorem hidProbe_true_iff {c : Configuration} (driver protocol : BYTE)
    (hret : Returned c fuel addr w) (hfuel : totalSize c.descriptors ≤ fuel.walk) :
    value? (hidProbe driver protocol fuel addr w) = some true ↔ Accepts protocol c fuel addr w := by
  rw [hidProbe_value driver protocol hret hfuel, Accepts]
  cases recognise protocol c.descriptors with
  | none => exact ⟨nofun, fun ⟨_, _, h, _⟩ => nomatch h⟩
  | some found =>
    obtain ⟨i, e⟩ := found
    refine (configure_true_iff _ _).trans ⟨fun h => ⟨i, e, rfl, h⟩, ?_⟩
    rintro ⟨_, _, ⟨⟩, h⟩
    exact h

theorem hidProbe_copied {c : Configuration} {driver protocol : BYTE}
    (hret : Returned c fuel addr w) (hfuel : totalSize c.descriptors ≤ fuel.walk)
    (hr : value? (hidProbe driver protocol fuel addr w) = some true) :
    Copied protocol c (fun e => e.wordRead c.endpointStart 4) addr
      (final (hidProbe driver protocol fuel addr w)) := by
  obtain ⟨i, e, hrec, -⟩ := (hidProbe_true_iff driver protocol hret hfuel).mp hr
  obtain ⟨behind, rest, hfirst, -, hend⟩ := recognise_eq_some hrec
  obtain ⟨hread, hlaid⟩ := hret.read
  have hok := eq_ok_of_value? hr
  obtain ⟨total, pos, pos', ⟨⟨confvalue, hread'⟩, hfinds⟩, ⟨-, hdevice⟩, hfinds', hdescr⟩ :=
    hidProbe_true hok
  have hsame := hread'.symm.trans hread
  simp only [Option.some.injEq, Prod.mk.injEq] at hsame
  obtain ⟨rfl, -⟩ := hsame
  -- the probe stopped where the search does
  have hsize : 0 + totalSize c.descriptors = (c.config.word 2).toNat := by
    rw [Nat.zero_add]
    exact c.wTotalLength.symm
  obtain ⟨a, hskips, -, hkind, hlaid', hsize'⟩ := hlaid.finds hsize hfirst
  obtain rfl := hfinds.eq hskips (not_skipped_of_kind hkind)
  rw [totalSize_cons] at hsize'
  have hbehind : Laid (configuration fuel addr w) (nextDescr (configuration fuel addr w) pos)
      behind := hlaid'.next ▸ hlaid'.2
  have hsize'' : nextDescr (configuration fuel addr w) pos + totalSize behind =
      (c.config.word 2).toNat := by rw [hlaid'.next]; omega
  obtain ⟨b, hskips', hlt', hkind', hlaid'', hend_size⟩ := hbehind.finds hsize'' hend
  obtain rfl := hfinds'.eq ⟨hskips', hlt', hkind'⟩
  have hi := i.interface_length (hlaid'.type.symm.trans hkind)
  have he := e.endpoint_length (hlaid''.type.symm.trans hkind')
  refine ⟨i, e, _, hrec, congrArg value? (hidProbe_epRecord hok), ?_⟩
  refine ⟨?_, ?_, ?_, ?_, ?_⟩
  · rw [hdescr.epAddr, hlaid''.1 2 (by omega)]
  · rw [hdescr.attr, hlaid''.1 3 (by omega)]
  · have hstart : c.endpointStart = pos' := by
      rw [c.endpointStart_eq hfirst hend]
      omega
    have hhigh : highByte pos' 4 < e.bytes.length := by
      have := List.mem_cons.mp (highByte_mem pos' 4)
      simp only [List.mem_singleton] at this
      omega
    rw [hdescr.maxPktSize, hstart, wordRead, hlaid''.1 _ hhigh, hlaid''.1 4 (by omega)]
    rfl
  · rw [hdescr.interval, hlaid''.1 6 (by omega)]
  · rw [hdevice, hlaid'.1 2 (by omega)]

omit [Platform χ] in
/-- The record holds the size of the descriptor only where the load gives it. -/
theorem Copied.readable {protocol : BYTE} {c : Configuration}
    (hread : Copied protocol c (fun e => e.wordRead c.endpointStart 4) addr w)
    (hword : Copied protocol c (fun e => e.word 4) addr w) : SizeReadable protocol c := by
  obtain ⟨i, e, r, hrec, hr, -, -, hsize, -⟩ := hread
  obtain ⟨i', e', r', hrec', hr', -, -, hsize', -⟩ := hword
  cases hrec.symm.trans hrec'
  cases hr.symm.trans hr'
  intro i' e' hrec''
  cases hrec.symm.trans hrec''
  exact Descriptor.readable_iff.mp (hsize.symm.trans hsize')

omit [Platform χ] in
theorem Copied.of_readable {protocol : BYTE} {c : Configuration}
    (hread : Copied protocol c (fun e => e.wordRead c.endpointStart 4) addr w)
    (h : SizeReadable protocol c) : Copied protocol c (fun e => e.word 4) addr w := by
  obtain ⟨i, e, r, hrec, hr, hepAddr, hattr, hsize, hrest⟩ := hread
  exact ⟨i, e, r, hrec, hr, hepAddr, hattr,
    hsize.trans (Descriptor.readable_iff.mpr (h i e hrec)), hrest⟩

theorem hidProbe_recognises_iff {c : Configuration} (driver protocol : BYTE)
    (hret : Returned c fuel addr w) (hfuel : totalSize c.descriptors ≤ fuel.walk) :
    Recognises protocol (hidProbe driver protocol) c fuel addr w ↔
      (Accepts protocol c fuel addr w → SizeReadable protocol c) := by
  have htrue := hidProbe_true_iff driver protocol hret hfuel
  constructor
  · intro h hacc
    have hr := htrue.mpr hacc
    exact (hidProbe_copied hret hfuel hr).readable (h.copied hr)
  · intro h
    refine ⟨htrue, fun hr => ?_⟩
    exact (hidProbe_copied hret hfuel hr).of_readable (h (htrue.mp hr))

/-- The probes take exactly the configurations that begin with the boot interface of their device,
with an endpoint behind it, if the device can be made ready. None is taken by both. The packet size
is the one of the endpoint if and only if the processor can load it from where it lies. -/
theorem probes_recognise_iff (c : Configuration) (fuel : Fuel) (addr : BYTE)
    (hfuel : totalSize c.descriptors ≤ fuel.walk) :
    (∀ w : World χ, Returned c fuel addr w →
      ((Recognises hidProtocolKeyboard hidkProbe c fuel addr w ↔
          (Accepts hidProtocolKeyboard c fuel addr w → SizeReadable hidProtocolKeyboard c)) ∧
        (Recognises hidProtocolMouse hidmProbe c fuel addr w ↔
          (Accepts hidProtocolMouse c fuel addr w → SizeReadable hidProtocolMouse c))) ∧
      ((value? (hidkProbe fuel addr w) = some true ↔ Accepts hidProtocolKeyboard c fuel addr w) ∧
        (value? (hidkProbe fuel addr w) = some true →
          Copied hidProtocolKeyboard c (fun e => e.wordRead c.endpointStart 4) addr
            (final (hidkProbe fuel addr w)))) ∧
      (value? (hidmProbe fuel addr w) = some true ↔ Accepts hidProtocolMouse c fuel addr w) ∧
        (value? (hidmProbe fuel addr w) = some true →
          Copied hidProtocolMouse c (fun e => e.wordRead c.endpointStart 4) addr
            (final (hidmProbe fuel addr w)))) ∧
    ∀ addr' (w w' : World χ), Returned c fuel addr w → Returned c fuel addr' w' →
      ¬(value? (hidkProbe fuel addr w) = some true ∧
        value? (hidmProbe fuel addr' w') = some true) := by
  constructor
  · intro w hret
    exact ⟨⟨hidProbe_recognises_iff _ _ hret hfuel, hidProbe_recognises_iff _ _ hret hfuel⟩,
      ⟨hidProbe_true_iff _ _ hret hfuel, hidProbe_copied hret hfuel⟩,
      hidProbe_true_iff _ _ hret hfuel, hidProbe_copied hret hfuel⟩
  · intro addr' w w' hret hret' hboth
    obtain ⟨i, e, hrec, -⟩ := (hidProbe_true_iff hidK hidProtocolKeyboard hret hfuel).mp hboth.1
    obtain ⟨i', e', hrec', -⟩ := (hidProbe_true_iff hidM hidProtocolMouse hret' hfuel).mp hboth.2
    obtain ⟨behind, -, hfirst, hboot, -⟩ := recognise_eq_some hrec
    obtain ⟨behind', -, hfirst', hboot', -⟩ := recognise_eq_some hrec'
    cases hfirst.symm.trans hfirst'
    exact absurd (hboot.2.2.symm.trans hboot'.2.2) (by decide)

end Requests

/-! ## A keyboard -/

/-- The configuration of a boot keyboard. -/
def keyboardDescriptors : Configuration where
  config := ⟨[9, 2, 25, 0, 1, 1, 0, 0xa0, 50], by decide, by decide, by decide, by decide⟩
  rest := [⟨[9, 4, 0, 0, 1, 3, 1, 1, 0], by decide, by decide, by decide, by decide⟩,
    ⟨[7, 5, 0x81, 3, 8, 0, 10], by decide, by decide, by decide, by decide⟩]
  config_type := by decide
  config_length := by decide
  wTotalLength := by decide
  le := by decide

instance (bytes : List BYTE) (n : WORD) (fuel : Fuel) (addr : BYTE) (w : World Script) :
    Decidable (Delivered bytes n fuel addr w) := inferInstanceAs (Decidable (_ ∧ _))

theorem keyboard_recognised :
    Recognises hidProtocolKeyboard hidkProbe keyboardDescriptors ⟨9, 9, 9, 25, 9⟩ 1
      (keyboardReplies keyboardConfiguration) := by
  have hiff := ((probes_recognise_iff (χ := Script) keyboardDescriptors ⟨9, 9, 9, 25, 9⟩ 1
    (by decide)).1 (keyboardReplies keyboardConfiguration)
    ⟨by decide +kernel, by decide +kernel⟩).1.1
  -- the endpoint descriptor starts at 18
  exact hiff.mpr fun _ _ _ _ => .inl (by decide)

/-- The configuration of a boot keyboard with the HID descriptor that real ones have, so that its
endpoint descriptor starts at 27. -/
def hidKeyboardDescriptors : Configuration where
  config := ⟨[9, 2, 34, 0, 1, 1, 0, 0xa0, 50], by decide, by decide, by decide, by decide⟩
  rest := [⟨[9, 4, 0, 0, 1, 3, 1, 1, 0], by decide, by decide, by decide, by decide⟩,
    ⟨[9, 0x21, 0x11, 1, 0, 1, 0x22, 63, 0], by decide, by decide, by decide, by decide⟩,
    ⟨[7, 5, 0x81, 3, 8, 0, 10], by decide, by decide, by decide, by decide⟩]
  config_type := by decide
  config_length := by decide
  wTotalLength := by decide
  le := by decide

/-- The probe takes it, and has 0x0808 for the packet size 8. -/
theorem size_misread :
    Returned hidKeyboardDescriptors ⟨9, 9, 9, 34, 9⟩ 1 (keyboardReplies
      hidKeyboardDescriptors.bytes) ∧
    value? (hidkProbe ⟨9, 9, 9, 34, 9⟩ 1 (keyboardReplies hidKeyboardDescriptors.bytes)) =
      some true ∧
    value? (epRecord 1 1 (final (hidkProbe ⟨9, 9, 9, 34, 9⟩ 1 (keyboardReplies
      hidKeyboardDescriptors.bytes)))) = some ⟨0x81, 3, 0x0808, 10, bmSNDTOG0, bmRCVTOG0⟩ ∧
    ¬Recognises hidProtocolKeyboard hidkProbe hidKeyboardDescriptors ⟨9, 9, 9, 34, 9⟩ 1
      (keyboardReplies hidKeyboardDescriptors.bytes) := by
  have htrue : value? (hidkProbe ⟨9, 9, 9, 34, 9⟩ 1 (keyboardReplies
      hidKeyboardDescriptors.bytes)) = some true := by decide +kernel
  have hrecord : value? (epRecord 1 1 (final (hidkProbe ⟨9, 9, 9, 34, 9⟩ 1 (keyboardReplies
      hidKeyboardDescriptors.bytes)))) = some ⟨0x81, 3, 0x0808, 10, bmSNDTOG0, bmRCVTOG0⟩ := by
    decide +kernel
  refine ⟨⟨by decide +kernel, by decide +kernel⟩, htrue, hrecord, fun h => ?_⟩
  obtain ⟨i, e, r, hrec, hr, -, -, hsize, -⟩ := h.copied htrue
  cases hrecord.symm.trans hr
  cases (rfl : recognise hidProtocolKeyboard hidKeyboardDescriptors.descriptors =
    some (_, _)).symm.trans hrec
  exact absurd hsize (by decide)

end TetrisFpga.Usb
