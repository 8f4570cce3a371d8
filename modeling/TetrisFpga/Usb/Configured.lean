import TetrisFpga.Usb.Answered
import TetrisFpga.Usb.Recognise

/-!
# A boot device is configured

The probe for the protocol of a boot device reads its configuration, enters it and makes it ready.
The other probe leaves it alone.

## Main results

- `hidProbe_accepts`, `hidProbe_passes`: the two probes
- `configuringTask_serves`: the task in the state CONFIGURING
-/

namespace TetrisFpga.Usb
open Program

/-- A device that answers for its descriptors: the packet size is the last of the eight bytes that
are asked for first, and of the configuration it sends as much as it is asked for. The search for
the protocol finds the interface `i` and the endpoint `e`. -/
structure IsBootDevice (dev : Device) (protocol : BYTE) (c : Configuration) (i e : Descriptor) :
    Prop where
  size : ∃ data, dev.answer (requestBytes bmReqGetDescr usbRequestGetDescriptor 0x00
    usbDescriptorDevice 0x0000 8) = some data ∧ data.length = 8 ∧ data.getD 7 0 = dev.maxPacketSize
  config : ∀ n : WORD, n.toNat ≤ c.bytes.length → dev.answer (requestBytes bmReqGetDescr
    usbRequestGetDescriptor 0x00 usbDescriptorConfiguration 0x0000 n) = some (c.bytes.take n.toNat)
  recognised : recognise protocol c.descriptors = some (i, e)

/-- The host knows the size of the packets on the control pipe of the device at `a`. -/
def Sized (dev : Device) (a : BYTE) (h : Host) : Prop :=
  ∃ t, (h.devtable a).epinfo = some t ∧
    ((h.eps t 0).maxPktSize.setWidth 8 : BYTE) = dev.maxPacketSize

theorem Sized.pipe {dev : Device} {a : BYTE} {h : Host} (hs : Sized dev a h) (n : ℕ) :
    ControlPipe dev a n h := by
  obtain ⟨t, hrecord, hsize⟩ := hs
  refine ⟨t, hrecord, ?_, .inl hsize⟩
  rw [hsize]
  exact dev.eight_le

theorem Toggled.sized {dev : Device} {a : BYTE} {h h' : Host} (ht : Toggled h h')
    (hs : Sized dev a h) : Sized dev a h' := by
  obtain ⟨f, rfl, -⟩ := ht
  exact hs

section Configured

variable {χ : Type} [Platform χ] {dev : Device} {pace : Pace} {At : Moment → Time → χ → Prop}
variable {fuel : Fuel} {a : BYTE} {n : ℕ}

/-! ## The configuration -/

/-- A request for the configuration brings the bytes that were asked for. -/
theorem getConfDescr_serves (h : Serves dev pace At) (hf : Enough pace fuel) {protocol : BYTE}
    {c : Configuration} {i e : Descriptor} (hboot : IsBootDevice dev protocol c i e) {nbytes : WORD}
    (hn : nbytes.toNat ≤ c.bytes.length) {w : World χ} (hw : Serving At a n w)
    (hsized : Sized dev a w.host) :
    ∃ w', xferGetConfDescr fuel a 0 nbytes 0 ⟨.bigbuf, 0⟩ w = .ok 0 w' ∧ Serving At a n w' ∧
      Toggled w.host w'.host ∧ ∀ k < nbytes.toNat, w'.mem .bigbuf (k : ℕ) = c.bytes.getD k 0 := by
  have hle : c.bytes.length ≤ 256 := c.le
  obtain ⟨rcode, w', hr, hserving, htoggled, hdata⟩ := xferCtrlReq_reads h hf
    (by decide : bmReqGetDescr &&& 0x80 ≠ 0) (by omega) ⟨.bigbuf, 0⟩ hw (hsized.pipe nbytes.toNat)
  obtain ⟨rfl, hcontains⟩ := hdata _ (hboot.config nbytes hn)
  refine ⟨w', hr, hserving, htoggled, fun k hk => ?_⟩
  have hlength : (c.bytes.take nbytes.toNat).length = nbytes.toNat := by
    rw [List.length_take]
    omega
  have hbyte := hcontains hlength k (by omega)
  rw [List.getD_eq_getElem?_getD, List.getElem?_take_of_lt hk, ← List.getD_eq_getElem?_getD,
    Int.zero_add] at hbyte
  exact hbyte

/-- A probe gets the whole configuration. -/
theorem readConfiguration_serves (h : Serves dev pace At) (hf : Enough pace fuel) {protocol : BYTE}
    {c : Configuration} {i e : Descriptor} (hboot : IsBootDevice dev protocol c i e) {w : World χ}
    (hw : Serving At a n w) (hsized : Sized dev a w.host) :
    ∃ w', readConfiguration fuel a w = .ok (some (c.config.word 2, c.config.byte 5)) w' ∧
      Serving At a n w' ∧ Toggled w.host w'.host ∧ Laid (w'.mem .bigbuf) 0 c.descriptors := by
  have hsize : c.bytes.length = 9 + totalSize c.rest := by
    rw [← c.config_length]
    exact totalSize_cons _ _
  have hle : c.bytes.length ≤ 256 := c.le
  have htotal : (c.config.word 2).toNat = c.bytes.length := c.wTotalLength
  have hnine : confDescrLen.toNat = 9 := rfl
  obtain ⟨w₁, hr₁, hserving₁, htoggled₁, hbytes₁⟩ :=
    getConfDescr_serves h hf hboot (by omega : confDescrLen.toNat ≤ _) hw hsized
  have hfield (k : ℕ) (hk : k < 9) : field (w₁.mem .bigbuf) 0 k = c.config.byte k := by
    rw [← c.getD_bytes hk, field, descr, ← hbytes₁ k hk]
    simp
  have hlength : wordRead (w₁.mem .bigbuf) 0 2 = c.config.word 2 := by
    rw [wordRead_of_aligned (by decide), wordField, hfield 3 (by omega), hfield 2 (by omega)]
    rfl
  obtain ⟨w₂, hr₂, hlook₂⟩ := looked_word (rfl : w₁.mem .bigbuf = _) 0 2
  rw [hlength] at hr₂
  have hserving₂ : Serving At a n w₂ := hserving₁.of_chip hlook₂.chip
  obtain ⟨w₃, hr₃, hserving₃, htoggled₃, hbytes₃⟩ := getConfDescr_serves h hf hboot
    (by omega : (c.config.word 2).toNat ≤ _) hserving₂ (hlook₂.host ▸ htoggled₁.sized hsized)
  have hlaid : Laid (w₃.mem .bigbuf) 0 c.descriptors := by
    refine laid_of_bytes fun k hk => ?_
    rw [Nat.zero_add]
    exact hbytes₃ k (htotal ▸ hk)
  have hvalue : field (w₃.mem .bigbuf) 0 5 = c.config.byte 5 :=
    hlaid.1 5 (by have := c.config_length; omega)
  obtain ⟨w₄, hr₄, hlook₄⟩ := looked_field (rfl : w₃.mem .bigbuf = _) 0 5
  rw [hvalue] at hr₄
  refine ⟨w₄, ?_, hserving₃.of_chip hlook₄.chip, ?_, hlook₄.mem ▸ hlaid⟩
  · have hnot : ¬(c.config.word 2 > 256) := by
      rw [gt_iff_lt, BitVec.lt_def]
      have : (256 : WORD).toNat = 256 := rfl
      omega
    rw [readConfiguration, bind_of_ok hr₁, if_neg (not_not_intro rfl), bind_of_ok hr₂]
    simp only [if_neg hnot]
    rw [bind_of_ok hr₃, if_neg (not_not_intro rfl), bind_of_ok hr₄]
    rfl
  · rw [hlook₄.host]
    exact htoggled₁.trans (hlook₂.host ▸ htoggled₃)

end Configured

/-! ## The device is entered -/

section Entered

variable {χ : Type}

/-- The table, the records and the HID device of `h'` are those of the device at `addr`, whose first
record has the size that `t` had; nothing else has changed. -/
def Enters (driver addr : BYTE) (t : EpTable) (interface : BYTE) (h h' : Host) : Prop :=
  ∃ E, h' = { h with
      devtable := entered h.devtable driver addr, eps := E, hidDevice := ⟨addr, interface⟩ } ∧
    (E .hidEp 0).maxPktSize = ((h.eps t 0).maxPktSize.setWidth 8).setWidth 16 ∧
    (NoReset h → NoReset h')

theorem assigned (f : Host → Host) (w : World χ) :
    ∃ w', setHost f w = .ok () w' ∧ Stays w w' ∧ w'.host = f w.host :=
  ⟨_, rfl, ⟨rfl, rfl, [.host (f w.host)], rfl⟩, rfl⟩

theorem assigned_ep {addr ep : BYTE} {t : EpTable} {w : World χ}
    (hrecord : (w.host.devtable addr).epinfo = some t) (hep : ep.toNat < t.size)
    (f : EpRecord → EpRecord) :
    ∃ w', setEpRecord addr ep f w = .ok () w' ∧ Stays w w' ∧ w'.host = w.host.setEp t ep f := by
  exact ⟨_, setEpRecord_run hrecord hep, ⟨rfl, rfl, [.host _, .access addr ep], rfl⟩, rfl⟩

/-- The device record is filled in. -/
theorem fillDevice_serves {m : ℤ → BYTE} {t : EpTable} {w : World χ} (hm : w.mem .bigbuf = m)
    {addr : BYTE} (hrecord : (w.host.devtable addr).epinfo = some t) (driver : BYTE) (pos : ℕ) :
    ∃ w', fillDevice driver addr pos w = .ok () w' ∧ Stays w w' ∧
      Enters driver addr t (field m pos 2) w.host w'.host := by
  have hfirst : (0 : BYTE).toNat < t.size := t.size_pos
  obtain ⟨w₁, hr₁, s₁, hhost₁⟩ :=
    assigned (fun h => h.setDev addr { h.devtable addr with devclass := driver }) w
  have hrecord₁ : (w₁.host.devtable addr).epinfo = some t := by
    rw [hhost₁, Host.setDev_self]
    exact hrecord
  have hlook₁ : Stays w₁ (w₁.accessed addr 0) := ⟨rfl, rfl, [.access addr 0], rfl⟩
  obtain ⟨w₂, hr₂, s₂, hhost₂⟩ := assigned
    (fun h => h.setEp .hidEp 1 fun r => { r with sndToggle := bmSNDTOG0 }) (w₁.accessed addr 0)
  obtain ⟨w₃, hr₃, s₃, hhost₃⟩ := assigned
    (fun h => h.setEp .hidEp 1 fun r => { r with rcvToggle := bmRCVTOG0 }) w₂
  obtain ⟨w₄, hr₄, s₄, hhost₄⟩ :=
    assigned (fun h => h.setDev addr { h.devtable addr with epinfo := some .hidEp }) w₃
  have hrecord₄ : (w₄.host.devtable addr).epinfo = some .hidEp := by rw [hhost₄, Host.setDev_self]
  obtain ⟨w₅, hr₅, s₅, hhost₅⟩ := assigned_ep hrecord₄ (by decide : (0 : BYTE).toNat < 2)
    fun r => { r with maxPktSize := ((w₁.host.eps t 0).maxPktSize.setWidth 8).setWidth 16 }
  have s₅ := s₁.trans (hlook₁.trans (s₂.trans (s₃.trans (s₄.trans s₅))))
  -- the table and the records are done here, and `hid_device` follows
  obtain ⟨w₆, hr₆, s₆⟩ := looked_field (s₅.mem ▸ hm) pos 2
  obtain ⟨w₇, hr₇, s₇, hhost₇⟩ := assigned
    (fun h => { h with hidDevice := { h.hidDevice with interface := field m pos 2 } }) w₆
  obtain ⟨w₈, hr₈, s₈, hhost₈⟩ := assigned
    (fun h => { h with hidDevice := { h.hidDevice with addr := addr } }) w₇
  have hinit : hidInit (w₁.accessed addr 0) = .ok () w₃ := (bind_of_ok hr₂ _).trans hr₃
  refine ⟨w₈, ?_, s₅.trans (s₆.stays.trans (s₇.trans s₈)), ?_⟩
  · rw [fillDevice, bind_of_ok hr₁, bind_of_ok (epRecord_run hrecord₁ hfirst), bind_of_ok hinit,
      bind_of_ok hr₄, bind_of_ok hr₅, bind_of_ok hr₆, bind_of_ok hr₇, hr₈]
  · obtain ⟨E, hhost⟩ : ∃ E, w₅.host =
        { w.host with devtable := entered w.host.devtable driver addr, eps := E } := by
      refine ⟨w₅.host.eps, ?_⟩
      have htable : w₅.host.devtable = entered w.host.devtable driver addr := by
        funext b
        -- `devclass` and `epinfo` of the entry, and no other entry
        by_cases hb : b = addr
        · simp [hhost₅, hhost₄, hhost₃, hhost₂, hhost₁, Host.setDev, Host.setEp, entered, hb]
        · simp [hhost₅, hhost₄, hhost₃, hhost₂, hhost₁, Host.setDev, Host.setEp, entered, hb]
      rw [← htable, hhost₅, hhost₄, hhost₃, hhost₂, World.accessed_host, hhost₁]
      rfl
    have heps : w₅.host.eps = E := by rw [hhost]
    refine ⟨E, ?_, ?_, fun hreset => ?_⟩
    · rw [hhost₈, hhost₇, s₆.host, hhost]
    · have hsame : w₁.host.eps = w.host.eps := by rw [hhost₁]; rfl
      rw [← heps, hhost₅, Host.setEp_self, hsame]
    · have hnoreset₂ : NoReset w₂.host := by
        rw [hhost₂]
        refine NoReset.setEp ?_ fun _ hr => hr
        rw [World.accessed_host, hhost₁]
        exact hreset
      have hnoreset₃ : NoReset w₃.host := by
        rw [hhost₃]
        refine hnoreset₂.setEp ?_
        exact fun _ _ => (by decide : bmRCVTOG0 &&& bmBUSRST = 0)
      have hnoreset₅ : NoReset w₅.host := by
        rw [hhost₅]
        refine NoReset.setEp ?_ fun _ hr => hr
        rw [hhost₄]
        exact hnoreset₃
      rw [hhost₈, hhost₇, s₆.host]
      exact hnoreset₅

end Entered

section Taken

variable {χ : Type} [Platform χ] {dev : Device} {pace : Pace} {At : Moment → Time → χ → Prop}
variable {fuel : Fuel} {a : BYTE} {n : ℕ}

/-- The endpoint is recorded, and the device is made ready. -/
theorem fillEndpoint_serves (h : Serves dev pace At) (hf : Enough pace fuel) {m : ℤ → BYTE}
    {w : World χ} (hm : w.mem .bigbuf = m) (hrecord : (w.host.devtable a).epinfo = some .hidEp)
    (hw : Serving At a n w) (confvalue : BYTE) (pos : ℕ) :
    ∃ w' E, fillEndpoint fuel a confvalue pos w = .ok true w' ∧ Serving At a n w' ∧
      w'.host = { w.host with eps := E } ∧ Describes m pos (E .hidEp 1) ∧
      E .hidEp 0 = w.host.eps .hidEp 0 ∧ (NoReset w.host → NoReset w'.host) := by
  have hep : (1 : BYTE).toNat < EpTable.hidEp.size := by decide
  obtain ⟨w₁, hr₁, s₁⟩ := looked_field hm pos 2
  obtain ⟨w₂, hr₂, s₂, hhost₂⟩ := assigned_ep (s₁.host ▸ hrecord) hep
    fun r => { r with epAddr := field m pos 2 }
  have s₂ := s₁.stays.trans s₂
  obtain ⟨w₃, hr₃, s₃⟩ := looked_field (s₂.mem ▸ hm) pos 3
  obtain ⟨w₄, hr₄, s₄, hhost₄⟩ := assigned_ep (w := w₃) (t := .hidEp)
    (by rw [s₃.host, hhost₂, s₁.host]; exact hrecord) hep fun r => { r with attr := field m pos 3 }
  have s₄ := s₂.trans (s₃.stays.trans s₄)
  obtain ⟨w₅, hr₅, s₅⟩ := looked_word (s₄.mem ▸ hm) pos 4
  obtain ⟨w₆, hr₆, s₆, hhost₆⟩ := assigned_ep (w := w₅) (t := .hidEp)
    (by rw [s₅.host, hhost₄, s₃.host, hhost₂, s₁.host]; exact hrecord) hep
    fun r => { r with maxPktSize := wordRead m pos 4 }
  have s₆ := s₄.trans (s₅.stays.trans s₆)
  obtain ⟨w₇, hr₇, s₇⟩ := looked_field (s₆.mem ▸ hm) pos 6
  obtain ⟨w₈, hr₈, s₈, hhost₈⟩ := assigned_ep (w := w₇) (t := .hidEp)
    (by rw [s₇.host, hhost₆, s₅.host, hhost₄, s₃.host, hhost₂, s₁.host]; exact hrecord) hep
    fun r => { r with interval := field m pos 6 }
  have s₈ := s₆.trans (s₇.stays.trans s₈)
  obtain ⟨w₉, hr₉, hserving₉, hhost₉, -⟩ :=
    xferSetConf_serves h hf confvalue (hw.of_chip s₈.chip)
  have hget : (getHost : Prog χ Host) w₉ = .ok w₉.host w₉ := rfl
  obtain ⟨w', hr', hserving', hhost', -⟩ :=
    xferSetProto_serves h hf w₉.host.hidDevice.interface bootProtocol hserving₉
  have hhost : w'.host = w.host.setEp .hidEp 1 fun r => { r with
      epAddr := field m pos 2
      attr := field m pos 3
      maxPktSize := wordRead m pos 4
      interval := field m pos 6 } := by
    rw [hhost', hhost₉, hhost₈, s₇.host, hhost₆, s₅.host, hhost₄, s₃.host, hhost₂, s₁.host,
      Host.setEp_setEp, Host.setEp_setEp, Host.setEp_setEp]
  refine ⟨w', w'.host.eps, ?_, hserving', ?_, ?_, ?_, fun hreset => ?_⟩
  · rw [fillEndpoint, bind_of_ok hr₁, bind_of_ok hr₂, bind_of_ok hr₃, bind_of_ok hr₄,
      bind_of_ok hr₅, bind_of_ok hr₆, bind_of_ok hr₇, bind_of_ok hr₈, bind_of_ok hr₉,
      if_neg (not_not_intro rfl), bind_of_ok hget, bind_of_ok hr']
    rfl
  · rw [hhost]
    rfl
  · rw [hhost]
    rw [Host.setEp_self]
    exact ⟨rfl, rfl, setWidth_wordRead m pos 4, rfl⟩
  · rw [hhost, Host.setEp_of_ne _ (by decide)]
  · rw [hhost]
    exact hreset.setEp fun _ hr => hr

/-! ## The probes -/

/-- The data of `r` are those of the endpoint descriptor, the size as far as its low byte: this is
what the polls use. -/
def DescribedBy (e : Descriptor) (r : EpRecord) : Prop :=
  r.epAddr = e.byte 2 ∧ r.attr = e.byte 3 ∧ r.maxPktSize.setWidth 8 = e.byte 4 ∧
    r.interval = e.byte 6

/-- The host `h'` has the device at the address `a`, and is as `h` was otherwise. -/
def Takes (dev : Device) (driver a : BYTE) (i e : Descriptor) (h h' : Host) : Prop :=
  ∃ E, h' = { h with
      devtable := entered h.devtable driver a, eps := E, hidDevice := ⟨a, i.byte 2⟩ } ∧
    DescribedBy e (E .hidEp 1) ∧
    ((E .hidEp 0).maxPktSize.setWidth 8 : BYTE) = dev.maxPacketSize ∧ NoReset h'

/-- The inner loop records the first endpoint and makes the device ready. -/
theorem endpointLoop_serves (h : Serves dev pace At) (hf : Enough pace fuel) {m : ℤ → BYTE}
    {w : World χ} (hm : w.mem .bigbuf = m) (hrecord : (w.host.devtable a).epinfo = some .hidEp)
    (hw : Serving At a n w) (confvalue : BYTE) {total : WORD} {k pos : ℕ}
    {ds rest : List Descriptor} {e : Descriptor} (hlaid : Laid m pos ds)
    (hsize : pos + totalSize ds = total.toNat)
    (hk : total.toNat ≤ k) (hfirst : firstOf usbDescriptorEndpoint ds = some (e, rest)) :
    ∃ w' E, endpointLoop fuel a confvalue total k pos w = .ok (.inr true) w' ∧ Serving At a n w' ∧
      w'.host = { w.host with eps := E } ∧ DescribedBy e (E .hidEp 1) ∧
      E .hidEp 0 = w.host.eps .hidEp 0 ∧ (NoReset w.host → NoReset w'.host) := by
  obtain ⟨b, hskips, hlt, hkind, hlaid', -⟩ := hlaid.finds hsize hfirst
  obtain ⟨j, hj, hrounds⟩ := hskips.rounds (χ := χ)
  have hle := hj (hlaid.advances hsize)
  -- `j` rounds go over the descriptors before it
  obtain ⟨k, rfl⟩ : ∃ k', k = k' + 1 + j := ⟨k - j - 1, by omega⟩
  obtain ⟨w₁, s₁, hrest⟩ := hrounds _ _ _ w hm
  obtain ⟨w₂, s₂, hfound⟩ := skipLoop_found hlt (s₁.mem ▸ hm) hkind k
  have s₂ := s₁.trans s₂
  obtain ⟨w', E, hr, hserving, hhost, hdescr, hzero, hreset⟩ := fillEndpoint_serves h hf
    (s₂.mem ▸ hm) (s₂.host ▸ hrecord) (hw.of_chip s₂.chip) confvalue b
  rw [s₂.host] at hhost hzero hreset
  have hseven := e.endpoint_length (hlaid'.type.symm.trans hkind)
  refine ⟨w', E, ?_, hserving, hhost, ⟨?_, ?_, ?_, ?_⟩, hzero, hreset⟩
  · have hfill : (do
        let found ← fillEndpoint fuel a confvalue b
        return .inr (.inr found) : Prog χ (ℕ ⊕ (ℕ ⊕ Bool))) w₂ = .ok (.inr (.inr true)) w' :=
      bind_of_ok hr _
    refine (hrest (k + 1)).trans (hfound.trans ?_)
    rw [bind_of_ok hfill]
    rfl
  · rw [hdescr.epAddr, hlaid'.1 2 (by omega)]
  · rw [hdescr.attr, hlaid'.1 3 (by omega)]
  · rw [hdescr.lowSize, hlaid'.1 4 (by omega)]
  · rw [hdescr.interval, hlaid'.1 6 (by omega)]

/-- The interface that is looked for is entered, with the endpoint behind it. -/
theorem parseInterface_serves (h : Serves dev pace At) (hf : Enough pace fuel) {m : ℤ → BYTE}
    {w : World χ} (hm : w.mem .bigbuf = m) (hsized : Sized dev a w.host) (hreset : NoReset w.host)
    (hw : Serving At a n w) (driver confvalue : BYTE) {protocol : BYTE} {total : WORD} {pos : ℕ}
    {behind rest : List Descriptor} {i e : Descriptor} (hlaid : Laid m pos (i :: behind))
    (hsize : pos + totalSize (i :: behind) = total.toNat) (htotal : total.toNat ≤ 256)
    (hkind : i.byte 1 = usbDescriptorInterface) (hboot : i.IsBoot protocol)
    (hfirst : firstOf usbDescriptorEndpoint behind = some (e, rest)) :
    ∃ w', parseInterface fuel driver protocol a confvalue total pos w = .ok (.inr true) w' ∧
      Serving At a n w' ∧ Takes dev driver a i e w.host w'.host := by
  have hnine := i.interface_length hkind
  have hfuel := hf.walk
  obtain ⟨t, hrecord, hpacket⟩ := hsized
  obtain ⟨w₁, hr₁, s₁⟩ := looked_field hm pos 5
  obtain ⟨w₂, hr₂, s₂⟩ := looked_field (s₁.mem ▸ hm) pos 6
  have s₂ := s₁.trans s₂
  obtain ⟨w₃, hr₃, s₃⟩ := looked_field (s₂.mem ▸ hm) pos 7
  have s₃ := s₂.trans s₃
  obtain ⟨w₄, hr₄, s₄, E, hhost₄, hzero, hreset₄⟩ :=
    fillDevice_serves (s₃.mem ▸ hm) (s₃.host ▸ hrecord) driver pos
  rw [s₃.host] at hhost₄ hzero hreset₄
  have s₄ := s₃.stays.trans s₄
  obtain ⟨w₅, hr₅, s₅⟩ := looked_field (s₄.mem ▸ hm) pos 0
  have hrecord₅ : (w₅.host.devtable a).epinfo = some .hidEp := by
    rw [s₅.host, hhost₄]
    simp [entered]
  have s₅' := s₄.trans s₅.stays
  rw [totalSize_cons] at hsize
  have hnext := hlaid.next
  obtain ⟨w', E', hr', hserving, hhost, hdescr, hzero', hreset'⟩ := endpointLoop_serves h hf
    (s₅'.mem ▸ hm) hrecord₅ (hw.of_chip s₅'.chip) confvalue (hnext ▸ hlaid.2 : Laid m _ behind)
    (by omega) (by omega : total.toNat ≤ fuel.walk) hfirst
  refine ⟨w', ?_, hserving, E', ?_, hdescr, ?_, ?_⟩
  · have hmatch : field m pos 5 = hidIntf ∧ field m pos 6 = bootIntfSubclass ∧
        field m pos 7 = protocol := by
      rw [hlaid.1 5 (by omega), hlaid.1 6 (by omega), hlaid.1 7 (by omega)]
      exact hboot
    rw [parseInterface, bind_of_ok hr₁, bind_of_ok hr₂, bind_of_ok hr₃, if_pos hmatch,
      bind_of_ok hr₄, bind_of_ok hr₅]
    exact hr'
  · rw [hhost, s₅.host, hhost₄, hlaid.1 2 (by omega)]
  -- the size for endpoint 0 went through one byte
  · have hwidth (size : WORD) :
        (((size.setWidth 8 : BYTE).setWidth 16 : WORD).setWidth 8 : BYTE) = size.setWidth 8 := by
      apply BitVec.eq_of_toNat_eq
      simp only [BitVec.toNat_setWidth]
      omega
    rw [hzero', s₅.host, hhost₄, hzero, hwidth]
    exact hpacket
  · exact hreset' (s₅.host ▸ hreset₄ hreset)

/-- The probe that looks for the protocol of the device takes it. -/
theorem hidProbe_accepts (h : Serves dev pace At) (hf : Enough pace fuel) {protocol : BYTE}
    {c : Configuration} {i e : Descriptor} (hboot : IsBootDevice dev protocol c i e) {w : World χ}
    (hsized : Sized dev a w.host) (hreset : NoReset w.host) (hw : Serving At a n w)
    (driver : BYTE) :
    ∃ w' h₁, hidProbe driver protocol fuel a w = .ok true w' ∧ Serving At a n w' ∧
      Toggled w.host h₁ ∧ Takes dev driver a i e h₁ w'.host := by
  obtain ⟨w₁, hr₁, hserving₁, htoggled, hlaid⟩ := readConfiguration_serves h hf hboot hw hsized
  obtain ⟨behind, rest, hfirst, hi, he⟩ := recognise_eq_some hboot.recognised
  have htotal : (c.config.word 2).toNat = totalSize c.descriptors := c.wTotalLength
  have hle : totalSize c.descriptors ≤ 256 := c.le
  have hfuel := hf.walk
  have hsized₁ := htoggled.sized hsized
  have hdev : (w₁.host.devtable a).epinfo ≠ none := by
    obtain ⟨t, hrecord, -⟩ := hsized₁
    rw [hrecord]
    nofun
  obtain ⟨pos, k, w₂, s₂, hlaid₂, hsize₂, hkind, hloop⟩ := interfaceLoop_first ⟨rfl, hdev⟩ hlaid
    (by omega : 0 + totalSize c.descriptors = (c.config.word 2).toNat) (by omega : _ ≤ fuel.walk)
    hfirst driver protocol (c.config.byte 5)
  have hm₂ : w₂.mem .bigbuf = w₁.mem .bigbuf := by rw [s₂.mem]
  obtain ⟨w', hr', hserving', htakes⟩ := parseInterface_serves h hf hm₂ (s₂.host ▸ hsized₁)
    (s₂.host ▸ htoggled.noReset hreset) (hserving₁.of_chip s₂.chip) driver (c.config.byte 5) hlaid₂
    hsize₂ (by omega) hkind hi he
  refine ⟨w', w₁.host, ?_, hserving', htoggled, s₂.host ▸ htakes⟩
  rw [hidProbe, bind_of_ok hr₁]
  refine hloop.trans ?_
  rw [bind_of_ok hr']
  rfl

/-- The probe that looks for another protocol leaves the device alone. -/
theorem hidProbe_passes (h : Serves dev pace At) (hf : Enough pace fuel) {protocol : BYTE}
    {c : Configuration} {i e : Descriptor} (hboot : IsBootDevice dev protocol c i e) {w : World χ}
    (hsized : Sized dev a w.host) (hw : Serving At a n w) (driver : BYTE) {other : BYTE}
    (hother : other ≠ protocol) :
    ∃ w', hidProbe driver other fuel a w = .ok false w' ∧ Serving At a n w' ∧
      Toggled w.host w'.host := by
  obtain ⟨w₁, hr₁, hserving₁, htoggled, hlaid⟩ := readConfiguration_serves h hf hboot hw hsized
  obtain ⟨behind, rest, hfirst, hi, he⟩ := recognise_eq_some hboot.recognised
  have htotal : (c.config.word 2).toNat = totalSize c.descriptors := c.wTotalLength
  have hle : totalSize c.descriptors ≤ 256 := c.le
  have hfuel := hf.walk
  obtain ⟨t, hrecord, -⟩ := htoggled.sized hsized
  obtain ⟨pos, k, w₂, s₂, hlaid₂, -, hkind, hloop⟩ := interfaceLoop_first
    ⟨rfl, by rw [hrecord]; nofun⟩ hlaid
    (by omega : 0 + totalSize c.descriptors = (c.config.word 2).toNat) (by omega : _ ≤ fuel.walk)
    hfirst driver other (c.config.byte 5)
  -- the class, the subclass and the protocol are looked at, and nothing else is done
  have hm₂ : w₂.mem .bigbuf = w₁.mem .bigbuf := by rw [s₂.mem]
  have hnine := i.interface_length hkind
  obtain ⟨w₃, hr₃, s₃⟩ := looked_field hm₂ pos 5
  obtain ⟨w₄, hr₄, s₄⟩ := looked_field (s₃.mem ▸ hm₂) pos 6
  have s₄ := s₃.trans s₄
  obtain ⟨w₅, hr₅, s₅⟩ := looked_field (s₄.mem ▸ hm₂) pos 7
  have s₅ := s₂.trans (s₄.trans s₅)
  have hnot : ¬(field (w₁.mem .bigbuf) pos 5 = hidIntf ∧
      field (w₁.mem .bigbuf) pos 6 = bootIntfSubclass ∧ field (w₁.mem .bigbuf) pos 7 = other) := by
    rintro ⟨-, -, hseven⟩
    rw [hlaid₂.1 7 (by omega)] at hseven
    exact hother (hseven.symm.trans hi.2.2)
  have hparse : parseInterface fuel driver other a (c.config.byte 5) (c.config.word 2) pos w₂ =
      .ok (.inr false) w₅ := by
    rw [parseInterface, bind_of_ok hr₃, bind_of_ok hr₄, bind_of_ok hr₅, if_neg hnot]
    rfl
  refine ⟨w₅, ?_, hserving₁.of_chip s₅.chip, s₅.host ▸ htoggled⟩
  rw [hidProbe, bind_of_ok hr₁]
  refine hloop.trans ?_
  rw [bind_of_ok hparse]
  rfl

/-! ## The task -/

/-- The boot devices that have a driver. -/
inductive BootKind
  | keyboard
  | mouse

namespace BootKind

def driver : BootKind → BYTE
  | keyboard => hidK
  | mouse => hidM

def protocol : BootKind → BYTE
  | keyboard => hidProtocolKeyboard
  | mouse => hidProtocolMouse

end BootKind

omit [Platform χ] in
theorem runProbes_false {probe : BYTE → Prog χ Bool} {w w' : World χ}
    (hr : probe w.host.tmpAddr w = .ok false w') (rest : List (BYTE → Prog χ Bool)) :
    runProbes (probe :: rest) w = runProbes rest w' := by
  have hget : (getHost : Prog χ Host) w = .ok w.host w := rfl
  rw [runProbes, bind_of_ok hget, bind_of_ok hr]
  rfl

omit [Platform χ] in
theorem runProbes_true {probe : BYTE → Prog χ Bool} {w w' : World χ}
    (hr : probe w.host.tmpAddr w = .ok true w') (rest : List (BYTE → Prog χ Bool)) :
    runProbes (probe :: rest) w = setUsbTaskState usbStateRunning w' := by
  have hget : (getHost : Prog χ Host) w = .ok w.host w := rfl
  rw [runProbes, bind_of_ok hget, bind_of_ok hr]
  rfl

/-- The device gets its driver, and the task runs. -/
theorem configuringTask_serves (h : Serves dev pace At) (hf : Enough pace fuel) {kind : BootKind}
    {c : Configuration} {i e : Descriptor} (hboot : IsBootDevice dev kind.protocol c i e)
    {w : World χ} (haddr : w.host.tmpAddr = a) (hsized : Sized dev a w.host)
    (hreset : NoReset w.host) (hw : Serving At a n w) :
    ∃ w' h₁ h₂, configuringTask fuel w = .ok () w' ∧ Serving At a n w' ∧ Toggled w.host h₁ ∧
      Takes dev kind.driver a i e h₁ h₂ ∧
      w'.host = { h₂ with usbTaskState := usbStateRunning } := by
  have hprobes : ∃ w₁ h₁, runProbes (clientDriverTable fuel) w =
      setUsbTaskState usbStateRunning w₁ ∧ Serving At a n w₁ ∧ Toggled w.host h₁ ∧
      Takes dev kind.driver a i e h₁ w₁.host := by
    have hnone : (pure false : Prog χ Bool) w = .ok false w := rfl
    rw [clientDriverTable, runProbes_false hnone]
    cases kind with
    | mouse =>
      obtain ⟨w₁, h₁, hr, hserving, htoggled, htakes⟩ :=
        hidProbe_accepts h hf hboot hsized hreset hw hidM
      have hmouse : hidmProbe fuel w.host.tmpAddr w = .ok true w₁ := haddr ▸ hr
      exact ⟨w₁, h₁, runProbes_true hmouse _, hserving, htoggled, htakes⟩
    | keyboard =>
      obtain ⟨w₁, hr, hserving, htoggled⟩ :=
        hidProbe_passes h hf hboot hsized hw hidM
          (by decide : hidProtocolMouse ≠ hidProtocolKeyboard)
      have hmouse : hidmProbe fuel w.host.tmpAddr w = .ok false w₁ := haddr ▸ hr
      have haddr₁ : w₁.host.tmpAddr = a := by
        obtain ⟨f, hf, -⟩ := htoggled
        rw [hf]
        exact haddr
      obtain ⟨w₂, h₂, hr', hserving', htoggled', htakes⟩ :=
        hidProbe_accepts h hf hboot (htoggled.sized hsized) (htoggled.noReset hreset) hserving hidK
      have hkeyboard : hidkProbe fuel w₁.host.tmpAddr w₁ = .ok true w₂ := haddr₁ ▸ hr'
      rw [runProbes_false hmouse]
      exact ⟨w₂, h₂, runProbes_true hkeyboard _, hserving', htoggled.trans htoggled', htakes⟩
  obtain ⟨w₁, h₁, hr, hserving, htoggled, htakes⟩ := hprobes
  obtain ⟨w₂, hr₂, s₂, hhost₂⟩ := assigned (fun h => { h with usbTaskState := usbStateRunning }) w₁
  have hget : (getHost : Prog χ Host) w₂ = .ok w₂.host w₂ := rfl
  refine ⟨w₂, h₁, w₁.host, ?_, hserving.of_chip s₂.chip, htoggled, htakes, hhost₂⟩
  rw [configuringTask, bind_of_ok (hr.trans hr₂), bind_of_ok hget, hhost₂]
  exact congrFun (if_neg (by decide : ¬usbStateRunning = usbStateConfiguring)) w₂

end Taken

end TetrisFpga.Usb
