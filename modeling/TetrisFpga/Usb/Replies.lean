import TetrisFpga.Usb.Served

/-!
# Transfers that a device serves

An IN transfer brings the data of the device, packet by packet, and puts them one behind the other.
Of the variables it changes only toggles.

## Main results

- `inTransferRound_serves`: one packet
- `replyLoop_serves`: the whole reply to a read of the control pipe
-/

namespace TetrisFpga.Usb
open Program

/-! ## The bytes of a packet -/

/-- The memory with the bytes from `p` on. -/
def written (p : Ptr) (bytes : List BYTE) (m : Obj → ℤ → BYTE) : Obj → ℤ → BYTE := fun o k =>
  if o = p.obj ∧ p.off ≤ k ∧ k < p.off + bytes.length then bytes.getD (k - p.off).toNat 0 else m o k

/-- The bytes are in the memory from `p` on. -/
def Contains (p : Ptr) (bytes : List BYTE) (m : Obj → ℤ → BYTE) : Prop :=
  ∀ k < bytes.length, m p.obj (p.off + k) = bytes.getD k 0

theorem written_nil (p : Ptr) (m : Obj → ℤ → BYTE) : written p [] m = m := by
  funext o k
  refine if_neg ?_
  rintro ⟨-, hle, hlt⟩
  rw [List.length_nil] at hlt
  omega

theorem written_succ (p : Ptr) (m : Obj → ℤ → BYTE) {bytes : List BYTE} {i : ℕ}
    (hi : i < bytes.length) :
    written p (bytes.take (i + 1)) m = fun o k => if o = (p.add i).obj ∧ k = (p.add i).off then
      bytes.getD i 0 else written p (bytes.take i) m o k := by
  funext o k
  have hlen : (bytes.take (i + 1)).length = i + 1 := by rw [List.length_take]; omega
  have hlen' : (bytes.take i).length = i := by rw [List.length_take]; omega
  simp only [written, hlen, hlen', Ptr.add_obj, Ptr.add_off]
  by_cases hlast : o = p.obj ∧ k = p.off + i
  · obtain ⟨rfl, rfl⟩ := hlast
    rw [if_pos ⟨rfl, by omega, by omega⟩, if_pos ⟨rfl, rfl⟩]
    have hindex : (p.off + i - p.off).toNat = i := by omega
    rw [hindex]
    simp [List.getD_eq_getElem?_getD]
  · rw [if_neg hlast]
    by_cases hbefore : o = p.obj ∧ p.off ≤ k ∧ k < p.off + i
    · rw [if_pos ⟨hbefore.1, hbefore.2.1, by omega⟩, if_pos hbefore]
      have hindex : (k - p.off).toNat < i := by omega
      simp only [List.getD_eq_getElem?_getD]
      rw [List.getElem?_take_of_lt (by omega), List.getElem?_take_of_lt hindex]
    · rw [if_neg hbefore, if_neg]
      rintro ⟨rfl, hle, hlt⟩
      by_cases hk : k = p.off + i
      · exact hlast ⟨rfl, hk⟩
      · exact hbefore ⟨rfl, hle, by omega⟩

/-- What is written behind the bytes leaves them there. -/
theorem Contains.append {p : Ptr} {bytes : List BYTE} {m : Obj → ℤ → BYTE}
    (h : Contains p bytes m) (packet : List BYTE) :
    Contains p (bytes ++ packet) (written (p.add bytes.length) packet m) := by
  intro k hk
  rw [List.length_append] at hk
  simp only [written, Ptr.add_obj, Ptr.add_off]
  by_cases hlt : k < bytes.length
  · rw [if_neg (by rintro ⟨-, hle, -⟩; omega), h k hlt, List.getD_eq_getElem?_getD,
      List.getD_eq_getElem?_getD, List.getElem?_append_left hlt]
  · rw [if_pos ⟨trivial, by omega, by omega⟩]
    have hindex : (p.off + (k : ℤ) - (p.off + bytes.length)).toNat = k - bytes.length := by omega
    rw [hindex, List.getD_eq_getElem?_getD, List.getD_eq_getElem?_getD,
      List.getElem?_append_right (by omega)]

section Replies

variable {χ : Type} [Platform χ] {dev : Device} {pace : Pace} {At : Moment → Time → χ → Prop}

/-- The first `i` bytes of a packet have been read. -/
def Taken (At : Moment → Time → χ → Prop) (l : Link) (size : ℕ) (packet : List BYTE) (p : Ptr)
    (t : Time) (w₀ : World χ) (i : ℕ) (w : World χ) : Prop :=
  i ≤ packet.length → At (.holds l size (packet.drop i)) t w.chip ∧ w.host = w₀.host ∧
    w.mem = written p (packet.take i) w₀.mem

theorem rdByte_serves (h : Serves dev pace At) {l : Link} {size : ℕ} {packet : List BYTE}
    {p : Ptr} {t : Time} {w₀ : World χ} (i : ℕ) :
    Succeeds (Taken At l size packet p t w₀ i) (rdByte rRCVFIFO (p.add i) : Prog χ Unit)
      fun _ => Taken At l size packet p t w₀ (i + 1) := by
  intro w hw
  refine ⟨(), _, rfl, fun hi => ?_⟩
  obtain ⟨hat, hhost, hmem⟩ := hw (by omega)
  obtain ⟨hval, hnext⟩ := h.fifo hat
  rw [List.tail_drop] at hnext
  refine ⟨hnext, hhost, ?_⟩
  have hbyte : (Platform.rd w.chip rRCVFIFO).1 = packet.getD i 0 := by
    rw [hval, List.headD_eq_head?_getD, List.head?_drop, List.getElem?_eq_getElem (by omega),
      List.getD_eq_getElem?_getD, List.getElem?_eq_getElem (by omega)]
    rfl
  rw [written_succ p w₀.mem (by omega), ← hmem, ← hbyte]

/-- A packet is read from the FIFO. Where it is empty, the byte that is stored is none of its own.
-/
theorem maxBytesRd_serves (h : Serves dev pace At) {l : Link} {packet : List BYTE}
    {size : BYTE} (hsize : packet.length = size.toNat) (p : Ptr) {t : Time} {w : World χ}
    (hw : At (.holds l packet.length packet) t w.chip) :
    ∃ w', maxBytesRd rRCVFIFO size p w = .ok (p.add size.toNat) w' ∧
      At (.holds l packet.length []) t w'.chip ∧ w'.host = w.host ∧
      (packet ≠ [] → w'.mem = written p packet w.mem) := by
  cases packet with
  | nil =>
    have hzero : size.toNat = 0 := hsize.symm
    have hlast (q : Ptr) : ∃ w', rdByte rRCVFIFO q w = .ok () w' ∧
        w'.chip = (Platform.rd w.chip rRCVFIFO).2 ∧ w'.host = w.host := ⟨_, rfl, rfl, rfl⟩
    obtain ⟨w', hr, hchip, hhost⟩ := hlast (p.add ((0 : ℕ) - 1))
    refine ⟨w', ?_, hchip ▸ (h.fifo hw).2, hhost, fun hne => absurd rfl hne⟩
    rw [maxBytesRd, hzero]
    have hnone : ((List.range (0 - 1)).forM fun i => rdByte rRCVFIFO (p.add i) : Prog χ PUnit) w =
        .ok () w := rfl
    rw [bind_of_ok hnone, bind_of_ok hr]
    rfl
  | cons b bs =>
    have hpos : size.toNat = bs.length + 1 := hsize.symm
    have hstart : Taken At l (b :: bs).length (b :: bs) p t w 0 w :=
      fun _ => ⟨hw, rfl, (written_nil p w.mem).symm⟩
    obtain ⟨⟨⟩, w₁, hr₁, h₁⟩ := succeeds_range
      (fun i => rdByte_serves h i) (size.toNat - 1) w hstart
    obtain ⟨⟨⟩, w₂, hr₂, h₂⟩ := rdByte_serves h _ w₁ h₁
    rw [hpos, Nat.add_sub_cancel] at hr₁ hr₂ h₂
    obtain ⟨hat, hhost, hmem⟩ := h₂ (Nat.le_refl _)
    have hall : (b :: bs).take (bs.length + 1) = b :: bs := List.take_of_length_le (Nat.le_refl _)
    have hnone : (b :: bs).drop (bs.length + 1) = [] := List.drop_eq_nil_of_le (Nat.le_refl _)
    rw [hnone] at hat
    rw [hall] at hmem
    refine ⟨w₂, ?_, hat, hhost, fun _ => hmem⟩
    have hlast : p.add ((size.toNat : ℤ) - 1) = p.add (bs.length : ℕ) := by
      rw [hpos]
      congr 1
      omega
    rw [maxBytesRd, hlast, hpos, Nat.add_sub_cancel, bind_of_ok hr₁, bind_of_ok hr₂]
    rfl

/-! ## The variables -/

/-- Nothing but the receive toggles has changed, and none of them has become a bus reset. -/
def Toggled (h h' : Host) : Prop :=
  ∃ f : EpTable → BYTE → BYTE,
    h' = { h with eps := fun t i => { h.eps t i with rcvToggle := f t i } } ∧
    ((∀ t i, (h.eps t i).rcvToggle &&& bmBUSRST = 0) → ∀ t i, f t i &&& bmBUSRST = 0)

/-- No toggle would reset the bus. -/
def NoReset (h : Host) : Prop := ∀ t i, (h.eps t i).rcvToggle &&& bmBUSRST = 0

theorem Host.setEp_self (h : Host) (t : EpTable) (ep : BYTE) (f : EpRecord → EpRecord) :
    (h.setEp t ep f).eps t ep = f (h.eps t ep) := by simp [Host.setEp]

theorem Host.setEp_of_ne {h : Host} {t t' : EpTable} {ep ep' : BYTE} (f : EpRecord → EpRecord)
    (hne : ¬(t' = t ∧ ep' = ep)) : (h.setEp t ep f).eps t' ep' = h.eps t' ep' := if_neg hne

theorem Host.setEp_setEp (h : Host) (t : EpTable) (ep : BYTE) (f g : EpRecord → EpRecord) :
    (h.setEp t ep f).setEp t ep g = h.setEp t ep fun r => g (f r) := by
  unfold Host.setEp
  congr 1
  funext t' ep'
  by_cases hsame : t' = t ∧ ep' = ep
  · simp [hsame]
  · simp [hsame]

theorem NoReset.setEp {h : Host} (hreset : NoReset h) {t : EpTable} {ep : BYTE}
    {f : EpRecord → EpRecord}
    (hf : ∀ r, r.rcvToggle &&& bmBUSRST = 0 → (f r).rcvToggle &&& bmBUSRST = 0) :
    NoReset (h.setEp t ep f) := by
  intro t' ep'
  by_cases hsame : t' = t ∧ ep' = ep
  · obtain ⟨rfl, rfl⟩ := hsame
    rw [Host.setEp_self]
    exact hf _ (hreset t' ep')
  · rw [Host.setEp_of_ne f hsame]
    exact hreset t' ep'

theorem Toggled.refl (h : Host) : Toggled h h := ⟨fun t i => (h.eps t i).rcvToggle, rfl, id⟩

theorem Toggled.trans {h h' h'' : Host} (hh : Toggled h h') (hh' : Toggled h' h'') :
    Toggled h h'' := by
  obtain ⟨f, rfl, hf⟩ := hh
  obtain ⟨g, rfl, hg⟩ := hh'
  exact ⟨g, rfl, fun hreset => hg (hf hreset)⟩

theorem Toggled.noReset {h h' : Host} (hh : Toggled h h') (hreset : NoReset h) : NoReset h' := by
  obtain ⟨f, rfl, hf⟩ := hh
  exact hf hreset

theorem toggled_setEp (h : Host) (t : EpTable) (ep : BYTE) {toggle : BYTE}
    (htoggle : toggle = bmRCVTOG0 ∨ toggle = bmRCVTOG1) :
    Toggled h (h.setEp t ep fun r => { r with rcvToggle := toggle }) := by
  refine ⟨fun t' i => if t' = t ∧ i = ep then toggle else (h.eps t' i).rcvToggle, ?_, ?_⟩
  · unfold Host.setEp
    congr 1
    funext t' i
    by_cases hsame : t' = t ∧ i = ep
    · obtain ⟨rfl, rfl⟩ := hsame
      simp
    · simp [hsame]
  · intro hreset t' i
    dsimp only
    by_cases hsame : t' = t ∧ i = ep
    · rw [if_pos hsame]
      obtain rfl | rfl := htoggle
      · decide
      · decide
    · rw [if_neg hsame]
      exact hreset t' i

/-- The dispatches leave the variables and the memory alone. -/
theorem dispatches_apart_mem :
    Dispatches fun _ => Moves fun w w' : World χ => w'.host = w.host ∧ w'.mem = w.mem where
  toClosed := closed_moves (fun _ => ⟨rfl, rfl⟩) fun h h' => ⟨h'.1.trans h.1, h'.2.trans h.2⟩
  hirq _ := ⟨rfl, rfl⟩
  hrsl _ := ⟨rfl, rfl⟩
  wr _ _ _ := ⟨rfl, rfl⟩
  nticks _ := ⟨rfl, rfl⟩
  wait _ := ⟨rfl, rfl⟩
  dispatch _ := ⟨rfl, rfl⟩

theorem xferDispatchPkt_frame {fuel : Fuel} {token ep rcode : BYTE} {w w' : World χ}
    (hr : xferDispatchPkt fuel token ep w = .ok rcode w') : w'.host = w.host ∧ w'.mem = w.mem := by
  have hframe := dispatches_apart_mem.xferDispatchPkt fuel token ep w
  rwa [hr] at hframe

/-! ## An IN transfer -/

/-- The device answers an IN packet with data. -/
inductive Gives (dev : Device) (l : Link) : BYTE → Link → List BYTE → Prop
  | reply {data : List BYTE} : l.reply = some data → Gives dev l 0
      { l with reply := some (data.drop dev.maxPacketSize.toNat) }
      (data.take dev.maxPacketSize.toNat)
  | report : Gives dev l 1 { l with sent := l.sent + 1 } (dev.report l.sent)

/-- It refuses the read, or it has nothing to report. -/
def Refuses (l : Link) (ep rcode : BYTE) : Prop :=
  rcode ≠ 0 ∧ (ep = 0 ∧ l.reply = none ∨ ep = 1 ∧ rcode = hrNAK)

theorem Gives.length_lt {l l' : Link} {ep : BYTE} {packet : List BYTE}
    (h : Gives dev l ep l' packet) : packet.length < 256 := by
  cases h with
  | reply _ =>
    have hbits := dev.maxPacketSize.isLt
    rw [List.length_take]
    omega
  | report => exact Nat.lt_of_le_of_lt (dev.report_le l.sent) (by decide)

/-- An IN packet brings data or is refused. -/
theorem inPacket_serves (h : Serves dev pace At) {l : Link} {ep : BYTE} (hep : ep = 0 ∨ ep = 1)
    (hl : l.perAddr = l.address) {fuel : Fuel} (hf : Enough pace fuel) :
    Succeeds (Now At (.idle l)) (xferDispatchPkt fuel tokIN ep : Prog χ BYTE) fun rcode w =>
      Refuses l ep rcode ∧ Now At (.idle l) w ∨
      rcode = 0 ∧ ∃ l' packet, Gives dev l ep l' packet ∧
        Now At (.holds l' packet.length packet) w := by
  intro w hw
  have hpipe : Addressed l (tokIN ||| ep) := by
    refine ⟨hl, ?_⟩
    obtain rfl | rfl := hep
    · exact .inl (by decide)
    · exact .inr rfl
  obtain ⟨rcode, w', hr, hyields⟩ := xferDispatchPkt_serves h hpipe hf w hw
  refine ⟨rcode, w', hr, ?_⟩
  -- the device puts off at most a poll, which then ends with NAK
  obtain ⟨m, hcomes, hnow⟩ | ⟨hnot, rfl, hnow⟩ := hyields
  · cases hcomes with
    | control hcontrol =>
      obtain rfl : ep = 0 := hep.resolve_right fun h1 => by
        rw [h1] at hcontrol
        exact absurd hcontrol (by decide)
      cases hreply : l.reply with
      | none =>
        rw [Device.after_refused hreply] at hnow
        refine .inl ⟨⟨?_, .inl ⟨rfl, hreply⟩⟩, hnow⟩
        rw [Device.result, if_pos ⟨by decide, hreply⟩]
        decide
      | some data =>
        rw [Device.after_replied hreply] at hnow
        refine .inr ⟨?_, _, _, .reply hreply, hnow⟩
        rw [Device.result, if_neg fun hnone => by rw [hreply] at hnone; cases hnone.2]
        rfl
    | report htoken =>
      obtain rfl : ep = 1 := hep.resolve_left fun h0 => by
        rw [h0] at htoken
        exact absurd htoken (by decide)
      exact .inr ⟨rfl, _, _, .report, hnow⟩
  · obtain rfl : ep = 1 := hep.resolve_left fun h0 => by
      rw [h0] at hnot
      exact absurd (by decide) hnot
    exact .inl ⟨⟨by decide, .inr ⟨rfl, rfl⟩⟩, hnow⟩

/-- A transfer that ends with this packet saves the toggle. -/
theorem saveToggle_serves (h : Serves dev pace At) {l : Link} {addr ep : BYTE}
    {t : EpTable} (ht : ep.toNat < t.size) {w : World χ} (hw : Now At (.idle l) w)
    (hrecord : (w.host.devtable addr).epinfo = some t) :
    ∃ w', (do
        let hrsl ← maxRegRd rHRSL
        let toggle := if hrsl &&& bmRCVTOGRD ≠ 0 then bmRCVTOG1 else bmRCVTOG0
        setEpRecord addr ep fun r => { r with rcvToggle := toggle }
        return .inr 0 : Prog χ ((Ptr × WORD) ⊕ BYTE)) w = .ok (.inr 0) w' ∧
      Now At (.idle l) w' ∧ Toggled w.host w'.host ∧ w'.mem = w.mem := by
  obtain ⟨t₀, hat⟩ := hw
  refine ⟨_, (bind_of_ok (maxRegRd_run rHRSL w) _).trans (bind_of_ok (setEpRecord_run
    (w := w.afterRd rHRSL) hrecord ht) _), ⟨t₀, h.rd rHRSL hat⟩, ?_, rfl⟩
  apply toggled_setEp
  split
  · exact .inr rfl
  · exact .inl rfl

/-- A round of a transfer: it is refused, or it reads a packet. -/
theorem inTransferRound_serves (h : Serves dev pace At) {l : Link} {addr ep : BYTE}
    (hep : ep = 0 ∨ ep = 1) (hl : l.perAddr = l.address) {fuel : Fuel} (hf : Enough pace fuel)
    {t : EpTable} (ht : ep.toNat < t.size) (nbytes : WORD)
    (maxpktsize : BYTE) (data : Ptr) (xfrlen : WORD) {w : World χ} (hw : Now At (.idle l) w)
    (hrecord : (w.host.devtable addr).epinfo = some t) :
    (∃ rcode w', Refuses l ep rcode ∧ Now At (.idle l) w' ∧ w'.host = w.host ∧
      w'.mem = w.mem ∧ inTransferRound fuel addr ep nbytes maxpktsize (data, xfrlen) w =
        .ok (.inr rcode) w') ∨
    ∃ l' packet w', Gives dev l ep l' packet ∧ Now At (.idle l') w' ∧
      Toggled w.host w'.host ∧ (packet ≠ [] → w'.mem = written data packet w.mem) ∧
      inTransferRound fuel addr ep nbytes maxpktsize (data, xfrlen) w =
        .ok (if BitVec.ofNat 8 packet.length < maxpktsize ∨
            nbytes ≤ xfrlen + BitVec.ofNat 16 packet.length then .inr 0
          else .inl (data.add packet.length, xfrlen + BitVec.ofNat 16 packet.length)) w' := by
  obtain ⟨rcode, w₁, hr₁, hserved⟩ := inPacket_serves h hep hl hf w hw
  obtain ⟨hhost₁, hmem₁⟩ := xferDispatchPkt_frame hr₁
  rw [inTransferRound, bind_of_ok hr₁]
  obtain ⟨hrefuses, hnow⟩ | ⟨rfl, l', packet, hgives, t₁, hat₁⟩ := hserved
  · rw [if_pos hrefuses.1]
    exact .inl ⟨rcode, w₁, hrefuses, hnow, hhost₁, hmem₁, rfl⟩
  -- the length goes through the eight bits of `RCVBC`
  · have hsize8 : packet.length = (BitVec.ofNat 8 packet.length).toNat := by
      rw [BitVec.toNat_ofNat]
      exact (Nat.mod_eq_of_lt hgives.length_lt).symm
    have hsize16 : (BitVec.ofNat 8 packet.length).setWidth 16 = BitVec.ofNat 16 packet.length := by
      apply BitVec.eq_of_toNat_eq
      rw [BitVec.toNat_setWidth, ← hsize8, BitVec.toNat_ofNat]
    obtain ⟨hdav, hat₂⟩ := h.received hat₁
    obtain ⟨hcount, hat₃⟩ := h.size hat₂
    obtain ⟨w₄, hr₄, hat₄, hhost₄, hmem₄⟩ := maxBytesRd_serves h hsize8 data
      (w := (w₁.afterRd rHIRQ).afterRd rRCVBC) hat₃
    have hat₅ := h.release hat₄
    let w₅ : World χ := { w₄ with
      chip := Platform.wr w₄.chip rHIRQ bmRCVDAVIRQ, log := .wr rHIRQ bmRCVDAVIRQ :: w₄.log }
    have hr₅ : (maxRegWr rHIRQ bmRCVDAVIRQ : Prog χ Unit) w₄ = .ok () w₅ := rfl
    have hhost₅ : w₅.host = w.host := hhost₄.trans hhost₁
    have hmem₅ : packet ≠ [] → w₅.mem = written data packet w.mem :=
      fun hne => (hmem₄ hne).trans (congrArg (written data packet) hmem₁)
    have hcount' : (Platform.rd (w₁.afterRd rHIRQ).chip rRCVBC).1 =
        BitVec.ofNat 8 packet.length := hcount
    rw [if_neg (not_not_intro rfl), bind_of_ok (maxRegRd_run rHIRQ w₁), if_neg hdav,
      bind_of_ok (maxRegRd_run rRCVBC _), hcount', bind_of_ok hr₄, bind_of_ok hr₅, hsize16,
      ← hsize8]
    refine .inr ⟨l', packet, ?_⟩
    by_cases hend : BitVec.ofNat 8 packet.length < maxpktsize ∨
        nbytes ≤ xfrlen + BitVec.ofNat 16 packet.length
    · obtain ⟨w₆, hr₆, hnow₆, htoggled, hmem₆⟩ := saveToggle_serves h ht (w := w₅)
        ⟨t₁, hat₅⟩ (by rw [hhost₅, hrecord] : (w₅.host.devtable addr).epinfo = some t)
      rw [if_pos hend, if_pos hend]
      exact ⟨w₆, hgives, hnow₆, hhost₅ ▸ htoggled, fun hne => hmem₆.trans (hmem₅ hne), hr₆⟩
    · rw [if_neg hend, if_neg hend]
      exact ⟨w₅, hgives, ⟨t₁, hat₅⟩, hhost₅ ▸ .refl _, hmem₅, rfl⟩

/-! ## A read of the control pipe -/

/-- The packets of a reply, with an empty one behind the last that is full. -/
def packetsOf (n : ℕ) : ℕ := n / 8 + 1

/-- The sizes that the host and the device count with: both know the maximum, or one packet is
enough. -/
def Agrees (dev : Device) (maxpktsize : BYTE) (n : ℕ) : Prop :=
  8 ≤ maxpktsize.toNat ∧ (maxpktsize = dev.maxPacketSize ∨ n ≤ dev.maxPacketSize.toNat)

/-- A packet of the reply `rest`, of which `n` bytes are asked for: the transfer ends with the last
packet, and one that is not the last has at least eight bytes. -/
theorem Agrees.packet {maxpktsize : BYTE} {n : ℕ} (h : Agrees dev maxpktsize n) (rest : List BYTE)
    (hle : rest.length ≤ n) :
    ((rest.take dev.maxPacketSize.toNat).length < maxpktsize.toNat →
      rest.length ≤ dev.maxPacketSize.toNat) ∧
    (maxpktsize.toNat ≤ (rest.take dev.maxPacketSize.toNat).length →
      8 + (rest.drop dev.maxPacketSize.toNat).length ≤ rest.length) := by
  obtain ⟨height, hagrees⟩ := h
  rw [List.length_take, List.length_drop]
  obtain hsame | hfits := hagrees
  · rw [hsame]
    have := dev.eight_le
    exact ⟨fun _ => by omega, fun _ => by omega⟩
  · exact ⟨fun _ => by omega, fun _ => by omega⟩

/-- The data stage of a read, with the bytes `done` received and `rest` to come. -/
theorem replyLoop_serves (h : Serves dev pace At) {addr : BYTE} {fuel : Fuel}
    (hf : Enough pace fuel) {t : EpTable} (ht : 0 < t.size) {nbytes : WORD} {maxpktsize : BYTE}
    (hagrees : Agrees dev maxpktsize nbytes.toNat) {p : Ptr} {f : ℕ} {done rest : List BYTE}
    (hn : done.length + rest.length ≤ nbytes.toNat) (hrounds : packetsOf rest.length ≤ f) {l : Link}
    (hreply : l.reply = some rest) (hl : l.perAddr = l.address) {w : World χ}
    (hw : Now At (.idle l) w) (hrecord : (w.host.devtable addr).epinfo = some t) :
    ∃ w', forever .transfer (inTransferRound fuel addr 0 nbytes maxpktsize) f
        (p.add done.length, BitVec.ofNat 16 done.length) w = .ok 0 w' ∧
      Now At (.idle { l with reply := some [] }) w' ∧ Toggled w.host w'.host ∧
      (done.length + rest.length = nbytes.toNat → (done = [] ∨ rest ≠ []) → Contains p done w.mem →
        Contains p (done ++ rest) w'.mem) := by
  -- on the fuel: a packet that is not the last takes at least eight bytes
  induction f generalizing done rest l w with
  | zero =>
    unfold packetsOf at hrounds
    omega
  | succ f ih =>
    unfold packetsOf at hrounds
    have hbits := nbytes.isLt
    obtain ⟨rcode, w₁, ⟨-, hrefuses⟩, -⟩ | ⟨l', packet, w₁, hgives, hnow, htoggled, hmem, hr⟩ :=
      inTransferRound_serves h (.inl rfl) hl hf ht nbytes maxpktsize (p.add done.length)
        (BitVec.ofNat 16 done.length) hw hrecord
    · obtain ⟨-, hnone⟩ | ⟨habsurd, -⟩ := hrefuses
      · rw [hreply] at hnone
        cases hnone
      · exact absurd habsurd (by decide)
    cases hgives with
    | @reply data hreply' =>
      cases hreply.symm.trans hreply'
      have hsum (n : ℕ) : BitVec.ofNat 16 done.length + BitVec.ofNat 16 n =
          BitVec.ofNat 16 (done.length + n) := (BitVec.ofNat_add done.length n).symm
      obtain ⟨hshort, hlong⟩ := hagrees.packet rest (by omega)
      have htake := List.length_take (i := dev.maxPacketSize.toNat) (l := rest)
      have hdrop := List.length_drop (i := dev.maxPacketSize.toNat) (l := rest)
      generalize hpacket : rest.take dev.maxPacketSize.toNat = packet at *
      generalize hlater : rest.drop dev.maxPacketSize.toNat = later at *
      have hsplit : packet ++ later = rest := by rw [← hpacket, ← hlater, List.take_append_drop]
      have hlen : (BitVec.ofNat 8 packet.length).toNat = packet.length := by
        have := dev.maxPacketSize.isLt
        rw [BitVec.toNat_ofNat]
        exact Nat.mod_eq_of_lt (by omega)
      have hlengths : packet.length + later.length = rest.length := by
        rw [← hsplit, List.length_append]
      rw [forever_succ, bind_of_ok hr, hsum]
      by_cases hend : BitVec.ofNat 8 packet.length < maxpktsize ∨
          nbytes ≤ BitVec.ofNat 16 (done.length + packet.length)
      · -- the last packet, which completes the transfer
        have hlast : later = [] := by
          refine List.eq_nil_of_length_eq_zero ?_
          rw [BitVec.lt_def, BitVec.le_def, hlen, BitVec.toNat_ofNat] at hend
          obtain hless | hcomplete := hend
          · have := hshort hless
            omega
          · omega
        rw [hlast, List.append_nil] at hsplit
        rw [if_pos hend]
        refine ⟨w₁, rfl, hlast ▸ hnow, htoggled, fun hfull hopen hdone => ?_⟩
        rw [← hsplit]
        by_cases hnone : packet = []
        · obtain rfl | hne := hopen
          · rw [hnone]
            exact fun k hk => absurd hk (Nat.not_lt_zero k)
          · exact absurd (hsplit.symm.trans hnone) hne
        · rw [hmem hnone]
          exact hdone.append _
      -- another packet has to come
      · rw [if_neg hend]
        rw [not_or, BitVec.not_lt, BitVec.not_le, BitVec.le_def, BitVec.lt_def, hlen,
          BitVec.toNat_ofNat] at hend
        have hfewer := hlong hend.1
        have hne : packet ≠ [] := fun hnil => by
          rw [hnil, List.length_nil] at hlengths
          omega
        have hdone' : (done ++ packet).length = done.length + packet.length := List.length_append
        obtain ⟨w', hr', hnow', htoggled', hmem'⟩ := ih
          (l := { l with reply := some later }) (by rw [hdone']; omega : (done ++ packet).length +
            later.length ≤ nbytes.toNat) (by unfold packetsOf; omega) rfl hl hnow
          (by obtain ⟨g, hg, -⟩ := htoggled; rw [hg]; exact hrecord)
        rw [hdone'] at hr' hmem'
        have hptr : (p.add done.length).add packet.length =
            p.add ((done.length + packet.length : ℕ) : ℤ) := by
          simp only [Ptr.add, Ptr.mk.injEq, true_and]
          omega
        rw [hptr]
        refine ⟨w', hr', hnow', htoggled.trans htoggled', fun hfull _ hdone => ?_⟩
        rw [← hsplit, ← List.append_assoc]
        refine hmem' (by omega) (.inr fun hnil => ?_) ?_
        · rw [hnil, List.length_nil] at hlengths
          omega
        · rw [hmem hne]
          exact hdone.append _

end Replies

end TetrisFpga.Usb
