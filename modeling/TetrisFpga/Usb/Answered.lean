import TetrisFpga.Usb.Replies

/-!
# Requests that a device serves

A read of the control pipe brings the whole reply of the device, a write is taken, and a poll brings
the next report.

## Main results

- `xferCtrlReq_reads`, `xferCtrlReq_writes`: the requests
- `hidPoll_serves`: a poll of the endpoint 1
-/

namespace TetrisFpga.Usb
open Program

section Answered

variable {χ : Type} [Platform χ] {dev : Device} {pace : Pace} {At : Moment → Time → χ → Prop}

/-! ## The requests -/

/-- The device at the address `a` has sent `n` reports, and nothing is under way. -/
def Serving (At : Moment → Time → χ → Prop) (a : BYTE) (n : ℕ) (w : World χ) : Prop :=
  ∃ p, Now At (.idle (.quiet p a n)) w

omit [Platform χ] in
theorem Serving.of_chip {a : BYTE} {n : ℕ} {w w' : World χ} (h : Serving At a n w)
    (hchip : w'.chip = w.chip) : Serving At a n w' := by
  obtain ⟨p, t, hat⟩ := h
  exact ⟨p, t, hchip ▸ hat⟩

/-- The host has a record for the control pipe of the device at `a`, with a size that agrees with
the device's. -/
def ControlPipe (dev : Device) (a : BYTE) (n : ℕ) (h : Host) : Prop :=
  ∃ t, (h.devtable a).epinfo = some t ∧ Agrees dev ((h.eps t 0).maxPktSize.setWidth 8) n

/-- The bytes of a setup packet. -/
def requestBytes (bmReqType bRequest wValLo wValHi : BYTE) (wInd nbytes : WORD) : List BYTE :=
  [bmReqType, bRequest, wValLo, wValHi, wInd.extractLsb' 0 8, wInd.extractLsb' 8 8,
    nbytes.extractLsb' 0 8, nbytes.extractLsb' 8 8]

theorem wLength_requestBytes (bmReqType bRequest wValLo wValHi : BYTE) (wInd nbytes : WORD) :
    wLength (requestBytes bmReqType bRequest wValLo wValHi wInd nbytes) = nbytes.toNat := by
  have hbits := nbytes.isLt
  show (nbytes.extractLsb' 0 8).toNat + 256 * (nbytes.extractLsb' 8 8).toNat = nbytes.toNat
  rw [BitVec.extractLsb'_toNat, BitVec.extractLsb'_toNat, Nat.shiftRight_zero,
    Nat.shiftRight_eq_div_pow]
  omega

theorem maxBytesWr_serves (h : Serves dev pace At) (bytes : List BYTE) {l : Link} :
    Succeeds (Now At (.idle l)) (maxBytesWr rSUDFIFO bytes : Prog χ Unit) fun _ =>
      Now At (.idle { l with setup := l.setup ++ bytes }) := by
  induction bytes generalizing l with
  | nil =>
    intro w hw
    rw [List.append_nil]
    exact ⟨⟨⟩, w, rfl, hw⟩
  | cons b bs ih =>
    rintro w ⟨t, hat⟩
    obtain ⟨u, w', hr, hw'⟩ := ih (l := { l with setup := l.setup ++ [b] }) { w with
      chip := Platform.wr w.chip rSUDFIFO b, log := .wr rSUDFIFO b :: w.log } ⟨t, h.setup b hat⟩
    have happend : l.setup ++ b :: bs = l.setup ++ [b] ++ bs := by simp
    rw [happend]
    exact ⟨u, w', hr, hw'⟩

/-- A packet on the control pipe. -/
theorem controlPacket_serves (h : Serves dev pace At) {l : Link} (hl : l.perAddr = l.address)
    {token : BYTE} (htoken : token ||| 0 ∈ controlPackets) {fuel : Fuel} (hf : Enough pace fuel)
    {w : World χ} (hw : Now At (.idle l) w) :
    ∃ w', xferDispatchPkt fuel token 0 w = .ok (Device.result l (token ||| 0)) w' ∧
      Now At (dev.after l (token ||| 0)) w' ∧ w'.host = w.host ∧ w'.mem = w.mem := by
  obtain ⟨rcode, w', hr, hyields⟩ := xferDispatchPkt_serves h ⟨hl, .inl htoken⟩ hf w hw
  have hframe := xferDispatchPkt_frame hr
  obtain ⟨m, hcomes, hnow⟩ | ⟨hnot, -⟩ := hyields
  · cases hcomes with
    | control _ => exact ⟨w', hr, hnow, hframe⟩
    | report hreport =>
      rw [hreport] at htoken
      exact absurd htoken (by decide)
  · exact absurd htoken hnot

/-- The setup packet is written and taken. -/
theorem setupStage_serves (h : Serves dev pace At) {a : BYTE} {n : ℕ} {fuel : Fuel}
    (hf : Enough pace fuel) (bytes : List BYTE) {w : World χ} (hw : Serving At a n w) :
    ∃ w₁ w₂ w₃, maxRegWr rPERADDR a w = .ok () w₁ ∧ maxBytesWr rSUDFIFO bytes w₁ = .ok () w₂ ∧
      xferDispatchPkt fuel tokSETUP 0 w₂ = .ok 0 w₃ ∧
      Now At (.idle (dev.takeSetup { Link.quiet a a n with setup := bytes })) w₃ ∧
      w₃.host = w.host ∧ w₃.mem = w.mem := by
  obtain ⟨p, t, hat⟩ := hw
  let w₁ : World χ := { w with
    chip := Platform.wr w.chip rPERADDR a, log := .wr rPERADDR a :: w.log }
  have hnow₁ : Now At (.idle (.quiet a a n)) w₁ := ⟨t, h.perAddr a hat⟩
  obtain ⟨⟨⟩, w₂, hr₂, hnow₂⟩ := maxBytesWr_serves h bytes w₁ hnow₁
  obtain ⟨w₃, hr₃, hnow₃, hhost₃, hmem₃⟩ := controlPacket_serves h
    (l := { Link.quiet a a n with setup := bytes }) rfl (by decide : tokSETUP ||| 0 ∈ _) hf hnow₂
  have hframe₂ := dispatches_apart_mem.forM (fun b => dispatches_apart_mem.wr rSUDFIFO b) bytes w₁
  have hr₂' : bytes.forM (fun b => maxRegWr rSUDFIFO b) w₁ = .ok ⟨⟩ w₂ := hr₂
  rw [hr₂'] at hframe₂
  exact ⟨w₁, w₂, w₃, rfl, hr₂, hr₃, hnow₃, hhost₃.trans hframe₂.1, hmem₃.trans hframe₂.2⟩

/-- What the device does with a setup packet. -/
theorem takeSetup_requestBytes (dev : Device) (a : BYTE) (n : ℕ)
    (bmReqType bRequest wValLo wValHi : BYTE) (wInd nbytes : WORD) :
    dev.takeSetup { Link.quiet a a n with
        setup := requestBytes bmReqType bRequest wValLo wValHi wInd nbytes } =
      { Link.quiet a a n with
        newAddress := if bmReqType = bmReqSet ∧ bRequest = usbRequestSetAddress then some wValLo
          else none
        reply := if bmReqType &&& 0x80 ≠ 0 then
            dev.answer (requestBytes bmReqType bRequest wValLo wValHi wInd nbytes) else none } := by
  have haddress : (requestBytes bmReqType bRequest wValLo wValHi wInd nbytes).take 2 =
      [bmReqSet, usbRequestSetAddress] ↔
        bmReqType = bmReqSet ∧ bRequest = usbRequestSetAddress := by
    simp [requestBytes]
  rw [Device.takeSetup]
  simp only [haddress]
  rfl

/-- A request without a data stage is taken. -/
theorem xferCtrlReq_writes (h : Serves dev pace At) {a : BYTE} {n : ℕ} {fuel : Fuel}
    (hf : Enough pace fuel) {bmReqType bRequest wValLo wValHi : BYTE} {wInd nbytes : WORD}
    (htype : bmReqType &&& 0x80 = 0) {w : World χ} (hw : Serving At a n w) :
    ∃ w', xferCtrlReq fuel a 0 bmReqType bRequest wValLo wValHi wInd nbytes none w = .ok 0 w' ∧
      Serving At (if bmReqType = bmReqSet ∧ bRequest = usbRequestSetAddress then wValLo else a) n
        w' ∧ w'.host = w.host ∧ w'.mem = w.mem := by
  obtain ⟨w₁, w₂, w₃, hr₁, hr₂, hr₃, hnow₃, hhost₃, hmem₃⟩ := setupStage_serves h hf
    (requestBytes bmReqType bRequest wValLo wValHi wInd nbytes) hw
  rw [takeSetup_requestBytes, if_neg (not_not_intro htype)] at hnow₃
  obtain ⟨w₄, hr₄, hnow₄, hhost₄, hmem₄⟩ := controlPacket_serves h (by rfl)
    (by decide : tokINHS ||| 0 ∈ controlPackets) hf hnow₃
  have hdirection : decide (bmReqType &&& 0x80 ≠ 0) = false := decide_eq_false (not_not_intro htype)
  refine ⟨w₄, ?_, ⟨a, ?_⟩, hhost₄.trans hhost₃, hmem₄.trans hmem₃⟩
  · rw [xferCtrlReq, bind_of_ok hr₁, hdirection]
    refine (bind_of_ok hr₂ _).trans ?_
    rw [bind_of_ok hr₃]
    exact hr₄
  · by_cases hset : bmReqType = bmReqSet ∧ bRequest = usbRequestSetAddress
    · rw [if_pos hset] at hnow₄ ⊢
      exact hnow₄
    · rw [if_neg hset] at hnow₄ ⊢
      exact hnow₄

/-- The start of a transfer. -/
theorem xferInTransfer_serves (h : Serves dev pace At) {l : Link} {addr ep : BYTE}
    {t : EpTable} (ht : ep.toNat < t.size) (fuel : Fuel) (nbytes : WORD) (data : Ptr)
    (maxpktsize : BYTE) {w : World χ} (hw : Now At (.idle l) w)
    (hrecord : (w.host.devtable addr).epinfo = some t)
    (hreset : (w.host.eps t ep).rcvToggle &&& bmBUSRST = 0) :
    ∃ w', Now At (.idle l) w' ∧ w'.host = w.host ∧ w'.mem = w.mem ∧
      xferInTransfer fuel addr ep nbytes data maxpktsize w =
        forever .transfer (inTransferRound fuel addr ep nbytes maxpktsize) fuel.transfer
          (data, 0) w' := by
  obtain ⟨t₀, hat⟩ := hw
  refine ⟨{ w with
    chip := Platform.wr w.chip rHCTL (w.host.eps t ep).rcvToggle
    log := .wr rHCTL (w.host.eps t ep).rcvToggle :: .access addr ep :: w.log },
    ⟨t₀, ?_⟩, rfl, rfl, ?_⟩
  · exact h.wr (by decide) (fun _ => hreset) hat
  · rw [xferInTransfer, bind_of_ok (epRecord_run hrecord ht)]
    rfl

theorem EpTable.size_pos (t : EpTable) : 0 < t.size := by
  cases t
  · decide
  · decide

/-- The address is assigned. -/
theorem xferSetAddr_serves (h : Serves dev pace At) {a : BYTE} {n : ℕ} {fuel : Fuel}
    (hf : Enough pace fuel) (newaddr : BYTE) {w : World χ} (hw : Serving At a n w) :
    ∃ w', xferSetAddr fuel a 0 newaddr w = .ok 0 w' ∧ Serving At newaddr n w' ∧
      w'.host = w.host ∧ w'.mem = w.mem := by
  obtain ⟨w', hr, hserving, hframe⟩ :=
    xferCtrlReq_writes h hf (by decide : bmReqSet &&& 0x80 = 0) hw
  rw [if_pos ⟨rfl, rfl⟩] at hserving
  exact ⟨w', hr, hserving, hframe⟩

/-- A request that does not set the address leaves the device where it is. -/
theorem xferSetConf_serves (h : Serves dev pace At) {a : BYTE} {n : ℕ} {fuel : Fuel}
    (hf : Enough pace fuel) (confvalue : BYTE) {w : World χ} (hw : Serving At a n w) :
    ∃ w', xferSetConf fuel a 0 confvalue w = .ok 0 w' ∧ Serving At a n w' ∧
      w'.host = w.host ∧ w'.mem = w.mem := by
  obtain ⟨w', hr, hserving, hframe⟩ :=
    xferCtrlReq_writes h hf (by decide : bmReqSet &&& 0x80 = 0) hw
  refine ⟨w', hr, ?_, hframe⟩
  rw [if_neg (by decide)] at hserving
  exact hserving

theorem xferSetProto_serves (h : Serves dev pace At) {a : BYTE} {n : ℕ} {fuel : Fuel}
    (hf : Enough pace fuel) (interface protocol : BYTE) {w : World χ} (hw : Serving At a n w) :
    ∃ w', xferSetProto fuel a 0 interface protocol w = .ok 0 w' ∧ Serving At a n w' ∧
      w'.host = w.host ∧ w'.mem = w.mem := by
  obtain ⟨w', hr, hserving, hframe⟩ :=
    xferCtrlReq_writes h hf (by decide : bmReqHidout &&& 0x80 = 0) hw
  refine ⟨w', hr, ?_, hframe⟩
  rw [if_neg (by decide)] at hserving
  exact hserving

/-- The data stage brings the whole reply, if there is one, and the control pipe is quiet again. -/
theorem xferCtrlData_serves (h : Serves dev pace At) {a : BYTE} {l : Link}
    (hl : l.perAddr = l.address) {fuel : Fuel} (hf : Enough pace fuel) {nbytes : WORD}
    (hn : nbytes.toNat ≤ 256) (p : Ptr) {w : World χ} (hw : Now At (.idle l) w)
    (hpipe : ControlPipe dev a nbytes.toNat w.host)
    (hle : ∀ data, l.reply = some data → data.length ≤ nbytes.toNat) :
    ∃ rcode w', xferCtrlData fuel a 0 nbytes p true w = .ok rcode w' ∧
      Now At (.idle { l with reply := none }) w' ∧ Toggled w.host w'.host ∧
      ∀ data, l.reply = some data →
        rcode = 0 ∧ (data.length = nbytes.toNat → Contains p data w'.mem) := by
  -- the toggle is set, and the transfer is started with it
  obtain ⟨t, hrecord, hagrees⟩ := hpipe
  have ht : (0 : BYTE).toNat < t.size := t.size_pos
  let w₁ : World χ := { w with
    host := w.host.setEp t 0 fun r => { r with rcvToggle := bmRCVTOG1 }
    log := .host (w.host.setEp t 0 fun r => { r with rcvToggle := bmRCVTOG1 }) ::
      .access a 0 :: w.log }
  have hr₁ : setEpRecord a 0 (fun r => { r with rcvToggle := bmRCVTOG1 }) w = .ok () w₁ :=
    (setEpRecord_run hrecord ht).trans rfl
  have htoggled₁ : Toggled w.host w₁.host := toggled_setEp w.host t 0 (.inr rfl)
  have hnew : w₁.host.eps t 0 = { w.host.eps t 0 with rcvToggle := bmRCVTOG1 } := if_pos ⟨rfl, rfl⟩
  have hmax : (w₁.host.eps t 0).maxPktSize = (w.host.eps t 0).maxPktSize := by rw [hnew]
  have hreset : (w₁.host.eps t 0).rcvToggle &&& bmBUSRST = 0 := by
    rw [hnew]
    exact (by decide : bmRCVTOG1 &&& bmBUSRST = 0)
  obtain ⟨w₂, hnow₂, hhost₂, hmem₂, hr₂⟩ := xferInTransfer_serves h (w := w₁.accessed a 0) ht fuel
    nbytes p ((w.host.eps t 0).maxPktSize.setWidth 8) hw hrecord hreset
  have hrecord₂ : (w₂.host.devtable a).epinfo = some t := hhost₂ ▸ hrecord
  have htransfer := hf.transfer
  rw [xferCtrlData, if_pos rfl, bind_of_ok hr₁,
    bind_of_ok (epRecord_run (w := w₁) hrecord ht), hmax]
  cases hreply : l.reply with
  | none =>
    -- the device refuses the first IN packet
    obtain ⟨f, hfuel⟩ : ∃ f, fuel.transfer = f + 1 := ⟨fuel.transfer - 1, by omega⟩
    obtain ⟨rcode, w₃, hrefuses, hnow₃, hhost₃, hmem₃, hr₃⟩ | ⟨l', packet, w₃, hgives, -⟩ :=
      inTransferRound_serves h (.inl rfl) hl hf ht nbytes
        ((w.host.eps t 0).maxPktSize.setWidth 8) p 0 hnow₂ hrecord₂
    · rw [hfuel, forever_succ, bind_of_ok hr₃] at hr₂
      refine ⟨rcode, w₃, ?_, ?_, ?_, fun data hdata => by cases hdata⟩
      · rw [bind_of_ok hr₂, if_pos hrefuses.1]
        rfl
      · have hlink : ({ l with reply := none } : Link) = l := by
          cases l
          cases hreply
          rfl
        rw [hlink]
        exact hnow₃
      · rw [hhost₃, hhost₂]
        exact htoggled₁
    · cases hgives with
      | reply hdata =>
        rw [hreply] at hdata
        cases hdata
  | some data =>
    have hfits := hle data hreply
    have hsplit : ([] : List BYTE).length + data.length ≤ nbytes.toNat := by
      rw [List.length_nil]
      omega
    obtain ⟨w₃, hr₃, hnow₃, htoggled₃, hmem₃⟩ := replyLoop_serves h hf ht hagrees (p := p)
      (f := fuel.transfer) hsplit (by unfold packetsOf; omega) hreply hl hnow₂ hrecord₂
    have hstart : p.add ([] : List BYTE).length = p :=
      congrArg (Ptr.mk p.obj) (Int.add_zero p.off)
    have hzero : (0 : WORD) = BitVec.ofNat 16 ([] : List BYTE).length := rfl
    rw [hstart, ← hzero] at hr₃
    rw [hr₃] at hr₂
    rw [bind_of_ok hr₂, if_neg (not_not_intro rfl)]
    obtain ⟨w₄, hr₄, hnow₄, hhost₄, hmem₄⟩ := controlPacket_serves h
      (l := { l with reply := some [] }) hl (by decide : tokOUTHS ||| 0 ∈ controlPackets) hf hnow₃
    refine ⟨_, w₄, hr₄, hnow₄, ?_, ?_⟩
    · rw [hhost₄]
      exact htoggled₁.trans (hhost₂ ▸ htoggled₃)
    · rintro data' hdata
      cases hdata
      refine ⟨rfl, fun hfull => ?_⟩
      rw [hmem₄]
      refine hmem₃ ?_ (.inl rfl) fun k hk => absurd hk (Nat.not_lt_zero k)
      rw [List.length_nil, Nat.zero_add, hfull]

/-- A read of the control pipe brings what the device answers, or the device refuses it. -/
theorem xferCtrlReq_reads (h : Serves dev pace At) {a : BYTE} {n : ℕ} {fuel : Fuel}
    (hf : Enough pace fuel) {bmReqType bRequest wValLo wValHi : BYTE} {wInd nbytes : WORD}
    (htype : bmReqType &&& 0x80 ≠ 0) (hn : nbytes.toNat ≤ 256) (p : Ptr) {w : World χ}
    (hw : Serving At a n w) (hpipe : ControlPipe dev a nbytes.toNat w.host) :
    ∃ rcode w',
      xferCtrlReq fuel a 0 bmReqType bRequest wValLo wValHi wInd nbytes (some p) w = .ok rcode w' ∧
      Serving At a n w' ∧ Toggled w.host w'.host ∧
      ∀ data, dev.answer (requestBytes bmReqType bRequest wValLo wValHi wInd nbytes) = some data →
        rcode = 0 ∧ (data.length = nbytes.toNat → Contains p data w'.mem) := by
  obtain ⟨w₁, w₂, w₃, hr₁, hr₂, hr₃, hnow₃, hhost₃, hmem₃⟩ := setupStage_serves h hf
    (requestBytes bmReqType bRequest wValLo wValHi wInd nbytes) hw
  have hset : ¬(bmReqType = bmReqSet ∧ bRequest = usbRequestSetAddress) := fun hset => by
    rw [hset.1] at htype
    exact htype (by decide)
  rw [takeSetup_requestBytes, if_pos htype, if_neg hset] at hnow₃
  have hdirection : decide (bmReqType &&& 0x80 ≠ 0) = true := decide_eq_true htype
  obtain ⟨rcode, w₄, hr₄, hnow₄, htoggled, hdata⟩ := xferCtrlData_serves h (by rfl) hf hn p hnow₃
    (hhost₃ ▸ hpipe) fun data hdata =>
      wLength_requestBytes bmReqType bRequest wValLo wValHi wInd nbytes ▸ dev.answer_le hdata
  refine ⟨rcode, w₄, ?_, ⟨a, hnow₄⟩, hhost₃ ▸ htoggled, hdata⟩
  rw [xferCtrlReq, bind_of_ok hr₁, hdirection]
  refine (bind_of_ok hr₂ _).trans ?_
  rw [bind_of_ok hr₃]
  exact hr₄

/-- The requests of the HID class for one byte, whatever the device answers. -/
theorem xferGetIdle_serves (h : Serves dev pace At) {a : BYTE} {n : ℕ} {fuel : Fuel}
    (hf : Enough pace fuel) (interface reportID : BYTE) (p : Ptr) {w : World χ}
    (hw : Serving At a n w) (hpipe : ControlPipe dev a 1 w.host) :
    ∃ rcode w', xferGetIdle fuel a 0 interface reportID p w = .ok rcode w' ∧ Serving At a n w' ∧
      Toggled w.host w'.host := by
  obtain ⟨rcode, w', hr, hserving, htoggled, -⟩ := xferCtrlReq_reads h hf
    (by decide : bmReqHidin &&& 0x80 ≠ 0) (by decide : (0x0001 : WORD).toNat ≤ 256) p hw hpipe
  exact ⟨rcode, w', hr, hserving, htoggled⟩

theorem xferGetProto_serves (h : Serves dev pace At) {a : BYTE} {n : ℕ} {fuel : Fuel}
    (hf : Enough pace fuel) (interface : BYTE) (p : Ptr) {w : World χ} (hw : Serving At a n w)
    (hpipe : ControlPipe dev a 1 w.host) :
    ∃ rcode w', xferGetProto fuel a 0 interface p w = .ok rcode w' ∧ Serving At a n w' ∧
      Toggled w.host w'.host := by
  obtain ⟨rcode, w', hr, hserving, htoggled, -⟩ := xferCtrlReq_reads h hf
    (by decide : bmReqHidin &&& 0x80 ≠ 0) (by decide : (0x0001 : WORD).toNat ≤ 256) p hw hpipe
  exact ⟨rcode, w', hr, hserving, htoggled⟩

/-! ## A poll -/

/-- The transfer of a report is complete after its packet. -/
def OnePacket (maxpktsize : BYTE) (report : List BYTE) : Prop :=
  report.length < maxpktsize.toNat ∨ 8 ≤ report.length

/-- A poll brings the next report, or NAK. -/
theorem hidPoll_serves (h : Serves dev pace At) {a : BYTE} {n : ℕ} {fuel : Fuel}
    (hf : Enough pace fuel) (buf : Ptr) {w : World χ} (hw : Serving At a n w)
    (haddr : w.host.hidDevice.addr = a) (hrecord : (w.host.devtable a).epinfo = some .hidEp)
    (hone : OnePacket ((w.host.eps .hidEp 1).maxPktSize.setWidth 8) (dev.report n))
    (hreset : NoReset w.host) :
    ∃ rcode w', hidPoll fuel buf w = .ok rcode w' ∧ Toggled w.host w'.host ∧
      (rcode = hrNAK ∧ Serving At a n w' ∨
        rcode = 0 ∧ Serving At a (n + 1) w' ∧ Contains buf (dev.report n) w'.mem) := by
  subst haddr
  obtain ⟨p, t, hat⟩ := hw
  have hget (w : World χ) : (getHost : Prog χ Host) w = .ok w.host w := rfl
  let w₁ : World χ := { w with
    chip := Platform.wr w.chip rPERADDR w.host.hidDevice.addr
    log := .wr rPERADDR w.host.hidDevice.addr :: w.log }
  have hr₁ : (maxRegWr rPERADDR w.host.hidDevice.addr : Prog χ Unit) w = .ok () w₁ := rfl
  have hrecord₁ : (w₁.host.devtable w₁.host.hidDevice.addr).epinfo = some .hidEp := hrecord
  have hep : (1 : BYTE).toNat < EpTable.hidEp.size := by decide
  obtain ⟨w₂, hnow₂, hhost₂, hmem₂, hr₂⟩ := xferInTransfer_serves h hep fuel 8 buf
    ((w.host.eps .hidEp 1).maxPktSize.setWidth 8) (w := w₁.accessed w₁.host.hidDevice.addr 1)
    ⟨t, h.perAddr _ hat⟩ hrecord₁ (hreset .hidEp 1)
  have hrecord₂ : (w₂.host.devtable w₁.host.hidDevice.addr).epinfo = some .hidEp := hhost₂ ▸ hrecord
  have htransfer := hf.transfer
  obtain ⟨f, hfuel⟩ : ∃ f, fuel.transfer = f + 1 := ⟨fuel.transfer - 1, by omega⟩
  rw [hidPoll, bind_of_ok (hget w), bind_of_ok hr₁, bind_of_ok (hget w₁),
    bind_of_ok (epRecord_run hrecord₁ hep), bind_of_ok (hget (w₁.accessed _ _)),
    World.accessed_host, hr₂, hfuel, forever_succ]
  obtain ⟨rcode, w₃, ⟨-, hrefuses⟩, hnow₃, hhost₃, -, hr₃⟩ |
    ⟨l', packet, w₃, hgives, hnow₃, htoggled, hmem₃, hr₃⟩ :=
    inTransferRound_serves h (.inr rfl) (by rfl) hf hep 8
      ((w.host.eps .hidEp 1).maxPktSize.setWidth 8) buf 0 hnow₂ hrecord₂
  -- no report is there
  · rw [bind_of_ok hr₃]
    obtain ⟨habsurd, -⟩ | ⟨-, rfl⟩ := hrefuses
    · exact absurd habsurd (by decide)
    · refine ⟨hrNAK, w₃, rfl, ?_, .inl ⟨rfl, _, hnow₃⟩⟩
      rw [hhost₃, hhost₂]
      exact .refl _
  · cases hgives with
    | report =>
      have hbits := dev.report_le n
      -- one packet is the whole transfer
      have hend : BitVec.ofNat 8 (dev.report n).length <
          ((w.host.eps .hidEp 1).maxPktSize.setWidth 8 : BYTE) ∨
          (8 : WORD) ≤ 0 + BitVec.ofNat 16 (dev.report n).length := by
        have hzero : (0 : WORD) + BitVec.ofNat 16 (dev.report n).length =
            BitVec.ofNat 16 (dev.report n).length := BitVec.zero_add _
        have height : (8 : WORD).toNat = 8 := rfl
        rw [hzero, BitVec.lt_def, BitVec.le_def, BitVec.toNat_ofNat, BitVec.toNat_ofNat]
        obtain hshort | hlong := hone
        · left
          omega
        · right
          omega
      have hr₃' := hr₃.trans (congrArg (fun r => EStateM.Result.ok r w₃) (if_pos hend))
      rw [bind_of_ok hr₃']
      refine ⟨0, w₃, rfl, hhost₂ ▸ htoggled, .inr ⟨rfl, ⟨_, hnow₃⟩, ?_⟩⟩
      by_cases hnone : dev.report n = []
      · rw [hnone]
        exact fun k hk => absurd hk (Nat.not_lt_zero k)
      · have hwritten := (hmem₃ hnone).trans (congrArg (written buf _) hmem₂)
        have hempty : Contains buf [] w₁.mem := fun k hk => absurd hk (Nat.not_lt_zero k)
        have happend := hempty.append (dev.report n)
        have hstart : buf.add ([] : List BYTE).length = buf :=
          congrArg (Ptr.mk buf.obj) (Int.add_zero buf.off)
        rw [hstart, List.nil_append] at happend
        rw [hwritten]
        exact happend

end Answered

end TetrisFpga.Usb
