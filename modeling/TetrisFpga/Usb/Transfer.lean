import TetrisFpga.Usb.World

/-!
# USB transfers

`transfer.c` up to the control transfers: the dispatch of one packet with its retries, the
IN transfer of many packets, and the requests of `transfer.h`. The rules at the end say of
which classes of programs the transfers are members.
-/

namespace TetrisFpga.Usb
open Program

section Transfers

variable {χ : Type} [Platform χ]

/-- The wait loop of `XferDispatchPkt`. -/
def waitDone (n : ℕ) (timeout : DWORD) : Prog χ BYTE :=
  whileLoop .wait (fun _ => do return decide ((← altMs) < timeout))
    (fun _ => do
      let tmpdata ← maxRegRd rHIRQ
      if tmpdata &&& bmHXFRDNIRQ ≠ 0 then
        maxRegWr rHIRQ bmHXFRDNIRQ
        return .inr 0x00
      else return .inl ())
    (fun _ => pure 0xff) n ()

/-- The body of the loop of `XferDispatchPkt`, with `retry_count` and `nak_count`. -/
def dispatchRound (fuel : Fuel) (timeout : DWORD) (token ep : BYTE) :
    BYTE × BYTE → Prog χ ((BYTE × BYTE) ⊕ BYTE)
  | (retryCount, nakCount) => do
    maxRegWr rHXFR (token ||| ep)
    let rcode ← waitDone fuel.wait timeout
    if rcode ≠ 0x00 then return .inr rcode
    else
      let rcode := (← maxRegRd rHRSL) &&& 0x0f
      if rcode = hrNAK then
        -- a NAK is tried again until the deadline or the limit
        if nakCount + 1 = usbNakLimit then return .inr rcode
        else return .inl (retryCount, nakCount + 1)
      else if rcode = hrTIMEOUT then
        if retryCount + 1 = usbRetryLimit then return .inr rcode
        else return .inl (retryCount + 1, nakCount)
      else return .inr rcode

def xferDispatchPkt (fuel : Fuel) (token ep : BYTE) : Prog χ BYTE := do
  -- one deadline for all the launches
  let timeout := (← altMs) + usbXferTimeout
  forever .dispatch (dispatchRound fuel timeout token ep) fuel.dispatch (0, 0)

/-- The body of the loop of `XferInTransfer`, with `data` and `xfrlen`. -/
def inTransferRound (fuel : Fuel) (addr ep : BYTE) (nbytes : WORD) (maxpktsize : BYTE) :
    Ptr × WORD → Prog χ ((Ptr × WORD) ⊕ BYTE)
  | (data, xfrlen) => do
    let rcode ← xferDispatchPkt fuel tokIN ep
    if rcode ≠ 0 then return .inr rcode
    else
      let hirq ← maxRegRd rHIRQ
      if hirq &&& bmRCVDAVIRQ = 0 then return .inr 0xf0
      else
        let pktsize ← maxRegRd rRCVBC
        let data ← maxBytesRd rRCVFIFO pktsize data
        maxRegWr rHIRQ bmRCVDAVIRQ
        let xfrlen := xfrlen + pktsize.setWidth 16
        -- `maxpktsize` is a `BYTE`, so 0x0100 is 0 here and no packet is short
        if pktsize < maxpktsize ∨ nbytes ≤ xfrlen then
          -- the only exit that saves the toggle
          let hrsl ← maxRegRd rHRSL
          let toggle := if hrsl &&& bmRCVTOGRD ≠ 0 then bmRCVTOG1 else bmRCVTOG0
          setEpRecord addr ep fun r => { r with rcvToggle := toggle }
          return .inr 0
        else return .inl (data, xfrlen)

def xferInTransfer (fuel : Fuel) (addr ep : BYTE) (nbytes : WORD) (data : Ptr)
    (maxpktsize : BYTE) : Prog χ BYTE := do
  maxRegWr rHCTL (← epRecord addr ep).rcvToggle
  forever .transfer (inTransferRound fuel addr ep nbytes maxpktsize) fuel.transfer (data, 0)

def xferCtrlData (fuel : Fuel) (addr ep : BYTE) (nbytes : WORD) (dataptr : Ptr)
    (direction : Bool) : Prog χ BYTE := do
  if direction then
    setEpRecord addr ep fun r => { r with rcvToggle := bmRCVTOG1 }
    let maxPktSize := (← epRecord addr ep).maxPktSize
    let rcode ← xferInTransfer fuel addr ep nbytes dataptr (maxPktSize.setWidth 8)
    if rcode ≠ 0 then return rcode else xferDispatchPkt fuel tokOUTHS ep
  -- there is no OUT data stage
  else return 0xff

def xferCtrlND (fuel : Fuel) (ep : BYTE) (direction : Bool) : Prog χ BYTE :=
  if direction then xferDispatchPkt fuel tokOUTHS ep else xferDispatchPkt fuel tokINHS ep

/-- `XferCtrlReq`; a NULL `dataptr` is `none`. -/
def xferCtrlReq (fuel : Fuel) (addr ep bmReqType bRequest wValLo wValHi : BYTE)
    (wInd nbytes : WORD) (dataptr : Option Ptr) : Prog χ BYTE := do
  maxRegWr rPERADDR addr
  let direction := decide (bmReqType &&& 0x80 ≠ 0)
  maxBytesWr rSUDFIFO [bmReqType, bRequest, wValLo, wValHi, wInd.extractLsb' 0 8,
    wInd.extractLsb' 8 8, nbytes.extractLsb' 0 8, nbytes.extractLsb' 8 8]
  let rcode ← xferDispatchPkt fuel tokSETUP ep
  if rcode ≠ 0 then return rcode
  else
    match dataptr with
    | none => xferCtrlND fuel ep direction
    | some data => xferCtrlData fuel addr ep nbytes data direction

/-! ## Requests -/

def xferSetAddr (fuel : Fuel) (oldaddr ep newaddr : BYTE) : Prog χ BYTE :=
  xferCtrlReq fuel oldaddr ep bmReqSet usbRequestSetAddress newaddr 0x00 0x0000 0x0000 none

def xferSetConf (fuel : Fuel) (addr ep confValue : BYTE) : Prog χ BYTE :=
  xferCtrlReq fuel addr ep bmReqSet usbRequestSetConfiguration confValue 0x00 0x0000 0x0000 none

def xferGetDevDescr (fuel : Fuel) (addr ep : BYTE) (nbytes : WORD) (dataptr : Ptr) :
    Prog χ BYTE :=
  xferCtrlReq fuel addr ep bmReqGetDescr usbRequestGetDescriptor 0x00 usbDescriptorDevice
    0x0000 nbytes (some dataptr)

def xferGetConfDescr (fuel : Fuel) (addr ep : BYTE) (nbytes : WORD) (conf : BYTE)
    (dataptr : Ptr) : Prog χ BYTE :=
  xferCtrlReq fuel addr ep bmReqGetDescr usbRequestGetDescriptor conf
    usbDescriptorConfiguration 0x0000 nbytes (some dataptr)

def xferGetStrDescr (fuel : Fuel) (addr ep : BYTE) (nbytes : WORD) (index : BYTE)
    (langid : WORD) (dataptr : Ptr) : Prog χ BYTE :=
  xferCtrlReq fuel addr ep bmReqGetDescr usbRequestGetDescriptor index usbDescriptorString
    langid nbytes (some dataptr)

def xferSetProto (fuel : Fuel) (addr ep interface protocol : BYTE) : Prog χ BYTE :=
  xferCtrlReq fuel addr ep bmReqHidout hidRequestSetProtocol protocol 0x00
    (interface.setWidth 16) 0x0000 none

def xferGetProto (fuel : Fuel) (addr ep interface : BYTE) (dataptr : Ptr) : Prog χ BYTE :=
  xferCtrlReq fuel addr ep bmReqHidin hidRequestGetProtocol 0x00 0x00
    (interface.setWidth 16) 0x0001 (some dataptr)

def xferGetIdle (fuel : Fuel) (addr ep interface reportID : BYTE) (dataptr : Ptr) :
    Prog χ BYTE :=
  xferCtrlReq fuel addr ep bmReqHidin hidRequestGetIdle reportID 0
    (interface.setWidth 16) 0x0001 (some dataptr)

/-- `ConvUTF8ToStr`. -/
def convUTF8ToStr (utf8 : Ptr) (length : BYTE) : Prog χ Unit := do
  (List.range length.toNat).forM fun i => do
    store (utf8.add i) (← load (utf8.add (2 * i)))
  store (utf8.add length.toNat) 0x00

end Transfers

/-! ## More fuel -/

/-- Every loop may take at least as many rounds. -/
instance : LE Fuel where
  le fuel fuel' := fuel.wait ≤ fuel'.wait ∧ fuel.dispatch ≤ fuel'.dispatch ∧
    fuel.transfer ≤ fuel'.transfer ∧ fuel.walk ≤ fuel'.walk ∧ fuel.reset ≤ fuel'.reset

/-- The faults of a loop that may take no more rounds. -/
def RunsOut (e : Fault) : Prop := e ≠ .deref

section MoreFuel

variable {χ : Type} [Platform χ] {fuel fuel' : Fuel}

theorem waitDone_extends {n m : ℕ} (h : n ≤ m) (timeout : DWORD) :
    Extends RunsOut (waitDone n timeout : Prog χ BYTE) (waitDone m timeout) :=
  extends_whileLoop (by simp [RunsOut]) (fun _ => extends_refl _) h ()

theorem xferDispatchPkt_extends (h : fuel ≤ fuel') (token ep : BYTE) :
    Extends RunsOut (xferDispatchPkt fuel token ep : Prog χ BYTE)
      (xferDispatchPkt fuel' token ep) := by
  refine extends_bind (extends_refl _) fun now => ?_
  refine extends_forever (by simp [RunsOut]) (fun counts => ?_) h.2.1 _
  refine extends_bind (extends_refl _) fun _ => ?_
  exact extends_bind (waitDone_extends h.1 _) fun rcode => extends_refl _

theorem xferInTransfer_extends (h : fuel ≤ fuel') (addr ep : BYTE) (nbytes : WORD) (data : Ptr)
    (maxpktsize : BYTE) :
    Extends RunsOut (xferInTransfer fuel addr ep nbytes data maxpktsize : Prog χ BYTE)
      (xferInTransfer fuel' addr ep nbytes data maxpktsize) := by
  refine extends_bind (extends_refl _) fun r => extends_bind (extends_refl _) fun _ => ?_
  refine extends_forever (by simp [RunsOut]) (fun a => ?_) h.2.2.1 _
  exact extends_bind (xferDispatchPkt_extends h tokIN ep) fun rcode => extends_refl _

/-- A request goes the same way with more fuel. -/
theorem xferCtrlReq_extends (h : fuel ≤ fuel')
    (addr ep bmReqType bRequest wValLo wValHi : BYTE) (wInd nbytes : WORD)
    (dataptr : Option Ptr) :
    Extends RunsOut
      (xferCtrlReq fuel addr ep bmReqType bRequest wValLo wValHi wInd nbytes dataptr : Prog χ BYTE)
      (xferCtrlReq fuel' addr ep bmReqType bRequest wValLo wValHi wInd nbytes dataptr) := by
  refine extends_bind (extends_refl _) fun _ => extends_bind (extends_refl _) fun _ => ?_
  refine extends_bind (xferDispatchPkt_extends h tokSETUP ep) fun rcode =>
    extends_ite (extends_refl _) ?_
  cases dataptr with
  | none =>
    exact extends_ite (xferDispatchPkt_extends h tokOUTHS ep) (xferDispatchPkt_extends h tokINHS ep)
  | some data =>
    refine extends_ite ?_ (extends_refl _)
    refine extends_bind (extends_refl _) fun _ => extends_bind (extends_refl _) fun r => ?_
    exact extends_bind (xferInTransfer_extends h addr ep nbytes data _) fun rcode =>
      extends_ite (extends_refl _) (xferDispatchPkt_extends h tokOUTHS ep)

end MoreFuel

/-! ## Classes of programs with the transfers -/

section Classes

variable {χ : Type} [Platform χ]

/-- `C` has what the dispatch of a packet is made of once the packet is launched. -/
structure Waits (C : ∀ α : Type, Prog χ α → Prop) : Prop extends Closed C where
  hirq : C BYTE (maxRegRd rHIRQ)
  hrsl : C BYTE (maxRegRd rHRSL)
  wrHirq : ∀ val, C Unit (maxRegWr rHIRQ val)
  nticks : C DWORD altNticks
  wait : ∀ {α : Type}, C α (throw .wait)
  dispatch : ∀ {α : Type}, C α (throw .dispatch)

/-- `C` has what the dispatch of packets with this token is made of. -/
structure Launches (C : ∀ α : Type, Prog χ α → Prop) (token ep : BYTE) : Prop
    extends Waits C where
  launch : C Unit (maxRegWr rHXFR (token ||| ep))

/-- `C` has what an IN transfer is made of. -/
structure Receives (C : ∀ α : Type, Prog χ α → Prop) (addr ep : BYTE) : Prop
    extends Launches C tokIN ep where
  rd : ∀ reg, C BYTE (maxRegRd reg)
  store : ∀ p val, C Unit (store p val)
  wrHctl : ∀ val, C Unit (maxRegWr rHCTL val)
  epRecord : C EpRecord (epRecord addr ep)
  saveToggle : ∀ toggle, C Unit (setEpRecord addr ep fun r => { r with rcvToggle := toggle })
  transfer : ∀ {α : Type}, C α (throw .transfer)

/-- `C` has what the dispatch of any packet is made of. -/
structure Dispatches (C : ∀ α : Type, Prog χ α → Prop) : Prop extends Closed C where
  hirq : C BYTE (maxRegRd rHIRQ)
  hrsl : C BYTE (maxRegRd rHRSL)
  wr : ∀ reg val, C Unit (maxRegWr reg val)
  nticks : C DWORD altNticks
  wait : ∀ {α : Type}, C α (throw .wait)
  dispatch : ∀ {α : Type}, C α (throw .dispatch)

/-- `C` has what the requests with the endpoint record `ep` at `addr` are made of. -/
structure RequestsAt (C : ∀ α : Type, Prog χ α → Prop) (addr ep : BYTE) : Prop
    extends Dispatches C where
  rd : ∀ reg, C BYTE (maxRegRd reg)
  store : ∀ p val, C Unit (store p val)
  getHost : C Host getHost
  setEp : ∀ t ep f, C Unit (setHost fun h => h.setEp t ep f)
  transfer : ∀ {α : Type}, C α (throw .transfer)
  epinfo : C EpTable (epinfo addr ep)

/-- `C` has what the requests are made of, and what looks at the data. -/
structure TransfersAt (C : ∀ α : Type, Prog χ α → Prop) (addr ep : BYTE) : Prop
    extends RequestsAt C addr ep where
  load : ∀ p, C BYTE (load p)

/-- `C` has what the transfers are made of. -/
structure Transfers (C : ∀ α : Type, Prog χ α → Prop) : Prop extends Dispatches C where
  rd : ∀ reg, C BYTE (maxRegRd reg)
  load : ∀ p, C BYTE (load p)
  store : ∀ p val, C Unit (store p val)
  getHost : C Host getHost
  setEp : ∀ t ep f, C Unit (setHost fun h => h.setEp t ep f)
  transfer : ∀ {α : Type}, C α (throw .transfer)
  deref : ∀ {α : Type}, C α (throw .deref)
  access : ∀ addr ep, C Unit (access addr ep)

variable {C : ∀ α : Type, Prog χ α → Prop}

omit [Platform χ] in
/-- Where a fault at a missing record is allowed, any record may be looked up. -/
theorem epinfo_mem (hC : Closed C) {addr ep : BYTE} (haccess : C Unit (access addr ep))
    (hget : C Host getHost) (hderef : C EpTable (throw .deref)) : C EpTable (epinfo addr ep) := by
  refine hC.bind haccess fun _ => hC.bind hget fun h => ?_
  cases (h.devtable addr).epinfo with
  | none => exact hderef
  | some t => exact hC.ite (hC.pure t) hderef

namespace Waits

theorem altMs (hC : Waits C) : C DWORD altMs :=
  hC.bind hC.nticks fun _ => hC.pure _

theorem waitDone (hC : Waits C) (n : ℕ) (timeout : DWORD) : C BYTE (waitDone n timeout) := by
  refine hC.whileLoop hC.wait (fun _ => ?_) (fun _ => ?_) (fun _ => hC.pure _) n ()
  · exact hC.bind hC.altMs fun t => hC.pure _
  · refine hC.bind hC.hirq fun tmpdata => hC.ite ?_ (hC.pure _)
    exact hC.bind (hC.wrHirq bmHXFRDNIRQ) fun _ => hC.pure _

/-- A round of the dispatch launches the packet first. -/
theorem dispatchRound_eq (hC : Waits C) (fuel : Fuel) (timeout : DWORD) (token ep : BYTE)
    (counts : BYTE × BYTE) :
    ∃ rest : Prog χ ((BYTE × BYTE) ⊕ BYTE), C _ rest ∧
      dispatchRound fuel timeout token ep counts =
        (maxRegWr rHXFR (token ||| ep) >>= fun _ => rest) := by
  refine ⟨_, hC.bind (hC.waitDone fuel.wait timeout) fun rcode => ?_, rfl⟩
  refine hC.ite (hC.pure _) (hC.bind hC.hrsl fun hrsl => hC.ite ?_ (hC.ite ?_ (hC.pure _)))
  · exact hC.ite (hC.pure _) (hC.pure _)
  · exact hC.ite (hC.pure _) (hC.pure _)

end Waits

theorem Launches.xferDispatchPkt {token ep : BYTE} (hC : Launches C token ep) (fuel : Fuel) :
    C BYTE (xferDispatchPkt fuel token ep) := by
  refine hC.bind hC.altMs fun now => hC.forever hC.dispatch (fun counts => ?_) fuel.dispatch _
  obtain ⟨rest, hrest, hround⟩ := hC.dispatchRound_eq fuel (now + usbXferTimeout) token ep counts
  rw [hround]
  exact hC.bind hC.launch fun _ => hrest

namespace Receives

variable {addr ep : BYTE}

theorem rdByte (hC : Receives C addr ep) (reg : BYTE) (p : Ptr) : C Unit (rdByte reg p) :=
  hC.bind (hC.rd reg) fun v => hC.store p v

theorem maxBytesRd (hC : Receives C addr ep) (reg nbytes : BYTE) (data : Ptr) :
    C Ptr (maxBytesRd reg nbytes data) := by
  refine hC.bind (hC.forM (fun i => hC.rdByte reg _) _) fun _ => ?_
  exact hC.bind (hC.rdByte reg _) fun _ => hC.pure _

/-- A round of the transfer dispatches an IN packet first. -/
theorem inTransferRound_eq (hC : Receives C addr ep) (fuel : Fuel) (nbytes : WORD)
    (maxpktsize : BYTE) (a : Ptr × WORD) :
    ∃ rest : BYTE → Prog χ ((Ptr × WORD) ⊕ BYTE), (∀ rcode, C _ (rest rcode)) ∧
      inTransferRound fuel addr ep nbytes maxpktsize a =
        (xferDispatchPkt fuel tokIN ep >>= rest) := by
  refine ⟨_, fun rcode => hC.ite (hC.pure _) ?_, rfl⟩
  refine hC.bind (hC.rd rHIRQ) fun hirq => hC.ite (hC.pure _) ?_
  refine hC.bind (hC.rd rRCVBC) fun pktsize => hC.bind (hC.maxBytesRd _ _ _) fun data => ?_
  refine hC.bind (hC.wrHirq _) fun _ => hC.ite ?_ (hC.pure _)
  exact hC.bind (hC.rd rHRSL) fun hrsl => hC.bind (hC.saveToggle _) fun _ => hC.pure _

theorem inTransferRound (hC : Receives C addr ep) (fuel : Fuel) (nbytes : WORD)
    (maxpktsize : BYTE) (a : Ptr × WORD) :
    C ((Ptr × WORD) ⊕ BYTE) (inTransferRound fuel addr ep nbytes maxpktsize a) := by
  obtain ⟨rest, hrest, hround⟩ := hC.inTransferRound_eq fuel nbytes maxpktsize a
  rw [hround]
  exact hC.bind (hC.xferDispatchPkt fuel) hrest

theorem xferInTransfer (hC : Receives C addr ep) (fuel : Fuel) (nbytes : WORD) (data : Ptr)
    (maxpktsize : BYTE) : C BYTE (xferInTransfer fuel addr ep nbytes data maxpktsize) := by
  refine hC.bind hC.epRecord fun r => hC.bind (hC.wrHctl _) fun _ => ?_
  exact hC.forever hC.transfer (hC.inTransferRound fuel nbytes maxpktsize) _ _

end Receives

namespace Dispatches

theorem launches (hC : Dispatches C) (token ep : BYTE) : Launches C token ep where
  toClosed := hC.toClosed
  hirq := hC.hirq
  hrsl := hC.hrsl
  wrHirq := hC.wr rHIRQ
  nticks := hC.nticks
  wait := hC.wait
  dispatch := hC.dispatch
  launch := hC.wr rHXFR _

theorem altMs (hC : Dispatches C) : C DWORD altMs := (hC.launches 0 0).altMs

theorem xferDispatchPkt (hC : Dispatches C) (fuel : Fuel) (token ep : BYTE) :
    C BYTE (xferDispatchPkt fuel token ep) :=
  (hC.launches token ep).xferDispatchPkt fuel

/-- A request without a data stage is made of dispatches. -/
theorem xferCtrlReq_none (hC : Dispatches C) (fuel : Fuel)
    (addr ep bmReqType bRequest wValLo wValHi : BYTE) (wInd nbytes : WORD) :
    C BYTE (xferCtrlReq fuel addr ep bmReqType bRequest wValLo wValHi wInd nbytes none) := by
  refine hC.bind (hC.wr rPERADDR addr) fun _ => ?_
  refine hC.bind (hC.forM (fun b => hC.wr _ b) _) fun _ => ?_
  refine hC.bind (hC.xferDispatchPkt fuel tokSETUP ep) fun rcode => hC.ite (hC.pure _) ?_
  exact hC.ite (hC.xferDispatchPkt _ _ _) (hC.xferDispatchPkt _ _ _)

/-- And one with a data stage of an IN transfer besides. -/
theorem xferCtrlReq_some (hC : Dispatches C) {fuel : Fuel} {addr ep : BYTE} {nbytes : WORD}
    {data : Ptr}
    (htoggle : ∀ toggle, C Unit (setEpRecord addr ep fun r => { r with rcvToggle := toggle }))
    (hrecord : C EpRecord (epRecord addr ep))
    (htransfer : ∀ maxpktsize, C BYTE (xferInTransfer fuel addr ep nbytes data maxpktsize))
    (bmReqType bRequest wValLo wValHi : BYTE) (wInd : WORD) :
    C BYTE (xferCtrlReq fuel addr ep bmReqType bRequest wValLo wValHi wInd nbytes
      (some data)) := by
  refine hC.bind (hC.wr rPERADDR addr) fun _ => ?_
  refine hC.bind (hC.forM (fun b => hC.wr _ b) _) fun _ => ?_
  refine hC.bind (hC.xferDispatchPkt fuel tokSETUP ep) fun rcode => hC.ite (hC.pure _) ?_
  refine hC.ite (hC.bind (htoggle _) fun _ => hC.bind hrecord fun r => ?_) (hC.pure _)
  refine hC.bind (htransfer _) fun rcode => hC.ite (hC.pure _) ?_
  exact hC.xferDispatchPkt fuel tokOUTHS ep

end Dispatches

theorem Receives.xferCtrlReq {addr ep : BYTE} (hC : Receives C addr ep) (hD : Dispatches C)
    (fuel : Fuel) (bmReqType bRequest wValLo wValHi : BYTE) (wInd nbytes : WORD)
    (dataptr : Option Ptr) :
    C BYTE (xferCtrlReq fuel addr ep bmReqType bRequest wValLo wValHi wInd nbytes dataptr) := by
  cases dataptr with
  | none => exact hD.xferCtrlReq_none _ _ _ _ _ _ _ _ _
  | some data =>
    exact hD.xferCtrlReq_some hC.saveToggle hC.epRecord (hC.xferInTransfer fuel nbytes data)
      _ _ _ _ _

namespace RequestsAt

variable {addr ep : BYTE}

theorem epRecord (hC : RequestsAt C addr ep) : C EpRecord (epRecord addr ep) :=
  hC.bind hC.epinfo fun _ => hC.bind hC.getHost fun _ => hC.pure _

theorem setEpRecord (hC : RequestsAt C addr ep) (f : EpRecord → EpRecord) :
    C Unit (setEpRecord addr ep f) :=
  hC.bind hC.epinfo fun t => hC.setEp t ep f

theorem receives (hC : RequestsAt C addr ep) : Receives C addr ep where
  toLaunches := hC.launches tokIN ep
  rd := hC.rd
  store := hC.store
  wrHctl := hC.wr rHCTL
  epRecord := hC.epRecord
  saveToggle _ := hC.setEpRecord _
  transfer := hC.transfer

theorem xferInTransfer (hC : RequestsAt C addr ep) (fuel : Fuel) (nbytes : WORD) (data : Ptr)
    (maxpktsize : BYTE) : C BYTE (xferInTransfer fuel addr ep nbytes data maxpktsize) :=
  hC.receives.xferInTransfer fuel nbytes data maxpktsize

theorem xferCtrlReq (hC : RequestsAt C addr ep) (fuel : Fuel)
    (bmReqType bRequest wValLo wValHi : BYTE) (wInd nbytes : WORD) (dataptr : Option Ptr) :
    C BYTE (xferCtrlReq fuel addr ep bmReqType bRequest wValLo wValHi wInd nbytes dataptr) :=
  hC.receives.xferCtrlReq hC.toDispatches fuel _ _ _ _ _ _ _

end RequestsAt

namespace TransfersAt

variable {addr ep : BYTE}

theorem loadWord (hC : TransfersAt C addr ep) (p : Ptr) : C WORD (loadWord p) :=
  hC.bind (hC.load p) fun _ => hC.bind (hC.load _) fun _ => hC.pure _

theorem convUTF8ToStr (hC : TransfersAt C addr ep) (utf8 : Ptr) (length : BYTE) :
    C Unit (convUTF8ToStr utf8 length) := by
  refine hC.bind (hC.forM (fun i => ?_) _) fun _ => hC.store _ _
  exact hC.bind (hC.load _) fun v => hC.store _ v

end TransfersAt

namespace Transfers

theorem transfersAt (hC : Transfers C) (addr ep : BYTE) : TransfersAt C addr ep where
  toDispatches := hC.toDispatches
  rd := hC.rd
  load := hC.load
  store := hC.store
  getHost := hC.getHost
  setEp := hC.setEp
  transfer := hC.transfer
  epinfo := epinfo_mem hC.toClosed (hC.access addr ep) hC.getHost hC.deref

theorem epRecord (hC : Transfers C) (addr ep : BYTE) : C EpRecord (epRecord addr ep) :=
  (hC.transfersAt addr ep).epRecord

theorem setEpRecord (hC : Transfers C) (addr ep : BYTE) (f : EpRecord → EpRecord) :
    C Unit (setEpRecord addr ep f) :=
  (hC.transfersAt addr ep).setEpRecord f

theorem maxBytesWr (hC : Transfers C) (reg : BYTE) (data : List BYTE) :
    C Unit (maxBytesWr reg data) :=
  hC.forM (fun b => hC.wr reg b) data

theorem xferInTransfer (hC : Transfers C) (fuel : Fuel) (addr ep : BYTE) (nbytes : WORD)
    (data : Ptr) (maxpktsize : BYTE) :
    C BYTE (xferInTransfer fuel addr ep nbytes data maxpktsize) :=
  (hC.transfersAt addr ep).xferInTransfer fuel nbytes data maxpktsize

theorem xferCtrlReq (hC : Transfers C) (fuel : Fuel)
    (addr ep bmReqType bRequest wValLo wValHi : BYTE) (wInd nbytes : WORD)
    (dataptr : Option Ptr) :
    C BYTE (xferCtrlReq fuel addr ep bmReqType bRequest wValLo wValHi wInd nbytes dataptr) :=
  (hC.transfersAt addr ep).xferCtrlReq fuel bmReqType bRequest wValLo wValHi wInd nbytes dataptr

theorem convUTF8ToStr (hC : Transfers C) (utf8 : Ptr) (length : BYTE) :
    C Unit (convUTF8ToStr utf8 length) :=
  (hC.transfersAt 0 0).convUTF8ToStr utf8 length

end Transfers

end Classes

end TetrisFpga.Usb
