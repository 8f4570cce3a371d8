import TetrisFpga.Usb.Image
import TetrisFpga.Usb.Tasks

/-!
# Where the bytes of a run go

All that the program stores to `bigbuf` are the packets of the configuration requests, and each of
their bytes goes to its place behind the packets before it. So a run whose packets fit stores
nothing behind `bigbuf`, whatever else the device does.
-/

namespace TetrisFpga.Usb
open Program History

variable {χ : Type}

/-- What is stored from `w` to `w'` has its place if what was stored before has. -/
structure Places (w w' : World χ) : Prop where
  placed : Placed w.log → Placed w'.log

/-- Besides, no packet is announced and no transfer begins. -/
structure Idles (w w' : World χ) : Prop extends Places w w' where
  sizes : incoming w'.log = incoming w.log

/-- Neither a packet nor a store, nor the start of a transfer. -/
def Event.Mute (e : Event) : Prop :=
  (∀ log, incoming (e :: log) = incoming log) ∧ e.storeTo = none

theorem placed_cons {e : Event} (he : e.storeTo = none) {log : List Event} (h : Placed log) :
    Placed (e :: log) := by
  refine ⟨fun p hp => ?_, h.always⟩
  rw [he] at hp
  cases hp

theorem places_of_log {w w' : World χ} {e : Event} (he : e.storeTo = none)
    (h : w'.log = e :: w.log) : Places w w' := by
  refine ⟨fun hw => ?_⟩
  rw [h]
  exact placed_cons he hw

theorem idles_of_log {w w' : World χ} {e : Event} (he : e.Mute) (h : w'.log = e :: w.log) :
    Idles w w' :=
  ⟨places_of_log he.2 h, h ▸ he.1 w.log⟩

theorem places_of_eq {w w' : World χ} (h : w'.log = w.log) : Places w w' := by
  refine ⟨fun hw => ?_⟩
  rw [h]
  exact hw

theorem idles_of_eq {w w' : World χ} (h : w'.log = w.log) : Idles w w' :=
  ⟨places_of_eq h, congrArg incoming h⟩

theorem closed_places : Closed (ε := Fault) (fun _ => Moves (Places (χ := χ))) :=
  closed_moves (fun _ => places_of_eq rfl) fun h h' => ⟨fun hw => h'.placed (h.placed hw)⟩

theorem closed_idles : Closed (ε := Fault) (fun _ => Moves (Idles (χ := χ))) :=
  closed_moves (fun _ => idles_of_eq rfl)
    fun h h' => ⟨⟨fun hw => h'.placed (h.placed hw)⟩, h'.sizes.trans h.sizes⟩

theorem places_setHost (f : Host → Host) : Moves Places (setHost f : Prog χ Unit) :=
  fun _ => places_of_log rfl rfl

/-- Elsewhere anything may be stored. -/
theorem places_store {p : Ptr} (hp : p.obj ≠ .bigbuf) (val : BYTE) :
    Moves Places (store p val : Prog χ Unit) := by
  refine fun w => ⟨fun hw => ⟨fun q hq hobj => ?_, hw.always⟩⟩
  cases hq
  exact absurd hobj hp

theorem idles_epinfo (addr ep : BYTE) : Moves Idles (epinfo addr ep : Prog χ EpTable) :=
  epinfo_mem closed_idles (fun _ => idles_of_log ⟨fun _ => rfl, rfl⟩ rfl)
    (fun _ => idles_of_eq rfl) fun _ => idles_of_eq rfl

theorem idles_epRecord (addr ep : BYTE) : Moves Idles (epRecord addr ep : Prog χ EpRecord) :=
  closed_idles.bind (idles_epinfo addr ep) fun _ =>
    closed_idles.bind (fun _ => idles_of_eq rfl) fun _ => closed_idles.pure _

theorem idles_setEpRecord (addr ep : BYTE) (f : EpRecord → EpRecord) :
    Moves Idles (setEpRecord addr ep f : Prog χ Unit) :=
  closed_idles.bind (idles_epinfo addr ep) fun _ _ =>
    idles_of_log ⟨fun _ => rfl, rfl⟩ rfl

variable [Platform χ]

theorem idles_rd {reg : BYTE} (h : reg ≠ rRCVBC) : Moves Idles (maxRegRd reg : Prog χ BYTE) :=
  fun w => idles_of_log (e := .rd reg (Platform.rd w.chip reg).1) ⟨fun _ => if_neg h, rfl⟩ rfl

theorem places_rd (reg : BYTE) : Moves Places (maxRegRd reg : Prog χ BYTE) :=
  fun _ => places_of_log rfl rfl

theorem idles_wr {reg : BYTE} (h : reg ≠ rHCTL) (val : BYTE) :
    Moves Idles (maxRegWr reg val : Prog χ Unit) :=
  fun _ => idles_of_log (e := .wr reg val) ⟨fun _ => if_neg h, rfl⟩ rfl

theorem places_wr (reg val : BYTE) : Moves Places (maxRegWr reg val : Prog χ Unit) :=
  fun _ => places_of_log rfl rfl

theorem launches_idle (token ep : BYTE) : Launches (χ := χ) (fun _ => Moves Idles) token ep where
  toClosed := closed_idles
  hirq := idles_rd (by decide)
  hrsl := idles_rd (by decide)
  wrHirq := idles_wr (by decide)
  nticks _ := idles_of_log ⟨fun _ => rfl, rfl⟩ rfl
  wait _ := idles_of_eq rfl
  dispatch _ := idles_of_eq rfl
  launch := idles_wr (by decide) _

theorem dispatches_placing : Dispatches (χ := χ) (fun _ => Moves Places) where
  toClosed := closed_places
  hirq := places_rd rHIRQ
  hrsl := places_rd rHRSL
  wr := places_wr
  nticks _ := places_of_log rfl rfl
  wait _ := places_of_eq rfl
  dispatch _ := places_of_eq rfl

/-! ## One transfer -/

section Transfer

/-- The write pointer of a transfer to `o` stands behind its packets. -/
def AtPlace (o : Obj) (cur : Ptr) (w : World χ) : Prop :=
  Placed w.log ∧ cur = ⟨o, total (incoming w.log)⟩

/-- The length of the next packet has been read, but not yet the packet. -/
def Awaited (o : Obj) (cur : Ptr) (size : BYTE) (w : World χ) : Prop :=
  Placed w.log ∧ ∃ earlier, incoming w.log = size :: earlier ∧ cur = ⟨o, total earlier⟩

/-- A byte with this place may be stored. -/
def HasPlace (sizes : List BYTE) (p : Ptr) : Prop :=
  p.obj = .bigbuf → 1 ≤ total sizes → InArea ⟨.bigbuf, 0⟩ (total sizes) p

omit [Platform χ] in
theorem keeps_atPlace {α : Type} {x : Prog χ α} (hx : Moves Idles x) (o : Obj) (cur : Ptr) :
    Keeps (AtPlace o cur) (fun w => Placed w.log) x where
  ok w a w' hw hr := (hx.keeps fun _ _ h hw => by
    rw [AtPlace, h.sizes]
    exact ⟨h.placed hw.1, hw.2⟩).ok w a w' hw hr
  error w e w' hw hr := (hx.keeps fun _ _ h hw => h.placed hw).error w e w' hw.1 hr

theorem rdByte_places (p : Ptr) (w : World χ) (hp : HasPlace (incoming w.log) p)
    (hw : Placed w.log) :
    ∃ w', rdByte rRCVFIFO p w = .ok () w' ∧ incoming w'.log = incoming w.log ∧
      Placed w'.log := by
  refine ⟨_, rfl, rfl, ⟨fun q hq hobj => ?_, (placed_cons rfl hw).always⟩⟩
  cases hq
  exact ⟨rfl, hp hobj⟩

theorem rdBytes_places (at_ : ℕ → Ptr) (is : List ℕ) (w : World χ)
    (hp : ∀ i ∈ is, HasPlace (incoming w.log) (at_ i)) (hw : Placed w.log) :
    ∃ w', (is.forM fun i => rdByte rRCVFIFO (at_ i)) w = .ok () w' ∧
      incoming w'.log = incoming w.log ∧ Placed w'.log := by
  induction is generalizing w with
  | nil => exact ⟨w, rfl, rfl, hw⟩
  | cons i is ih =>
    obtain ⟨hi, his⟩ := List.forall_mem_cons.mp hp
    obtain ⟨w₁, hr₁, hsizes₁, hw₁⟩ := rdByte_places (at_ i) w hi hw
    obtain ⟨w₂, hr₂, hsizes₂, hw₂⟩ := ih w₁ (hsizes₁ ▸ his) hw₁
    exact ⟨w₂, (bind_of_ok hr₁ _).trans hr₂, hsizes₂.trans hsizes₁, hw₂⟩

/-- The bytes of a packet go behind the packets before it, and nothing else is stored. -/
theorem maxBytesRd_places (o : Obj) (size : BYTE) {earlier : List BYTE} {w : World χ}
    (hsizes : incoming w.log = size :: earlier) (hw : Placed w.log) :
    ∃ w', maxBytesRd rRCVFIFO size ⟨o, total earlier⟩ w =
        .ok ⟨o, total (size :: earlier)⟩ w' ∧
      incoming w'.log = size :: earlier ∧ Placed w'.log := by
  have hburst : ∀ i ∈ List.range (size.toNat - 1),
      HasPlace (incoming w.log) ((⟨o, total earlier⟩ : Ptr).add i) := by
    intro i hi hobj _
    have hlt := List.mem_range.mp hi
    rw [hsizes, total_cons]
    simp only [InArea, Ptr.add_obj, Ptr.add_off]
    exact ⟨hobj, by omega, by omega⟩
  obtain ⟨w₁, hr₁, hsizes₁, hw₁⟩ := rdBytes_places _ _ w hburst hw
  -- the last byte has a place only where the packets so far are not all empty
  have hlast : HasPlace (incoming w₁.log)
      ((⟨o, total earlier⟩ : Ptr).add (size.toNat - 1)) := by
    rw [hsizes₁, hsizes]
    intro hobj hpos
    rw [total_cons] at hpos
    rw [total_cons]
    simp only [InArea, Ptr.add_obj, Ptr.add_off]
    exact ⟨hobj, by omega, by omega⟩
  obtain ⟨w₂, hr₂, hsizes₂, hw₂⟩ := rdByte_places _ w₁ hlast hw₁
  refine ⟨w₂, ?_, hsizes₂.trans (hsizes₁.trans hsizes), hw₂⟩
  have hend : (⟨o, total earlier⟩ : Ptr).add size.toNat = ⟨o, total (size :: earlier)⟩ := by
    rw [total_cons]
    simp only [Ptr.add, Ptr.mk.injEq, true_and]
    omega
  rw [maxBytesRd, bind_of_ok hr₁, bind_of_ok hr₂, ← hend]
  rfl

theorem awaited_maxBytesRd (o : Obj) (cur : Ptr) (size : BYTE) :
    Triple (Awaited o cur size) (maxBytesRd rRCVFIFO size cur : Prog χ Ptr)
      (fun cur' => AtPlace o cur') (fun w => Placed w.log) where
  ok w a w' hw hr := by
    obtain ⟨hplaced, earlier, hsizes, rfl⟩ := hw
    obtain ⟨w₁, hrun, hsizes₁, hw₁⟩ := maxBytesRd_places o size hsizes hplaced
    cases hrun.symm.trans hr
    exact ⟨hw₁, by rw [hsizes₁]⟩
  error w e w' hw hr := by
    obtain ⟨hplaced, earlier, hsizes, rfl⟩ := hw
    obtain ⟨w₁, hrun, -⟩ := maxBytesRd_places o size hsizes hplaced
    cases hrun.symm.trans hr

theorem atPlace_rcvbc (o : Obj) (cur : Ptr) :
    Triple (AtPlace o cur) (maxRegRd rRCVBC : Prog χ BYTE) (fun size => Awaited o cur size)
      (fun w => Placed w.log) where
  ok w a w' hw hr := by
    cases hr
    exact ⟨placed_cons rfl hw.1, incoming w.log, rfl, hw.2⟩
  error w e w' _ hr := by cases hr

/-- One round of the transfer, whatever the device answers. -/
theorem atPlace_inTransferRound (o : Obj) (fuel : Fuel) (addr ep : BYTE) (nbytes : WORD)
    (maxpktsize : BYTE) (a : Ptr × WORD) :
    Triple (AtPlace o a.1) (inTransferRound fuel addr ep nbytes maxpktsize a : Prog χ _)
      (Sum.rec (fun a' => AtPlace o a'.1) fun _ w => Placed w.log) (fun w => Placed w.log) := by
  obtain ⟨cur, xfrlen⟩ := a
  refine triple_bind (keeps_atPlace ((launches_idle tokIN ep).xferDispatchPkt fuel) o cur)
    fun rcode => triple_ite (fun _ => triple_pure fun w h => h.1) fun _ => ?_
  refine triple_bind (keeps_atPlace (idles_rd (by decide)) o cur) fun hirq =>
    triple_ite (fun _ => triple_pure fun w h => h.1) fun _ => ?_
  refine triple_bind (atPlace_rcvbc o cur) fun size =>
    triple_bind (awaited_maxBytesRd o cur size) fun cur' => ?_
  refine triple_bind (keeps_atPlace (idles_wr (by decide) _) o cur') fun _ =>
    triple_ite (fun _ => ?_) fun _ => triple_pure fun w h => h
  refine triple_bind (keeps_atPlace (idles_rd (by decide)) o cur') fun hrsl => ?_
  exact triple_bind (keeps_atPlace (idles_setEpRecord addr ep _) o cur') fun _ =>
    triple_pure fun w h => h.1

theorem atPlace_start (o : Obj) (val : BYTE) :
    Triple (fun w => Placed w.log) (maxRegWr rHCTL val : Prog χ Unit)
      (fun _ => AtPlace o ⟨o, 0⟩) (fun w => Placed w.log) where
  ok w a w' hw hr := by
    cases hr
    exact ⟨placed_cons rfl hw, rfl⟩
  error w e w' _ hr := by cases hr

/-- A transfer to the start of an object puts every byte in its place. -/
theorem places_xferInTransfer (fuel : Fuel) (addr ep : BYTE) (nbytes : WORD) (o : Obj)
    (maxpktsize : BYTE) :
    Moves Places (xferInTransfer fuel addr ep nbytes ⟨o, 0⟩ maxpktsize : Prog χ BYTE) := by
  have htransfer : Triple (fun w => Placed w.log)
      (xferInTransfer fuel addr ep nbytes ⟨o, 0⟩ maxpktsize : Prog χ BYTE)
      (fun _ w => Placed w.log) (fun w => Placed w.log) := by
    refine triple_bind ((idles_epRecord addr ep).keeps fun _ _ h => h.placed) fun r =>
      triple_bind (atPlace_start o r.rcvToggle) fun _ => ?_
    exact triple_forever (atPlace_inTransferRound o fuel addr ep nbytes maxpktsize)
      (fun _ _ h => h.1) fuel.transfer (⟨o, 0⟩, 0)
  exact fun w => ⟨fun hw => htransfer.final hw⟩

end Transfer

/-! ## Requests and the loop -/

theorem places_request (p : SetupPkt) (fuel : Fuel) (addr ep : BYTE) :
    Moves Places (p.request fuel addr ep : Prog χ BYTE) := by
  have hD : Dispatches (χ := χ) fun _ => Moves Places := dispatches_placing
  rw [SetupPkt.request]
  cases p.destination with
  | none => exact hD.xferCtrlReq_none _ _ _ _ _ _ _ _ _
  | some o =>
    -- the data stage is a transfer to the start of an object
    exact hD.xferCtrlReq_some (fun toggle w => (idles_setEpRecord addr ep _ w).toPlaces)
      (fun w => (idles_epRecord addr ep w).toPlaces) (places_xferInTransfer fuel addr ep _ o)
      _ _ _ _ _

/-- All of the program puts the bytes of the packets in their places. -/
theorem loop_placing : Loop fun α (x : Prog χ α) => Moves Places x where
  toClosed := closed_places
  getHost _ := places_of_eq rfl
  assign f _ := places_setHost f
  setState _ _ := places_setHost _
  declare _ _ := places_of_eq rfl
  load _ _ := places_of_log rfl rfl
  store _ val hobj := places_store hobj val
  getPio _ := places_of_eq rfl
  setPio _ _ := places_of_eq rfl
  nticks _ := places_of_log rfl rfl
  rd := places_rd
  wr reg val _ := places_wr reg val
  epinfo addr ep w := (idles_epinfo addr ep w).toPlaces
  fault _ _ _ _ := places_of_eq rfl
  inTransfer _ _ _ _ _ := places_xferInTransfer _ _ _ _ _ _
  request p _ fuel addr ep := places_request p fuel addr ep
  setHost := places_setHost
  irq _ := places_of_log rfl rfl
  gpx _ := places_of_log rfl rfl
  usbRst _ _ := places_of_log rfl rfl
  reset _ := places_of_eq rfl

/-- In a run of `main` whose packets fit, nothing behind `bigbuf` is stored to. -/
theorem main_confined {fuel : Fuel} {n : ℕ} {w : World χ} (hw : w.log = [])
    (hfit : PacketsFit (final (main fuel n w)).log) : Confined (final (main fuel n w)).log := by
  have hmain : Moves Places (main fuel n : Prog χ Unit) :=
    loop_placing.main
      (fun bLength => places_request (.getDevDescr (bLength.setWidth 16)) fuel 0 0) n
  refine confined_of_packetsFit ((hmain w).placed ?_) hfit
  rw [hw]
  exact placed_nil

end TetrisFpga.Usb
