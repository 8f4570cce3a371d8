import Mathlib.Data.Nat.Find
import TetrisFpga.Usb.Toggles

/-!
# An endless supply of packets

`XferInTransfer` has no bound on its packets: it ends with a short one, or when `xfrlen` has come
up to `nbytes`. Both can fail for ever. The maximum is narrowed to eight bits, and where they are 0
no packet is short, not even an empty one. And `xfrlen` has sixteen bits: it can step from below
`nbytes` over the wrap to 0.
-/

namespace TetrisFpga.Usb
open Program

/-! ## The packets of a transfer -/

/-- The first `k` packets of a supply, the newest first. -/
def packets (sizes : ℕ → BYTE) : ℕ → List BYTE
  | 0 => []
  | k + 1 => sizes k :: packets sizes k

/-- The requests that every supply completes. -/
def Bounded (nbytes : WORD) (maxpktsize : BYTE) : Prop :=
  nbytes = 0 ∨ maxpktsize ≠ 0 ∧ (nbytes.toNat ≤ 65281 ∨ maxpktsize = 255)

variable {nbytes : WORD} {maxpktsize : BYTE} {sizes : ℕ → BYTE}

theorem total_packets_succ (sizes : ℕ → BYTE) (k : ℕ) :
    total (packets sizes (k + 1)) = (sizes k).toNat + total (packets sizes k) := total_cons _ _

theorem not_complete_iff {k : ℕ} :
    ¬Complete nbytes maxpktsize (packets sizes (k + 1)) ↔
      maxpktsize.toNat ≤ (sizes k).toNat ∧
        total (packets sizes (k + 1)) % 65536 < nbytes.toNat := by
  rw [packets, Complete, not_or, BitVec.not_lt, BitVec.not_le, BitVec.le_def, BitVec.lt_def,
    BitVec.toNat_ofNat]

/-- Below the wrap every packet that does not complete the transfer brings it on. -/
theorem total_ge (hmax : maxpktsize ≠ 0) (hfew : nbytes.toNat ≤ 65281) {k : ℕ}
    (h : ∀ j < k, ¬Complete nbytes maxpktsize (packets sizes (j + 1))) :
    k ≤ total (packets sizes k) ∧ (k = 0 ∨ total (packets sizes k) < nbytes.toNat) := by
  have hpos : 0 < maxpktsize.toNat := Nat.pos_of_ne_zero fun h0 => hmax (BitVec.eq_of_toNat_eq h0)
  induction k with
  | zero => exact ⟨Nat.zero_le _, .inl rfl⟩
  | succ k ih =>
    obtain ⟨hge, hlt⟩ := ih fun j hj => h j (by omega)
    obtain ⟨hshort, hopen⟩ := not_complete_iff.mp (h k (by omega))
    rw [total_packets_succ] at hopen ⊢
    have hsize := (sizes k).isLt
    have hbelow : total (packets sizes k) ≤ 65280 := by
      rcases hlt with rfl | hlt
      · exact Nat.zero_le _
      · omega
    rw [Nat.mod_eq_of_lt (by omega)] at hopen
    omega

/-- Packets of 255 bytes come to 65535 before the wrap. -/
theorem total_full {k : ℕ} (hk : k ≤ 257)
    (h : ∀ j < k, ¬Complete nbytes 255 (packets sizes (j + 1))) :
    total (packets sizes k) = 255 * k := by
  induction k with
  | zero => rfl
  | succ k ih =>
    obtain ⟨hshort, -⟩ := not_complete_iff.mp (h k (by omega))
    have hsize := (sizes k).isLt
    have hfull : (255 : BYTE).toNat = 255 := rfl
    rw [total_packets_succ, ih (by omega) fun j hj => h j (by omega)]
    omega

/-- The supply that never ends: 254 packets of 254 bytes and 4 of 255, again and again. -/
def overTheWrap (k : ℕ) : BYTE := if k % 258 < 254 then 254 else 255

theorem total_overTheWrap (k : ℕ) :
    total (packets overTheWrap k) = 65536 * (k / 258) + 254 * (k % 258) + (k % 258 - 254) := by
  induction k with
  | zero => rfl
  | succ k ih =>
    have hsize : (overTheWrap k).toNat = if k % 258 < 254 then 254 else 255 := by
      unfold overTheWrap
      split <;> rfl
    rw [total_packets_succ, ih, hsize]
    split <;> omega

/-- A bounded request is completed with one of the first `nbytes + 1` packets. -/
theorem Bounded.completes (h : Bounded nbytes maxpktsize) (sizes : ℕ → BYTE) :
    ∃ k ≤ nbytes.toNat, Complete nbytes maxpktsize (packets sizes (k + 1)) := by
  by_contra hnone
  have hopen (k : ℕ) (hk : k ≤ nbytes.toNat) :
      ¬Complete nbytes maxpktsize (packets sizes (k + 1)) := fun hc => hnone ⟨k, hk, hc⟩
  obtain rfl | ⟨hmax, hfew | rfl⟩ := h
  · exact hopen 0 (Nat.zero_le _) (.inr (Nat.zero_le _))
  · obtain ⟨hge, hlt⟩ := total_ge hmax hfew (k := nbytes.toNat + 1) fun j hj => hopen j (by omega)
    omega
  · by_cases hmany : 256 ≤ nbytes.toNat
    · have htotal := total_full (k := 257) (Nat.le_refl _) fun j hj => hopen j (by omega)
      have hlt : total (packets sizes 257) % 65536 < nbytes.toNat :=
        (not_complete_iff.mp (hopen 256 hmany)).2
      have hbits := nbytes.isLt
      omega
    · obtain ⟨hge, hlt⟩ := total_ge hmax (by omega) (k := nbytes.toNat + 1)
        fun j hj => hopen j (by omega)
      omega

theorem total_empty (k : ℕ) : total (packets (fun _ => 0) k) = 0 := by
  induction k with
  | zero => rfl
  | succ k ih =>
    rw [total_packets_succ, ih]
    rfl

/-- Every other request has a supply that never completes it. -/
theorem exists_endless (h : ¬Bounded nbytes maxpktsize) :
    ∃ sizes, ∀ k, ¬Complete nbytes maxpktsize (packets sizes (k + 1)) := by
  rw [Bounded, not_or, not_and_or, not_or, not_not] at h
  obtain ⟨hne, hempty | ⟨hmany, hnot⟩⟩ := h
  · subst hempty
    have hpos : 0 < nbytes.toNat := Nat.pos_of_ne_zero fun h0 => hne (BitVec.eq_of_toNat_eq h0)
    refine ⟨fun _ => 0, fun k => not_complete_iff.mpr ⟨Nat.le_refl _, ?_⟩⟩
    rw [total_empty]
    exact hpos
  · have hle : maxpktsize.toNat ≤ 254 := by
      have hbits := maxpktsize.isLt
      have hne255 : maxpktsize.toNat ≠ 255 := fun h255 => hnot (BitVec.eq_of_toNat_eq h255)
      omega
    refine ⟨overTheWrap, fun k => not_complete_iff.mpr ⟨Nat.le_trans hle ?_, ?_⟩⟩
    · unfold overTheWrap
      split <;> decide
    · have hround := Nat.mod_lt (k + 1) (show 258 > 0 by decide)
      rw [total_overTheWrap, Nat.add_assoc, Nat.mul_add_mod, Nat.mod_eq_of_lt (by omega)]
      omega

/-! ## The transfer on a board that supplies packets -/

section Transfer

variable {χ : Type} [Platform χ]

/-- A board on which every IN packet to `ep` is acknowledged and brings data: `sizes` are the
lengths. In `ready k` the packet `k` has not been asked for; in `holds k` it is in the FIFO, until
its interrupt is cleared. -/
structure Supplies (fuel : Fuel) (ep : BYTE) (sizes : ℕ → BYTE) (ready holds : ℕ → χ → Prop) :
    Prop where
  dispatch : ∀ k (w : World χ), ready k w.chip →
    ∃ w', xferDispatchPkt fuel tokIN ep w = .ok 0 w' ∧ holds k w'.chip
  available : ∀ k c, holds k c → (Platform.rd c rHIRQ).1 &&& bmRCVDAVIRQ ≠ 0
  length : ∀ k c, holds k c → (Platform.rd c rRCVBC).1 = sizes k
  rd : ∀ k c reg, holds k c → holds k (Platform.rd c reg).2
  release : ∀ k c, holds k c → ready (k + 1) (Platform.wr c rHIRQ bmRCVDAVIRQ)
  toggle : ∀ k c val, ready k c → ready k (Platform.wr c rHCTL val)

/-- Neither the variables nor the packets that were read have changed. -/
def Apart (w w' : World χ) : Prop :=
  w'.host = w.host ∧ packetSizes w'.log = packetSizes w.log

omit [Platform χ] in
theorem apart_of_log {w w' : World χ} {e : Event} (he : e.packetSize = none)
    (hhost : w'.host = w.host) (h : w'.log = e :: w.log) : Apart w w' :=
  ⟨hhost, by rw [h, packetSizes, List.filterMap_cons_none he]; rfl⟩

theorem dispatches_apart : Dispatches fun _ => Moves (Apart (χ := χ)) where
  toClosed := closed_moves (fun _ => ⟨rfl, rfl⟩) fun h h' => ⟨h'.1.trans h.1, h'.2.trans h.2⟩
  hirq _ := apart_of_log (Event.silent_rd (by decide) _).2 rfl rfl
  hrsl _ := apart_of_log (Event.silent_rd (by decide) _).2 rfl rfl
  wr _ _ _ := apart_of_log rfl rfl rfl
  nticks _ := apart_of_log rfl rfl rfl
  wait _ := ⟨rfl, rfl⟩
  dispatch _ := ⟨rfl, rfl⟩

/-- While a packet is read from the FIFO. -/
theorem moves_maxBytesRd_holds {fuel : Fuel} {ep : BYTE} {ready holds : ℕ → χ → Prop}
    (h : Supplies fuel ep sizes ready holds) (k : ℕ) (size : BYTE) (data : Ptr) :
    Moves (fun w w' => (holds k w.chip → holds k w'.chip) ∧ Apart w w')
      (maxBytesRd rRCVFIFO size data : Prog χ Ptr) := by
  have hC : Closed fun α (x : Prog χ α) =>
      Moves (fun w w' => (holds k w.chip → holds k w'.chip) ∧ Apart w w') x :=
    closed_moves (fun _ => ⟨id, rfl, rfl⟩) fun h h' =>
      ⟨fun hw => h'.1 (h.1 hw), h'.2.1.trans h.2.1, h'.2.2.trans h.2.2⟩
  have hbyte (p : Ptr) : Moves (fun w w' => (holds k w.chip → holds k w'.chip) ∧ Apart w w')
      (rdByte rRCVFIFO p : Prog χ Unit) := by
    refine hC.bind (fun w => ⟨h.rd k w.chip _, ?_⟩) fun val w => ⟨id, ?_⟩
    · exact apart_of_log (Event.silent_rd (by decide) _).2 rfl rfl
    · exact apart_of_log rfl rfl rfl
  exact hC.bind (hC.forM (fun i => hbyte _) _) fun _ => hC.bind (hbyte _) fun _ => hC.pure _

variable {fuel : Fuel} {addr ep : BYTE} {t : EpTable} {ready holds : ℕ → χ → Prop}

/-- The transfer has read `k` packets and is about to ask for the next one. -/
structure Asking (addr : BYTE) (t : EpTable) (sizes : ℕ → BYTE) (ready : ℕ → χ → Prop) (k : ℕ)
    (w : World χ) : Prop where
  record : (w.host.devtable addr).epinfo = some t
  ready : ready k w.chip
  sizes : packetSizes w.log = packets sizes k

variable (nbytes maxpktsize) in
/-- A round reads the packet `k` and takes it from the FIFO; then the transfer ends or goes on. -/
theorem inTransferRound_packet (h : Supplies fuel ep sizes ready holds) {k : ℕ} {w : World χ}
    (hw : Asking addr t sizes ready k w) (data : Ptr) :
    ∃ data' w', Asking addr t sizes ready (k + 1) w' ∧
      inTransferRound fuel addr ep nbytes maxpktsize
          (data, BitVec.ofNat 16 (total (packets sizes k))) w =
        (if Complete nbytes maxpktsize (packets sizes (k + 1)) then do
          let hrsl ← maxRegRd rHRSL
          let toggle := if hrsl &&& bmRCVTOGRD ≠ 0 then bmRCVTOG1 else bmRCVTOG0
          setEpRecord addr ep fun r => { r with rcvToggle := toggle }
          return .inr 0
        else return .inl (data', BitVec.ofNat 16 (total (packets sizes (k + 1)))) :
          Prog χ ((Ptr × WORD) ⊕ BYTE)) w' := by
  obtain ⟨w₁, hr₁, hholds₁⟩ := h.dispatch k w hw.ready
  have hapart₁ : Apart w w₁ := by
    have hmoves := dispatches_apart.xferDispatchPkt fuel tokIN ep w
    rwa [hr₁] at hmoves
  have hholds₂ : holds k (w₁.afterRd rHIRQ).chip := h.rd k _ rHIRQ hholds₁
  have hholds₃ : holds k ((w₁.afterRd rHIRQ).afterRd rRCVBC).chip := h.rd k _ rRCVBC hholds₂
  have hlength : (Platform.rd (w₁.afterRd rHIRQ).chip rRCVBC).1 = sizes k := h.length k _ hholds₂
  obtain ⟨w₄, hr₄, -⟩ := maxBytesRd_run (by decide : rRCVFIFO ≠ rRCVBC) (sizes k) data
    ((w₁.afterRd rHIRQ).afterRd rRCVBC)
  obtain ⟨hholds₄, hapart₄⟩ := moves_maxBytesRd_holds h k (sizes k) data
    ((w₁.afterRd rHIRQ).afterRd rRCVBC)
  rw [hr₄] at hholds₄ hapart₄
  have hhost₄ : w₄.host = w₁.host := hapart₄.1
  have hsizes₄ : packetSizes w₄.log = packets sizes (k + 1) := by
    refine hapart₄.2.trans ?_
    show (Platform.rd (w₁.afterRd rHIRQ).chip rRCVBC).1 :: packetSizes w₁.log = _
    rw [hlength, hapart₁.2, hw.sizes, packets]
  refine ⟨data.add (sizes k).toNat, { w₄ with
    chip := Platform.wr w₄.chip rHIRQ bmRCVDAVIRQ, log := .wr rHIRQ bmRCVDAVIRQ :: w₄.log },
    ⟨?_, h.release k _ (hholds₄ hholds₃), hsizes₄⟩, ?_⟩
  · show (w₄.host.devtable addr).epinfo = some t
    rw [hhost₄, hapart₁.1]
    exact hw.record
  -- `xfrlen` is the sum of the lengths modulo 2^16
  · have hlen : BitVec.ofNat 16 (total (packets sizes k)) + (sizes k).setWidth 16 =
        BitVec.ofNat 16 (total (packets sizes (k + 1))) := xfrlen_add rfl (sizes k)
    rw [inTransferRound, bind_of_ok hr₁]
    refine (congrFun (if_neg (not_not_intro rfl)) w₁).trans ?_
    rw [bind_of_ok (maxRegRd_run rHIRQ w₁)]
    refine (congrFun (if_neg (h.available k _ hholds₁)) _).trans ?_
    rw [bind_of_ok (maxRegRd_run rRCVBC _), hlength, bind_of_ok hr₄, hlen]
    rfl

theorem inTransferRound_goesOn (h : Supplies fuel ep sizes ready holds) {k : ℕ} {w : World χ}
    (hw : Asking addr t sizes ready k w)
    (hopen : ¬Complete nbytes maxpktsize (packets sizes (k + 1))) (data : Ptr) :
    ∃ data' w', inTransferRound fuel addr ep nbytes maxpktsize
        (data, BitVec.ofNat 16 (total (packets sizes k))) w =
          .ok (.inl (data', BitVec.ofNat 16 (total (packets sizes (k + 1))))) w' ∧
      Asking addr t sizes ready (k + 1) w' := by
  obtain ⟨data', w', hw', hr⟩ := inTransferRound_packet nbytes maxpktsize h hw data
  rw [if_neg hopen] at hr
  exact ⟨data', w', hr, hw'⟩

theorem inTransferRound_ends (h : Supplies fuel ep sizes ready holds) (ht : ep.toNat < t.size)
    {k : ℕ} {w : World χ} (hw : Asking addr t sizes ready k w)
    (hdone : Complete nbytes maxpktsize (packets sizes (k + 1))) (data : Ptr) :
    ∃ w', inTransferRound fuel addr ep nbytes maxpktsize
        (data, BitVec.ofNat 16 (total (packets sizes k))) w = .ok (.inr 0) w' ∧
      packetSizes w'.log = packets sizes (k + 1) := by
  obtain ⟨data', w₁, hw₁, hr⟩ := inTransferRound_packet nbytes maxpktsize h hw data
  have hrecord : ((w₁.afterRd rHRSL).host.devtable addr).epinfo = some t := hw₁.record
  rw [if_pos hdone, bind_of_ok (maxRegRd_run rHRSL w₁)] at hr
  refine ⟨_, hr.trans (bind_of_ok (setEpRecord_run hrecord ht) _), ?_⟩
  exact hw₁.sizes

/-- The transfer ends with the packet `m`, the first that completes it. -/
theorem transferLoop_ends (h : Supplies fuel ep sizes ready holds) (ht : ep.toNat < t.size)
    {k m n : ℕ} (hk : k ≤ m) (hn : m < k + n) {w : World χ} (hw : Asking addr t sizes ready k w)
    (hopen : ∀ j < m, ¬Complete nbytes maxpktsize (packets sizes (j + 1)))
    (hdone : Complete nbytes maxpktsize (packets sizes (m + 1))) (data : Ptr) :
    ∃ w', forever .transfer (inTransferRound fuel addr ep nbytes maxpktsize) n
        (data, BitVec.ofNat 16 (total (packets sizes k))) w = .ok 0 w' ∧
      packetSizes w'.log = packets sizes (m + 1) := by
  induction n generalizing k w data with
  | zero => omega
  | succ n ih =>
    rw [forever_succ]
    by_cases hlast : k = m
    · subst hlast
      obtain ⟨w', hr, hsizes⟩ := inTransferRound_ends h ht hw hdone data
      exact ⟨w', bind_of_ok hr _, hsizes⟩
    · obtain ⟨data', w₁, hr, hw₁⟩ := inTransferRound_goesOn h hw (hopen k (by omega)) data
      obtain ⟨w', hr', hsizes⟩ := ih (by omega) (by omega) hw₁ data'
      exact ⟨w', (bind_of_ok hr _).trans hr', hsizes⟩

/-- Without such a packet it uses up any fuel. -/
theorem transferLoop_spins (h : Supplies fuel ep sizes ready holds)
    (hopen : ∀ k, ¬Complete nbytes maxpktsize (packets sizes (k + 1))) (n : ℕ) {k : ℕ}
    {w : World χ} (hw : Asking addr t sizes ready k w) (data : Ptr) :
    ∃ w', forever .transfer (inTransferRound fuel addr ep nbytes maxpktsize) n
      (data, BitVec.ofNat 16 (total (packets sizes k))) w = .error .transfer w' := by
  have hround (a : Ptr × WORD) (w : World χ)
      (hI : ∃ k, a.2 = BitVec.ofNat 16 (total (packets sizes k)) ∧
        Asking addr t sizes ready k w) :
      true = true ∧ ((∃ a' w', inTransferRound fuel addr ep nbytes maxpktsize a w =
          .ok (.inl a') w' ∧ ∃ k, a'.2 = BitVec.ofNat 16 (total (packets sizes k)) ∧
            Asking addr t sizes ready k w') ∨
        ∃ w', inTransferRound fuel addr ep nbytes maxpktsize a w = .error .transfer w') := by
    obtain ⟨data, xfrlen⟩ := a
    obtain ⟨k, rfl, hw⟩ := hI
    obtain ⟨data', w', hr, hw'⟩ := inTransferRound_goesOn h hw (hopen k) data
    exact ⟨rfl, .inl ⟨_, w', hr, k + 1, rfl, hw'⟩⟩
  exact whileLoop_spins hround n ⟨k, rfl, hw⟩

variable (nbytes maxpktsize) in
/-- The start of the transfer. -/
theorem xferInTransfer_eq (h : Supplies fuel ep sizes ready holds) (ht : ep.toNat < t.size)
    {w : World χ} (hw : Asking addr t sizes ready 0 w) (data : Ptr) :
    ∃ w', Asking addr t sizes ready 0 w' ∧
      xferInTransfer fuel addr ep nbytes data maxpktsize w =
        forever .transfer (inTransferRound fuel addr ep nbytes maxpktsize) fuel.transfer
          (data, 0) w' := by
  have htoggle := h.toggle 0 w.chip (w.host.eps t ep).rcvToggle hw.ready
  refine ⟨{ w with
    chip := Platform.wr w.chip rHCTL (w.host.eps t ep).rcvToggle
    log := .wr rHCTL (w.host.eps t ep).rcvToggle :: .access addr ep :: w.log },
    ⟨hw.record, htoggle, hw.sizes⟩, ?_⟩
  rw [xferInTransfer, bind_of_ok (epRecord_run hw.record ht)]
  rfl

end Transfer

/-! ## When a transfer is sure to end -/

/-- With this maximum in the endpoint record, `XferInTransfer` returns after `nbytes + 1` packets at
most, whatever board supplies them and whatever their lengths are. -/
def EndsInTime (nbytes maxPktSize : WORD) : Prop :=
  ∀ (χ : Type) [Platform χ] (fuel : Fuel) (addr ep : BYTE) (t : EpTable) (sizes : ℕ → BYTE)
    (ready holds : ℕ → χ → Prop) (data : Ptr) (w : World χ),
    Supplies fuel ep sizes ready holds → ready 0 w.chip →
    (w.host.devtable addr).epinfo = some t → ep.toNat < t.size →
    (w.host.eps t ep).maxPktSize = maxPktSize → nbytes.toNat + 1 ≤ fuel.transfer →
    ∃ w', xferInTransfer fuel addr ep nbytes data ((w.host.eps t ep).maxPktSize.setWidth 8)
        { w with log := [] } = .ok 0 w' ∧
      (packetSizes w'.log).length ≤ nbytes.toNat + 1

theorem length_packets (sizes : ℕ → BYTE) (k : ℕ) : (packets sizes k).length = k := by
  induction k with
  | zero => rfl
  | succ k ih => rw [packets, List.length_cons, ih]

theorem endsInTime_of_bounded {maxPktSize : WORD}
    (hbounded : Bounded nbytes (maxPktSize.setWidth 8)) : EndsInTime nbytes maxPktSize := by
  classical
  rintro χ _ fuel addr ep t sizes ready holds data w h hready hrecord ht rfl hfuel
  obtain ⟨m, hm, hdone⟩ := hbounded.completes sizes
  have hex : ∃ m, Complete nbytes ((w.host.eps t ep).maxPktSize.setWidth 8)
      (packets sizes (m + 1)) := ⟨m, hdone⟩
  have hle : Nat.find hex ≤ m := Nat.find_min' hex hdone
  have hstart : Asking addr t sizes ready 0 { w with log := [] } := ⟨hrecord, hready, rfl⟩
  obtain ⟨w₁, hw₁, hr⟩ := xferInTransfer_eq nbytes ((w.host.eps t ep).maxPktSize.setWidth 8) h ht
    hstart data
  obtain ⟨w', hr', hsizes⟩ := transferLoop_ends (n := fuel.transfer) h ht (Nat.zero_le _)
    (by omega) hw₁ (fun j hj => Nat.find_min hex hj) (Nat.find_spec hex) data
  refine ⟨w', hr.trans hr', ?_⟩
  rw [hsizes, length_packets]
  omega

/-- A board whose every packet comes at once: the lengths, and the number of packets taken. -/
structure Supply where
  sizes : ℕ → BYTE
  taken : ℕ := 0

instance : Platform Supply where
  rd s reg := (if reg = rRCVBC then s.sizes s.taken else if reg = rHRSL then 0x00 else 0xff, s)
  wr s reg val :=
    if reg = rHIRQ ∧ val = bmRCVDAVIRQ then { s with taken := s.taken + 1 } else s
  irq s := (0, s)
  gpx s := (0, s)
  nticks s := (0, s)
  stack s := (fun _ => 0, s)

/-- The board has handed out `k` packets. -/
def Supply.At (sizes : ℕ → BYTE) (k : ℕ) (s : Supply) : Prop := s.sizes = sizes ∧ s.taken = k

theorem Supply.rd_hirq (s : Supply) : (Platform.rd s rHIRQ).1 = 0xff := rfl

theorem Supply.rd_hrsl (s : Supply) : (Platform.rd s rHRSL).1 = 0x00 := rfl

theorem altMs_supply (w : World Supply) :
    altMs w = .ok 0 { w with log := .nticks 0 :: w.log } := by
  have hms : ms 0 = 0 := by decide
  have hr : altMs w = .ok (ms 0) { w with log := .nticks 0 :: w.log } := rfl
  rwa [hms] at hr

theorem waitDone_supply (w : World Supply) :
    ∃ w', waitDone 1 5000 w = .ok 0x00 w' ∧ w'.chip = w.chip := by
  have htest : (do return decide ((← altMs) < 5000) : Prog Supply Bool) w =
      .ok true { w with log := .nticks 0 :: w.log } := by
    rw [bind_of_ok (altMs_supply w)]
    rfl
  have hround (w : World Supply) : ∃ w', (do
      let tmpdata ← maxRegRd rHIRQ
      if tmpdata &&& bmHXFRDNIRQ ≠ 0 then
        maxRegWr rHIRQ bmHXFRDNIRQ
        return .inr 0x00
      else return .inl () : Prog Supply (Unit ⊕ BYTE)) w = .ok (.inr 0x00) w' ∧
      w'.chip = w.chip := by
    rw [bind_of_ok (maxRegRd_run rHIRQ w), Supply.rd_hirq]
    exact ⟨_, congrFun (if_pos (by decide)) _, rfl⟩
  obtain ⟨w', hr, hchip⟩ := hround { w with log := .nticks 0 :: w.log }
  rw [waitDone, whileLoop, bind_of_ok htest]
  exact ⟨w', bind_of_ok hr _, hchip⟩

theorem xferDispatchPkt_supply (ep : BYTE) (n : ℕ) (w : World Supply) :
    ∃ w', xferDispatchPkt ⟨1, 1, n, 0, 0⟩ tokIN ep w = .ok 0 w' ∧ w'.chip = w.chip := by
  have hdeadline : (0 : DWORD) + usbXferTimeout = 5000 := by decide
  obtain ⟨w₁, hr₁, hchip₁⟩ := waitDone_supply { w with
    log := .wr rHXFR (tokIN ||| ep) :: .nticks 0 :: w.log }
  have hround : dispatchRound ⟨1, 1, n, 0, 0⟩ 5000 tokIN ep (0, 0)
      { w with log := .nticks 0 :: w.log } = .ok (.inr 0) (w₁.afterRd rHRSL) := by
    refine (bind_of_ok hr₁ _).trans ?_
    refine (congrFun (if_neg (not_not_intro rfl)) w₁).trans ?_
    rw [bind_of_ok (maxRegRd_run rHRSL w₁), Supply.rd_hrsl]
    rfl
  rw [xferDispatchPkt, bind_of_ok (altMs_supply w), hdeadline, forever_succ]
  exact ⟨w₁.afterRd rHRSL, bind_of_ok hround _, hchip₁⟩

theorem supplies_supply (sizes : ℕ → BYTE) (ep : BYTE) (n : ℕ) :
    Supplies ⟨1, 1, n, 0, 0⟩ ep sizes (Supply.At sizes) (Supply.At sizes) where
  dispatch k w hw := by
    obtain ⟨w', hr, hchip⟩ := xferDispatchPkt_supply ep n w
    exact ⟨w', hr, hchip ▸ hw⟩
  available k c _ := by
    rw [Supply.rd_hirq]
    decide
  length k c hc := by
    obtain ⟨rfl, rfl⟩ := hc
    rfl
  rd k c reg hc := hc
  release k c hc := ⟨hc.1, congrArg (· + 1) hc.2⟩
  toggle k c val hc := hc

/-- A keyboard at address 1 with the given maximum in its record, and its packets. -/
def supplied (maxPktSize : WORD) (sizes : ℕ → BYTE) : World Supply where
  chip := { sizes := sizes }
  host := {
    devtable := fun a => if a = 1 then { epinfo := some .hidEp, devclass := hidK } else {}
    eps := fun _ _ => { maxPktSize := maxPktSize } }
  mem := fun _ _ => 0

/-- Without a packet that completes the transfer the board keeps it going for ever. -/
theorem supplied_spins {maxPktSize : WORD}
    (hopen : ∀ k, ¬Complete nbytes (maxPktSize.setWidth 8) (packets sizes (k + 1))) (n : ℕ) :
    ∃ w', xferInTransfer ⟨1, 1, n, 0, 0⟩ 1 1 nbytes ⟨.kbdbuf, 0⟩ (maxPktSize.setWidth 8)
      (supplied maxPktSize sizes) = .error .transfer w' := by
  have hsupplies := supplies_supply sizes 1 n
  have hstart : Asking 1 .hidEp sizes (Supply.At sizes) 0 (supplied maxPktSize sizes) :=
    ⟨rfl, ⟨rfl, rfl⟩, rfl⟩
  obtain ⟨w₁, hw₁, hr⟩ := xferInTransfer_eq nbytes (maxPktSize.setWidth 8) hsupplies (by decide)
    hstart ⟨.kbdbuf, 0⟩
  obtain ⟨w', hr'⟩ := transferLoop_spins hsupplies hopen n hw₁ ⟨.kbdbuf, 0⟩
  exact ⟨w', hr.trans hr'⟩

theorem not_endsInTime {maxPktSize : WORD}
    (hopen : ∀ k, ¬Complete nbytes (maxPktSize.setWidth 8) (packets sizes (k + 1))) :
    ¬EndsInTime nbytes maxPktSize := by
  intro h
  obtain ⟨w₁, hr₁⟩ := supplied_spins hopen (nbytes.toNat + 1)
  obtain ⟨w₂, hr₂, -⟩ := h Supply ⟨1, 1, nbytes.toNat + 1, 0, 0⟩ 1 1 .hidEp sizes _ _ ⟨.kbdbuf, 0⟩
    (supplied maxPktSize sizes) (supplies_supply sizes 1 _) ⟨rfl, rfl⟩ rfl (by decide) rfl
    (Nat.le_refl _)
  cases hr₁.symm.trans hr₂

/-- `XferInTransfer` is sure to end if and only if nothing is requested, or the low byte of the
maximum is not 0 and `xfrlen` cannot step over the wrap. -/
theorem endsInTime_iff (nbytes maxPktSize : WORD) :
    EndsInTime nbytes maxPktSize ↔
      nbytes = 0 ∨ maxPktSize.setWidth 8 ≠ 0 ∧
        (nbytes.toNat ≤ 65281 ∨ maxPktSize.setWidth 8 = 255) := by
  refine ⟨fun h => ?_, endsInTime_of_bounded⟩
  by_contra hunbounded
  obtain ⟨sizes, hopen⟩ := exists_endless hunbounded
  exact not_endsInTime hopen h

/-- A keyboard with a maximum of 256 bytes that sends empty packets: each is shorter than its
maximum, and the poll of 8 bytes never returns. -/
theorem empty_packets_spin :
    (∀ n, ∃ w', xferInTransfer ⟨1, 1, n, 0, 0⟩ 1 1 8 ⟨.kbdbuf, 0⟩ ((0x0100 : WORD).setWidth 8)
      (supplied 0x0100 fun _ => 0) = .error .transfer w') ∧ ¬EndsInTime 8 0x0100 := by
  have hopen (k : ℕ) : ¬Complete 8 ((0x0100 : WORD).setWidth 8) (packets (fun _ => 0) (k + 1)) := by
    rw [not_complete_iff, total_empty]
    decide
  exact ⟨supplied_spins hopen, not_endsInTime hopen⟩

end TetrisFpga.Usb
