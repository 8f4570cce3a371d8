import TetrisFpga.Usb.Coverage

/-!
# Received data and leftovers

The packets of a transfer fill its buffer up to the sum of their sizes, and what lies behind is
left from before. `main` publishes the byte 2 of a report, however short the report was.
-/

namespace TetrisFpga.Usb
open Program

section Transfer

variable {χ : Type}

/-! ## What a transfer fills -/

/-- The packets so far fill the buffer up to `cur`. -/
def Received (data cur : Ptr) (w : World χ) : Prop :=
  cur = data.add (total (packetSizes w.log)) ∧
    ∀ k : ℕ, data.add k ∈ stored w.log ↔ k < total (packetSizes w.log)

/-- They fill it up to some byte. -/
def ReceivedUp (data : Ptr) (w : World χ) : Prop := ∃ cur, Received data cur w

variable {data cur : Ptr}

theorem Received.of_quiet {w w' : World χ} (hq : Quiet w w') (h : Received data cur w) :
    Received data cur w' := by
  rw [Received, hq.1, hq.2]
  exact h

theorem keeps_received {α : Type} {x : Prog χ α} (hx : Moves Quiet x) (cur : Ptr) :
    Keeps (Received data cur) (ReceivedUp data) x where
  ok w a w' hw hr := (hx.keeps fun _ _ => Received.of_quiet).ok w a w' hw hr
  error w e w' hw hr := ⟨cur, (hx.keeps fun _ _ => Received.of_quiet).error w e w' hw hr⟩

/-- A packet fills the bytes from `done` on. -/
theorem packet_fills {done : ℕ} (hcur : cur = data.add done) (size k : ℕ) :
    (cur.add (size - 1) ≠ data.add k ∧ (∀ i < size - 1, cur.add (i : ℕ) ≠ data.add k) ∧
      ¬k < done) ↔ ¬k < size + done := by
  subst hcur
  simp only [ne_eq, Ptr.add, Ptr.mk.injEq, true_and]
  constructor
  · rintro ⟨hlast, hbefore, hdone⟩ hk
    have hnot := hbefore (k - done)
    omega
  · intro hk
    exact ⟨by omega, fun i hi => by omega, by omega⟩

variable [Platform χ]

/-- The size of the next packet has been read, but not yet the packet. -/
def Announced (data cur : Ptr) (size : BYTE) (w : World χ) : Prop :=
  ∃ w₀ : World χ, Received data cur w₀ ∧ packetSizes w.log = size :: packetSizes w₀.log ∧
    stored w.log = stored w₀.log

theorem triple_announce (cur : Ptr) :
    Triple (Received data cur) (maxRegRd rRCVBC : Prog χ BYTE)
      (fun size => Announced data cur size) (ReceivedUp data) where
  ok w size w' hw hr := by
    cases hr
    exact ⟨w, hw, rfl, rfl⟩
  error w e w' _ hr := by cases hr

theorem triple_packet (cur : Ptr) (size : BYTE) :
    Triple (Announced data cur size) (maxBytesRd rRCVFIFO size cur : Prog χ Ptr)
      (fun cur' => Received data cur') (ReceivedUp data) where
  ok w cur' w' hw hr := by
    obtain ⟨w₀, ⟨hcur, hreceived⟩, hsizes, hsame⟩ := hw
    obtain ⟨w₁, hrun, hsizes', hstored⟩ :=
      maxBytesRd_run (by decide : rRCVFIFO ≠ rRCVBC) size cur w
    cases hrun.symm.trans hr
    have htotal : total (packetSizes w'.log) = size.toNat + total (packetSizes w₀.log) := by
      rw [hsizes', hsizes, total_cons]
    refine ⟨?_, fun k => ?_⟩
    · rw [hcur, htotal]
      simp only [Ptr.add, Ptr.mk.injEq, true_and]
      omega
    · rw [htotal, ← not_iff_not, ← packet_fills hcur, ← hreceived k]
      have hset := hstored fun p => ¬p = data.add k
      rw [List.forall_mem_ne', List.forall_mem_ne', hsame] at hset
      exact hset
  error w e w' hw hr := by
    obtain ⟨w₁, hrun, -⟩ := maxBytesRd_run (by decide : rRCVFIFO ≠ rRCVBC) size cur w
    cases hrun.symm.trans hr

variable (data) in
theorem received_inTransferRound (fuel : Fuel) (addr ep : BYTE) (n : WORD) (maxpktsize : BYTE)
    (a : Ptr × WORD) :
    Triple (Received data a.1) (inTransferRound fuel addr ep n maxpktsize a : Prog χ _)
      (Sum.rec (fun a' => Received data a'.1) fun _ => ReceivedUp data) (ReceivedUp data) := by
  obtain ⟨cur, xfrlen⟩ := a
  have hleave (cur : Ptr) (rcode : BYTE) : Triple (Received data cur)
      (pure (.inr rcode) : Prog χ ((Ptr × WORD) ⊕ BYTE))
      (Sum.rec (fun a' => Received data a'.1) fun _ => ReceivedUp data) (ReceivedUp data) :=
    triple_pure fun _ hw => ⟨cur, hw⟩
  refine triple_bind (keeps_received (dispatches_quiet.xferDispatchPkt fuel tokIN ep) cur)
    fun rcode => triple_ite (fun _ => hleave cur rcode) fun _ => ?_
  refine triple_bind (keeps_received dispatches_quiet.hirq cur) fun hirq =>
    triple_ite (fun _ => hleave cur 0xf0) fun _ => ?_
  refine triple_bind (triple_announce cur) fun size => triple_bind (triple_packet cur size)
    fun cur' => ?_
  refine triple_bind (keeps_received (moves_maxRegWr _ _) cur') fun _ => triple_ite (fun _ => ?_)
    fun _ => triple_pure fun w h => h
  refine triple_bind (keeps_received dispatches_quiet.hrsl cur') fun hrsl => ?_
  exact triple_bind (keeps_received (moves_setEpRecord addr ep _) cur') fun _ => hleave cur' 0

/-- A poll fills its buffer up to the sum of the sizes of its packets. -/
theorem received_hidPoll (fuel : Fuel) (data : Ptr) :
    Triple (Received data data) (hidPoll fuel data : Prog χ BYTE) (fun _ => ReceivedUp data)
      (ReceivedUp data) := by
  have hget : Keeps (Received data data) (ReceivedUp data)
      (getHost : Prog χ Host) := keeps_received (fun _ => ⟨rfl, rfl⟩) data
  refine triple_bind hget fun _ =>
    triple_bind (keeps_received (moves_maxRegWr _ _) data) fun _ => ?_
  refine triple_bind hget fun h =>
    triple_bind (keeps_received (moves_epRecord _ _) data) fun _ => ?_
  refine triple_bind hget fun h =>
    triple_bind (keeps_received (moves_epRecord _ _) data) fun _ => ?_
  refine triple_bind (keeps_received (moves_maxRegWr _ _) data) fun _ => ?_
  exact triple_forever (received_inTransferRound data fuel _ _ _ _) (fun a _ hw => ⟨a.1, hw⟩)
    fuel.transfer (data, 0)

/-! ## What it leaves -/

/-- What has not been stored is as it was. -/
def Untouched (w w' : World χ) : Prop :=
  ∀ p : Ptr, p ∉ stored w'.log → p ∉ stored w.log ∧ w'.mem p.obj p.off = w.mem p.obj p.off

omit [Platform χ] in
theorem untouched_of_log {w w' : World χ} {e : Event} (hmem : w'.mem = w.mem)
    (hlog : w'.log = e :: w.log) : Untouched w w' := by
  intro p hp
  rw [hlog] at hp
  exact ⟨fun h => hp (mem_stored_cons h e), by rw [hmem]⟩

omit [Platform χ] in
theorem closed_untouched : Closed fun α (x : Prog χ α) => Moves Untouched x :=
  closed_moves (fun _ _ hp => ⟨hp, rfl⟩) fun h h' p hp =>
    ⟨(h p (h' p hp).1).1, (h' p hp).2.trans (h p (h' p hp).1).2⟩

theorem requests_untouched (addr ep : BYTE) :
    RequestsAt (fun α (x : Prog χ α) => Moves Untouched x) addr ep where
  toClosed := closed_untouched
  hirq _ := untouched_of_log rfl rfl
  hrsl _ := untouched_of_log rfl rfl
  wr _ _ _ := untouched_of_log rfl rfl
  nticks _ := untouched_of_log rfl rfl
  wait _ _ hp := ⟨hp, rfl⟩
  dispatch _ _ hp := ⟨hp, rfl⟩
  rd _ _ := untouched_of_log rfl rfl
  store q val w p hp := by
    have hne : p ≠ q := fun h => hp (h ▸ List.mem_cons_self)
    refine ⟨fun h => hp (List.mem_cons_of_mem _ h), if_neg fun h => hne ?_⟩
    cases p
    cases q
    cases h.1
    cases h.2
    rfl
  getHost _ _ hp := ⟨hp, rfl⟩
  setEp _ _ _ _ := untouched_of_log rfl rfl
  transfer _ _ hp := ⟨hp, rfl⟩
  epinfo := epinfo_mem (closed_untouched (χ := χ)) (fun _ => untouched_of_log rfl rfl)
    (fun _ _ hp => ⟨hp, rfl⟩) fun _ _ hp => ⟨hp, rfl⟩

/-! ## Runs with other contents of a buffer -/

omit [Platform χ] in
/-- The world with the contents `c` of `o`, and the log of a new run. -/
def withBuffer (o : Obj) (c : ℤ → BYTE) (w : World χ) : World χ where
  chip := w.chip
  host := w.host
  mem := fun o' => if o' = o then c else w.mem o'
  pio := w.pio
  log := []

omit [Platform χ] in
theorem agree_withBuffer (o : Obj) (c c' : ℤ → BYTE) (w : World χ) :
    Agree o (withBuffer o c w) (withBuffer o c' w) := by
  refine ⟨(withBuffer o c' w).mem, rfl, fun p hp => ?_⟩
  have hne : p.obj ≠ o := hp.resolve_right List.not_mem_nil
  show (if p.obj = o then c' else w.mem p.obj) p.off = (if p.obj = o then c else w.mem p.obj) p.off
  rw [if_neg hne, if_neg hne]

omit [Platform χ] in
theorem fedRun_withBuffer (o : Obj) (c : ℤ → BYTE) (w : World χ) : FedRun o (withBuffer o c w) :=
  ⟨trivial⟩

/-- What a probe returns and leaves in the variables does not depend on what was in `bigbuf`. -/
def ProbesClean (probe : Prog χ Bool) (c : ℤ → BYTE) (w : World χ) : Prop :=
  ∀ c', value? (probe (withBuffer .bigbuf c' w)) = value? (probe (withBuffer .bigbuf c w)) ∧
    (final (probe (withBuffer .bigbuf c' w))).host = (final (probe (withBuffer .bigbuf c w))).host

theorem probesClean_of_covered {driver protocol : BYTE} {fuel : Fuel} {addr : BYTE} {c : ℤ → BYTE}
    {w : World χ} (hcov : Covered protocol fuel addr (withBuffer .bigbuf c w)) :
    ProbesClean (hidProbe driver protocol fuel addr) c w := by
  intro c'
  have hfed : FedRun .bigbuf
      (final (hidProbe driver protocol fuel addr (withBuffer .bigbuf c w))) :=
    fed_hidProbe (fedRun_withBuffer _ c w) hcov
  have hruns := (tasks_unspoiled (χ := χ) .bigbuf).hidProbe driver protocol fuel addr
  have halike := hruns.alike _ _ (agree_withBuffer .bigbuf c c' w) hfed
  obtain ⟨m, hm, -⟩ := halike.final
  exact ⟨halike.value?, by rw [hm]⟩

/-- The poll of the keyboard, from the contents `c` of the report buffer. -/
def polled (fuel : Fuel) (c : ℤ → BYTE) (w : World χ) : EStateM.Result Fault (World χ) BYTE :=
  kbdPoll fuel ⟨.kbdbuf, 0⟩ (withBuffer .kbdbuf c w)

/-- The keycode that `main` publishes after the poll. -/
def published (fuel : Fuel) (c : ℤ → BYTE) (w : World χ) : BYTE :=
  (final (pollKeyboard fuel (withBuffer .kbdbuf c w))).pio.keycode

/-- Two polls with the same replies. -/
theorem polled_alike (fuel : Fuel) (c c' : ℤ → BYTE) (w : World χ) :
    Alike (Agree .kbdbuf) (polled fuel c w) (polled fuel c' w) := by
  have hfed : Keeps (FedRun .kbdbuf) (FedRun .kbdbuf) (hidPoll fuel ⟨.kbdbuf, 0⟩ : Prog χ BYTE) :=
    hidPoll_mem (fun addr => requests_fed .kbdbuf addr 1) fuel ⟨.kbdbuf, 0⟩
  have hruns : Unspoiled .kbdbuf (hidPoll fuel ⟨.kbdbuf, 0⟩ : Prog χ BYTE) :=
    (tasks_unspoiled .kbdbuf).hidPoll fuel ⟨.kbdbuf, 0⟩
  exact hruns.alike _ _ (agree_withBuffer .kbdbuf c c' w) (hfed.final (fedRun_withBuffer _ c w))

/-- The byte 2 is stored if and only if the packets have 3 bytes in all. -/
theorem polled_stored_iff (fuel : Fuel) (c : ℤ → BYTE) (w : World χ) :
    (⟨.kbdbuf, 2⟩ : Ptr) ∈ stored (final (polled fuel c w)).log ↔
      3 ≤ total (packetSizes (final (polled fuel c w)).log) := by
  have hstart : Received ⟨.kbdbuf, 0⟩ ⟨.kbdbuf, 0⟩ (withBuffer .kbdbuf c w) :=
    ⟨rfl, fun k => by simp [withBuffer, stored, packetSizes, total]⟩
  have hpoll := received_hidPoll (χ := χ) fuel ⟨.kbdbuf, 0⟩
  obtain ⟨cur, -, hreceived⟩ : ReceivedUp ⟨.kbdbuf, 0⟩ (final (polled fuel c w)) :=
    hpoll.final hstart
  exact hreceived 2

theorem polled_left {fuel : Fuel} {c : ℤ → BYTE} {w : World χ}
    (hnot : (⟨.kbdbuf, 2⟩ : Ptr) ∉ stored (final (polled fuel c w)).log) :
    (final (polled fuel c w)).mem .kbdbuf 2 = c 2 := by
  have hmoves : Moves Untouched (hidPoll fuel ⟨.kbdbuf, 0⟩ : Prog χ BYTE) :=
    hidPoll_mem (fun addr => requests_untouched addr 1) fuel ⟨.kbdbuf, 0⟩
  exact (hmoves (withBuffer .kbdbuf c w) ⟨.kbdbuf, 2⟩ hnot).2

/-- The display of a report leaves the keycode alone. -/
def SameKeycode (w w' : World χ) : Prop := w'.pio.keycode = w.pio.keycode

omit [Platform χ] in
theorem shows_sameKeycode : Shows fun α (x : Prog χ α) => Moves SameKeycode x where
  toClosed := closed_moves (fun _ => rfl) fun h h' => h'.trans h
  load _ _ := rfl
  getPio _ := rfl
  setPio _ hf w := hf w.pio

/-- After an accepted report `main` publishes what the poll left in the byte 2. -/
theorem published_eq {fuel : Fuel} {c : ℤ → BYTE} {w : World χ}
    (hr : value? (polled fuel c w) = some 0) :
    published fuel c w = (final (polled fuel c w)).mem .kbdbuf 2 := by
  have hpoll : kbdPoll fuel ⟨.kbdbuf, 0⟩ (withBuffer .kbdbuf c w) =
      .ok 0 (final (polled fuel c w)) := eq_ok_of_value? hr
  generalize final (polled fuel c w) = w₁ at hpoll ⊢
  have hC : Shows fun α (x : Prog χ α) => Moves SameKeycode x := shows_sameKeycode
  have hshow : Moves SameKeycode (do
      printSignedHex0 (← load ⟨.kbdbuf, 2⟩)
      printSignedHex1 (← load ⟨.kbdbuf, 3⟩) : Prog χ Unit) := by
    refine hC.bind (hC.load _) fun _ => hC.bind (hC.printSignedHex _ _ _ _ _ _) fun _ => ?_
    exact hC.bind (hC.load _) fun _ => hC.printSignedHex _ _ _ _ _ _
  rw [published, pollKeyboard, bind_of_ok hpoll, if_pos rfl]
  exact hshow { w₁ with
    pio := { w₁.pio with keycode := w₁.mem .kbdbuf 2 }
    log := .load ⟨.kbdbuf, 2⟩ :: w₁.log }

/-- The keycode that is published after an accepted report does not depend on what was in the
report buffer. -/
def KeycodeClean (fuel : Fuel) (c : ℤ → BYTE) (w : World χ) : Prop :=
  value? (polled fuel c w) = some 0 → ∀ c', published fuel c' w = published fuel c w

/-- That is so if and only if the report has 3 bytes. -/
theorem keycodeClean_iff (fuel : Fuel) (c : ℤ → BYTE) (w : World χ) :
    KeycodeClean fuel c w ↔ (value? (polled fuel c w) = some 0 →
      3 ≤ total (packetSizes (final (polled fuel c w)).log)) := by
  rw [← polled_stored_iff]
  constructor
  · intro hclean hr
    by_contra hnot
    -- other contents in the byte that was not stored
    have halike := polled_alike fuel c (fun k => c k + 1) w
    obtain ⟨m, hm, -⟩ := halike.final
    have hnot' : (⟨.kbdbuf, 2⟩ : Ptr) ∉ stored (final (polled fuel (fun k => c k + 1) w)).log := by
      rwa [hm]
    have hsame := hclean hr fun k => c k + 1
    rw [published_eq (halike.value?.trans hr), published_eq hr, polled_left hnot,
      polled_left hnot'] at hsame
    exact (by decide : ∀ b : BYTE, b + 1 ≠ b) _ hsame
  · intro hstored hr c'
    have halike := polled_alike fuel c c' w
    obtain ⟨m, hm, hmem⟩ := halike.final
    rw [published_eq (halike.value?.trans hr), published_eq hr, hm]
    exact hmem ⟨.kbdbuf, 2⟩ (.inr (hstored hr))

/-- The probes keep to what they received where it covers what they look at, and the published
keycode was received if and only if the report has 3 bytes. -/
theorem received_only (fuel : Fuel) (addr : BYTE) (c : ℤ → BYTE) (w : World χ) :
    (Covered hidProtocolKeyboard fuel addr (withBuffer .bigbuf c w) →
      ProbesClean (hidkProbe fuel addr) c w) ∧
    (Covered hidProtocolMouse fuel addr (withBuffer .bigbuf c w) →
      ProbesClean (hidmProbe fuel addr) c w) ∧
    (KeycodeClean fuel c w ↔ (value? (polled fuel c w) = some 0 →
      3 ≤ total (packetSizes (final (polled fuel c w)).log))) :=
  ⟨probesClean_of_covered, probesClean_of_covered, keycodeClean_iff fuel c w⟩

end Transfer

/-! ## A keyboard, and devices with short replies -/

instance (log : List Event) : DecidablePred (Got log) := fun k =>
  inferInstanceAs (Decidable ((⟨.bigbuf, k⟩ : Ptr) ∈ stored log))

/-- The descriptors of the keyboard are at 0, 9 and 18. -/
theorem interfacesGot_keyboard {got : ℕ → Prop} {m : ℤ → BYTE} {protocol : BYTE}
    (hgot : ∀ k ∈ List.range 25, got k)
    (hdescr : field m 0 0 = 9 ∧ field m 0 1 ≠ usbDescriptorInterface ∧ field m 9 0 = 9 ∧
      field m 9 1 = usbDescriptorInterface ∧ field m 18 1 = usbDescriptorEndpoint) :
    InterfacesGot got m 25 protocol 0 := by
  obtain ⟨hlen₀, hkind₀, hlen₁, hkind₁, hkind₂⟩ := hdescr
  have hget {k : ℕ} (hk : k < 25) : got k := hgot k (List.mem_range.mpr hk)
  have hnext₀ : nextDescr m 0 = 9 := by rw [nextDescr, hlen₀]; rfl
  have hnext₁ : nextDescr m 9 = 18 := by rw [nextDescr, hlen₁]; rfl
  have hendpoint : EndpointsGot got m 25 18 := by
    intro pos hskips _
    cases hskips with
    | refl =>
      refine ⟨hget (by decide), ?_⟩
      rw [if_neg (not_not_intro hkind₂)]
      intro k hk
      simp only [List.mem_cons, List.not_mem_nil, or_false] at hk
      exact hget (by omega)
    | skip hskip _ => exact absurd hkind₂ hskip.2
  intro pos hskips _
  cases hskips with
  | refl =>
    refine ⟨hget (by decide), ?_⟩
    rw [if_pos hkind₀]
    exact hget (by decide)
  | skip _ hskips =>
    rw [hnext₀] at hskips
    cases hskips with
    | refl =>
      refine ⟨hget (by decide), ?_⟩
      rw [if_neg (not_not_intro hkind₁)]
      refine ⟨fun k hk => ?_, fun _ =>
        ⟨hget (by decide), hget (by decide), hnext₁.symm ▸ hendpoint⟩⟩
      simp only [List.mem_cons, List.not_mem_nil, or_false] at hk
      exact hget (by omega)
    | skip hskip _ => exact absurd hkind₁ hskip.2

/-- The keyboard sends all of its configuration. -/
theorem covered_keyboard (protocol : BYTE) : Covered protocol ⟨9, 9, 9, 9, 9⟩ 1
    (withBuffer .bigbuf (fun _ => 0) (keyboardReplies keyboardConfiguration)) where
  length _ := by decide +kernel
  confvalue _ _ := by decide +kernel
  walk total confvalue hr := by
    have htotal : some (some (total, confvalue)) = some (some ((25 : WORD), (1 : BYTE))) :=
      hr.symm.trans (by decide +kernel)
    cases htotal
    exact interfacesGot_keyboard (by decide +kernel) (by decide +kernel)

theorem received_only_keyboard :
    ProbesClean (hidkProbe ⟨9, 9, 9, 9, 9⟩ 1) (fun _ => 0) (keyboardReplies keyboardConfiguration) ∧
      KeycodeClean ⟨9, 9, 9, 9, 9⟩ (fun _ => 0) longReport :=
  ⟨(received_only ⟨9, 9, 9, 9, 9⟩ 1 _ _).1 (covered_keyboard _),
    (received_only ⟨9, 9, 9, 9, 9⟩ 1 _ longReport).2.2.mpr (by decide +kernel)⟩

/-- A report of one byte. -/
def shortReport : World Script := pollingKeyboard [0x80, 0x00, 0x04, 1, 0, 0x10]

/-- A device that sends nine bytes of its configuration is a keyboard or not as `bigbuf` has it,
and the keycode of a report of one byte is that of the report before. -/
theorem leftovers_used :
    ¬ProbesClean (hidkProbe ⟨9, 9, 9, 9, 9⟩ 1) (fun k => keyboardConfiguration.getD k.toNat 0)
        (keyboardReplies (keyboardConfiguration.take 9)) ∧
      ¬KeycodeClean ⟨9, 9, 9, 9, 9⟩ (fun _ => 0) shortReport := by
  refine ⟨fun h => ?_, fun h => ?_⟩
  · -- an interface that is not looked for
    exact absurd (h fun k => if k = 10 then 4 else 0).1 (by decide +kernel)
  · exact absurd (h (by decide +kernel) fun _ => 4) (by decide +kernel)

end TetrisFpga.Usb
