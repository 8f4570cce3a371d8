import TetrisFpga.Usb.Coverage
import TetrisFpga.Usb.Rounds

/-!
# Descriptors that are cut off

The loops of the probes ask whether a descriptor starts below `total_length`, and then read up to
eight bytes of it. They stay below `total_length` on exactly those configurations in which no
descriptor that they reach is cut off.
-/

namespace TetrisFpga.Usb
open Program

section Chain

variable (m : ℤ → BYTE) (total : ℕ) {protocol : BYTE}

/-- Of every descriptor that the loop that looks for `kind` reaches, the length and the type are
there, and `size` bytes if it is of that type. -/
def Whole (kind : BYTE) (size pos : ℕ) : Prop :=
  ∀ pos', Skips m total kind pos pos' → pos' < total →
    pos' + (if field m pos' 1 = kind then size else 2) ≤ total

/-- The interface descriptors that the outer loop reaches are there up to the protocol, and the
endpoint descriptors that the inner loop reaches up to the interval. -/
def Untruncated (protocol : BYTE) : Prop :=
  Whole m total usbDescriptorInterface 8 0 ∧ ∀ pos, FindsInterface m total protocol 0 pos →
    Whole m total usbDescriptorEndpoint 7 (nextDescr m pos)

variable {m total} {kind : BYTE} {size pos pos' : ℕ}

theorem Whole.type (h : Whole m total kind size pos) (hsize : 2 ≤ size)
    (hskips : Skips m total kind pos pos') (hlt : pos' < total) : pos' + 1 < total := by
  have hle := h pos' hskips hlt
  split at hle
  · omega
  · omega

theorem Whole.found (h : Whole m total kind size pos) (hskips : Skips m total kind pos pos')
    (hlt : pos' < total) (hkind : field m pos' 1 = kind) : pos' + size ≤ total := by
  have hle := h pos' hskips hlt
  rwa [if_pos hkind] at hle

/-- What the walk looks at lies below the end. -/
theorem Untruncated.got (h : Untruncated m total protocol) :
    InterfacesGot (fun k => k < total) m total protocol 0 := by
  intro pos hskips hlt
  refine ⟨h.1.type (by decide) hskips hlt, ?_⟩
  split
  · exact hlt
  · next hkind =>
    have hkind := not_not.mp hkind
    have hend := h.1.found hskips hlt hkind
    refine ⟨fun k hk => ?_, fun hboot => ⟨by omega, hlt, fun pos' hskips' hlt' => ?_⟩⟩
    · have hk : k ≤ 7 := by revert k; decide
      exact Nat.lt_of_lt_of_le (by omega) hend
    have hwhole := h.2 pos ⟨hskips, hlt, hkind, hboot⟩
    refine ⟨hwhole.type (by decide) hskips' hlt', ?_⟩
    split
    · exact hlt'
    · next hkind' =>
      have hend' := hwhole.found hskips' hlt' (not_not.mp hkind')
      intro k hk
      have hk : k ≤ 6 := by revert k; decide
      exact Nat.lt_of_lt_of_le (by omega) hend'

end Chain

/-! ## What the walk loads -/

section Walk

variable {χ : Type} {m : ℤ → BYTE} {total : ℕ}

/-- From the log `before` on, `bigbuf` was read below `total` only. -/
def LoadsBelow (total : ℕ) (before log : List Event) : Prop :=
  ∃ new, log = new ++ before ∧
    ∀ off : ℤ, .load ⟨.bigbuf, off⟩ ∈ new → ∃ k : ℕ, off = k ∧ k < total

theorem permits_below (total : ℕ) (before : List Event) :
    Permits (fun k => k < total) (LoadsBelow total before) where
  other e log he hlog := by
    obtain ⟨new, rfl, hnew⟩ := hlog
    refine ⟨e :: new, rfl, fun off hoff => ?_⟩
    obtain rfl | hoff := List.mem_cons.mp hoff
    · cases he
    · exact hnew off hoff
  load k log hk hlog := by
    obtain ⟨new, rfl, hnew⟩ := hlog
    refine ⟨_ :: new, rfl, fun off hoff => ?_⟩
    obtain heq | hoff := List.mem_cons.mp hoff
    · cases heq
      exact ⟨k, rfl, hk⟩
    · exact hnew off hoff

variable [Platform χ] {addr : BYTE} {w : World χ}

/-- A loop loads what is loaded where it gets to. -/
theorem Skips.loads {kind : BYTE} {pos a : ℕ} (h : Skips m total kind pos a) (hlt : a < total) :
    ∃ k, ∀ (β : Type) (found : ℕ → Prog χ (ℕ ⊕ β)) (after : ℕ → Prog χ β) (w : World χ) (n : ℕ)
      (p : Ptr), (∀ pos, Moves Grows (found pos)) → (∀ pos, Moves Grows (after pos)) →
      w.mem .bigbuf = m → k < n → (∀ w', Looked w w' → Loads p (skipTo kind found a) w') →
      Loads p (skipLoop total kind found after n pos) w := by
  obtain ⟨k, -, hrun⟩ := h.rounds
  refine ⟨k, fun β found after w n p hfound hafter hm hn hloads => ?_⟩
  obtain ⟨n, rfl⟩ : ∃ n', n = n' + 1 + k := ⟨n - k - 1, by omega⟩
  obtain ⟨w', hlook, hrest⟩ := hrun β found after w hm
  refine Loads.of_eq ?_ (hrest (n + 1)) hlook.grows
  refine Loads.of_eq ?_ (skipLoop_live hlt n w') (List.suffix_refl _)
  refine (hloads w' hlook).left fun r => ?_
  cases r with
  | inl pos' =>
    exact tasks_grow.whileLoop tasks_grow.walk (fun _ => tasks_grow.pure _)
      (tasks_grow.skipTo kind hfound) hafter n pos'
  | inr b => exact tasks_grow.pure b

omit [Platform χ] in
theorem loads_type {kind : BYTE} {β : Type} {found : ℕ → Prog χ (ℕ ⊕ β)} [Platform χ]
    (hfound : ∀ pos, Moves Grows (found pos)) (pos : ℕ) (w : World χ) :
    Loads (descr pos 1) (skipTo kind found pos) w := by
  refine (loads_load (descr pos 1) w).left fun _ => tasks_grow.ite ?_ (hfound pos)
  exact tasks_grow.bind (tasks_grow.load _) fun _ => tasks_grow.pure _

omit [Platform χ] in
theorem loads_found {kind : BYTE} {β : Type} {found : ℕ → Prog χ (ℕ ⊕ β)} {pos : ℕ} {p : Ptr}
    (hm : w.mem .bigbuf = m) (hkind : field m pos 1 = kind)
    (h : ∀ w', Looked w w' → Loads p (found pos) w') : Loads p (skipTo kind found pos) w := by
  obtain ⟨w', hr, hlook⟩ := looked_found hm hkind found
  exact (h w' hlook).of_eq hr hlook.grows

theorem loads_protocol (fuel : Fuel) (driver protocol addr confvalue : BYTE) (total : WORD)
    (pos : ℕ) :
    Loads (descr pos 7) (parseInterface fuel driver protocol addr confvalue total pos) w := by
  refine Loads.right ?_ (rfl : load (descr pos 5) w = .ok _ _) ⟨[_], rfl⟩
  refine Loads.right ?_ (rfl : load (descr pos 6) _ = .ok _ _) ⟨[_], rfl⟩
  refine (loads_load (descr pos 7) _).left fun _ => tasks_grow.ite ?_ (tasks_grow.pure _)
  refine tasks_grow.bind (tasks_grow.fillDevice _ _ _) fun _ => ?_
  exact tasks_grow.bind (tasks_grow.load _) fun _ => tasks_grow.endpointLoop _ _ _ _ _ _

theorem loads_interval {T : BYTE → DevRecord} {d : HidDevice} (hm : w.mem .bigbuf = m)
    (hw : Tables T d w.host) (hT : (T addr).epinfo = some .hidEp) (fuel : Fuel)
    (confvalue : BYTE) (pos : ℕ) :
    Loads (descr pos 6) (fillEndpoint fuel addr confvalue pos) w := by
  obtain ⟨w', hstays, hmem, hrun⟩ := fillEndpoint_run hm hw hT fuel confvalue pos
  obtain ⟨old, hold⟩ := hstays.grows
  rw [← hold, since_append] at hmem
  have hC : Tasks fun α (x : Prog χ α) => Moves Grows x := tasks_grow
  have hconfigure : Moves Grows (configure fuel addr confvalue d.interface : Prog χ Bool) := by
    refine hC.bind (hC.xferCtrlReq _ _ _ _ _ _ _ _ _ _) fun _ => hC.ite (hC.pure _) ?_
    refine hC.bind (hC.xferCtrlReq _ _ _ _ _ _ _ _ _ _) fun _ => ?_
    exact hC.ite (hC.pure _) (hC.pure _)
  obtain ⟨new, hnew⟩ := hconfigure w'
  refine ⟨new ++ old, ?_, List.mem_append_right new hmem⟩
  rw [hrun, ← hnew, ← hold, List.append_assoc]

/-- The outer loop loads the type of a descriptor that it reaches, and of an interface the
protocol. -/
theorem interfaceLoop_loads {pos : ℕ} (hskips : Skips m total usbDescriptorInterface 0 pos)
    (hlt : pos < total) (fuel : Fuel) (driver protocol addr confvalue : BYTE) {total' : WORD}
    (htotal : total'.toNat = total) :
    ∃ k, ∀ n, k < n → ∀ (w : World χ) p, w.mem .bigbuf = m →
      (∀ w', Looked w w' → Loads p (skipTo usbDescriptorInterface (parseInterface
        { fuel with walk := n } driver protocol addr confvalue total') pos) w') →
      Loads p (interfaceLoop { fuel with walk := n } driver protocol addr confvalue total' 0)
        w := by
  subst htotal
  obtain ⟨k, hloads⟩ := hskips.loads (χ := χ) hlt
  exact ⟨k, fun n hn w p hm h => hloads Bool _ _ w n p
    (fun _ => tasks_grow.parseInterface _ _ _ _ _ _ _) (fun _ => tasks_grow.pure _) hm hn h⟩

/-- The inner loop loads the type of a descriptor that it reaches, and of an endpoint the
interval. -/
theorem endpointLoop_loads {pos pos' : ℕ} (hskips : Skips m total usbDescriptorEndpoint pos pos')
    (hlt : pos' < total) (fuel : Fuel) (addr confvalue : BYTE) {total' : WORD}
    (htotal : total'.toNat = total) :
    ∃ k, ∀ n, k < n → ∀ (w : World χ) walk T d, w.mem .bigbuf = m → Tables T d w.host →
      (T addr).epinfo = some .hidEp →
      Loads (descr pos' 1)
        (endpointLoop { fuel with walk := walk } addr confvalue total' n pos) w ∧
      (field m pos' 1 = usbDescriptorEndpoint → Loads (descr pos' 6)
        (endpointLoop { fuel with walk := walk } addr confvalue total' n pos) w) := by
  subst htotal
  obtain ⟨k, hloads⟩ := hskips.loads (χ := χ) hlt
  refine ⟨k, fun n hn w walk T d hm ht hT => ?_⟩
  have hfound (pos : ℕ) : Moves Grows (fillEndpoint { fuel with walk := walk } addr confvalue pos
      >>= fun found => pure (.inr (.inr found)) : Prog χ (ℕ ⊕ (ℕ ⊕ Bool))) :=
    tasks_grow.bind (tasks_grow.fillEndpoint _ _ _ _) fun _ => tasks_grow.pure _
  have hreach (p : Ptr) := hloads _ _ (fun pos => pure (.inl pos)) w n p hfound
    (fun _ => tasks_grow.pure _) hm hn
  refine ⟨hreach _ fun w' _ => loads_type hfound pos' w', fun hkind => hreach _ fun w' hlook => ?_⟩
  refine loads_found (hlook.mem ▸ hm) hkind fun w'' hlook' => ?_
  have hlook'' := hlook.trans hlook'
  exact (loads_interval (hlook''.mem ▸ hm) (hlook''.host ▸ ht) hT _ _ _).left
    fun _ => tasks_grow.pure _

/-- A walk that stays below the end meets no descriptor that is cut off. -/
theorem untruncated_of_below (fuel : Fuel) (driver confvalue : BYTE) {protocol : BYTE}
    {total : WORD} (hw : Config m addr w)
    (hbelow : ∀ n pos k, Loads (descr pos k)
      (interfaceLoop { fuel with walk := n } driver protocol addr confvalue total 0) w →
      pos + k < total.toNat) : Untruncated m total.toNat protocol := by
  refine ⟨fun pos hskips hlt => ?_, fun pos hfinds pos' hskips' hlt' => ?_⟩
  · obtain ⟨k, hloads⟩ :=
      interfaceLoop_loads (χ := χ) hskips hlt fuel driver protocol addr confvalue rfl
    have hreach (j : ℕ) := hloads (k + 1) (Nat.lt_succ_self k) w (descr pos j) hw.1
    split
    · next hkind =>
      have := hbelow (k + 1) pos 7 (hreach 7 fun w' hlook =>
        loads_found (hlook.mem ▸ hw.1) hkind fun w'' _ => loads_protocol _ _ _ _ _ _ _)
      omega
    · have := hbelow (k + 1) pos 1 (hreach 1 fun w' _ =>
        loads_type (fun _ => tasks_grow.parseInterface _ _ _ _ _ _ _) pos w')
      omega
  · obtain ⟨hskips, hlt, hkind, hboot⟩ := hfinds
    obtain ⟨k, hloads⟩ :=
      interfaceLoop_loads (χ := χ) hskips hlt fuel driver protocol addr confvalue rfl
    obtain ⟨k', hloads'⟩ := endpointLoop_loads (χ := χ) hskips' hlt' fuel addr confvalue rfl
    -- enough rounds for both loops
    have hreach (j : ℕ) (h : ∀ (w' : World χ) T d, w'.mem .bigbuf = m → Tables T d w'.host →
        (T addr).epinfo = some .hidEp → Loads (descr pos' j) (endpointLoop
          { fuel with walk := k + k' + 1 } addr confvalue total (k + k' + 1) (nextDescr m pos))
          w') : pos' + j < total.toNat := by
      refine hbelow (k + k' + 1) pos' j (hloads _ (by omega) w _ hw.1 fun w₁ s₁ =>
        loads_found (s₁.mem ▸ hw.1) hkind fun w₂ s₂ => ?_)
      have s₂ := s₁.trans s₂
      obtain ⟨w₃, s₃, t₃, hrun⟩ := parseInterface_run ⟨s₂.mem ▸ hw.1, s₂.host ▸ hw.2⟩ hboot
        { fuel with walk := k + k' + 1 } driver confvalue total
      refine Loads.of_eq (h w₃ _ _ ?_ t₃ (by simp [entered])) hrun s₃.grows
      rw [s₃.mem, s₂.mem, hw.1]
    split
    · next hkind' =>
      have := hreach 6 fun w' T d hm ht hT =>
        (hloads' _ (by omega) w' (k + k' + 1) T d hm ht hT).2 hkind'
      omega
    · have := hreach 1 fun w' T d hm ht hT =>
        (hloads' _ (by omega) w' (k + k' + 1) T d hm ht hT).1
      omega

end Walk

/-! ## The probes -/

section Probes

variable {χ : Type} [Platform χ] {fuel : Fuel} {addr : BYTE} {w : World χ}

/-- Every field of a descriptor that the probe reads lies below `total_length`, and in `bigbuf`. -/
def ReadsBelow (probe : Fuel → BYTE → Prog χ Bool) (fuel : Fuel) (addr : BYTE) (w : World χ) :
    Prop :=
  ∀ total confvalue, value? (readConfiguration fuel addr w) = some (some (total, confvalue)) →
    ∀ off : ℤ, Event.load ⟨.bigbuf, off⟩ ∈
        since (final (readConfiguration fuel addr w)).log (final (probe fuel addr w)).log →
      0 ≤ off ∧ off < total.toNat ∧ off < 256

/-- No descriptor is cut off of those that the probe reaches in its configuration. -/
def ConfigurationWhole (protocol : BYTE) (fuel : Fuel) (addr : BYTE) (w : World χ) : Prop :=
  ∀ total confvalue, value? (readConfiguration fuel addr w) = some (some (total, confvalue)) →
    Untruncated (configuration fuel addr w) total.toNat protocol

/-- No more is parsed than `bigbuf` holds. -/
theorem readConfiguration_le {total : WORD} {confvalue : BYTE}
    (hr : value? (readConfiguration fuel addr w) = some (some (total, confvalue))) :
    total.toNat ≤ 256 := by
  have hany {α : Type} (x : Prog χ α) : Triple (fun _ => True) x (fun _ _ => True) fun _ => True :=
    ⟨fun _ _ _ _ _ => trivial, fun _ _ _ _ _ => trivial⟩
  have htriple : Triple (fun _ => True) (readConfiguration fuel addr : Prog χ _)
      (fun r _ => ∀ x, r = some x → x.1.toNat ≤ 256) fun _ => True := by
    refine triple_bind (hany _) fun rcode => triple_ite (fun _ => triple_pure fun _ _ _ => nofun)
      fun _ => ?_
    refine triple_bind (hany _) fun wTotalLength => triple_bind (hany _) fun rcode => ?_
    refine triple_ite (fun _ => triple_pure fun _ _ _ => nofun) fun _ => ?_
    refine triple_bind (hany _) fun confvalue => triple_pure fun _ _ x hx => ?_
    cases hx
    split
    · exact Nat.le_refl 256
    · next h => exact BitVec.le_def.mp (BitVec.not_lt.mp h)
  exact htriple.ok w _ _ trivial (eq_ok_of_value? hr) _ rfl

theorem hidProbe_readsBelow_iff (driver protocol : BYTE) (fuel : Fuel) (addr : BYTE)
    (w : World χ) :
    (∀ n, ReadsBelow (hidProbe driver protocol) { fuel with walk := n } addr w) ↔
      ConfigurationWhole protocol fuel addr w := by
  unfold ReadsBelow
  simp only [readConfiguration_walk]
  constructor
  · intro hbelow total confvalue hr
    refine untruncated_of_below fuel driver confvalue (hidProbe_walk driver protocol hr 0).1
      fun n pos k hloads => ?_
    have hmem := hloads.mem_since
    rw [← (hidProbe_walk driver protocol hr n).2] at hmem
    have hlt := (hbelow n total confvalue hr _ hmem).2.1
    omega
  · intro hwhole n total confvalue hr off hoff
    have hle := readConfiguration_le hr
    have hgot := (hwhole total confvalue hr).got
    obtain ⟨hconfig, hrun⟩ := hidProbe_walk driver protocol hr n
    rw [hrun] at hoff
    generalize final (readConfiguration fuel addr w) = w₂ at hconfig hoff
    have hstart : Watched (LoadsBelow total.toNat w₂.log) (configuration fuel addr w) w₂ :=
      ⟨⟨[], rfl, fun _ h => nomatch h⟩, hconfig.1⟩
    have hwalk := triple_interfaceLoop_got (χ := χ) (permits_below total.toNat w₂.log)
      { fuel with walk := n } driver protocol addr confvalue total hgot
    obtain ⟨new, hnew, hbelow⟩ :=
      (hwalk.conseq (fun _ hs => hs) fun _ _ hs => hs.1).final hstart
    rw [hnew, since_append] at hoff
    obtain ⟨k, rfl, hk⟩ := hbelow off hoff
    omega

/-- The probes read below `total_length` only, whatever the number of rounds, if and only if no
descriptor that they reach is cut off by it. -/
theorem probes_readBelow_iff (fuel : Fuel) (addr : BYTE) (w : World χ) :
    ((∀ n, ReadsBelow hidkProbe { fuel with walk := n } addr w) ↔
      ConfigurationWhole hidProtocolKeyboard fuel addr w) ∧
    ((∀ n, ReadsBelow hidmProbe { fuel with walk := n } addr w) ↔
      ConfigurationWhole hidProtocolMouse fuel addr w) :=
  ⟨hidProbe_readsBelow_iff _ _ fuel addr w, hidProbe_readsBelow_iff _ _ fuel addr w⟩

theorem not_readsBelow {probe : Fuel → BYTE → Prog χ Bool} {total : WORD} (confvalue : BYTE)
    {off : ℤ} (hr : value? (readConfiguration fuel addr w) = some (some (total, confvalue)))
    (hload : ⟨.bigbuf, off⟩ ∈ (since (final (readConfiguration fuel addr w)).log
      (final (probe fuel addr w)).log).filterMap Event.loadFrom)
    (hoff : (total.toNat : ℤ) ≤ off) : ¬ReadsBelow probe fuel addr w := by
  intro hbelow
  obtain ⟨e, he, hfrom⟩ := List.mem_filterMap.mp hload
  cases e with
  | load p =>
    cases hfrom
    have hlt := (hbelow total confvalue hr off he).2.1
    omega
  | _ => cases hfrom

end Probes

/-- A keyboard whose `wTotalLength` ends two bytes into its endpoint descriptor. -/
def cutKeyboard : List BYTE :=
  [9, 2, 20, 0, 1, 1, 0, 0xa0, 50,
    9, 4, 0, 0, 1, 3, 1, 1, 0,
    7, 5]

/-- Of its endpoint the probe reads the interval at 24, where 20 bytes were asked for. -/
theorem cutKeyboard_read :
    ¬ReadsBelow hidkProbe ⟨9, 9, 9, 9, 9⟩ 1 (keyboardReplies cutKeyboard) :=
  not_readsBelow (χ := Script) 1 (by decide +kernel)
    (by decide +kernel : (⟨.bigbuf, 24⟩ : Ptr) ∈ _) (by decide : ((20 : WORD).toNat : ℤ) ≤ 24)

end TetrisFpga.Usb
