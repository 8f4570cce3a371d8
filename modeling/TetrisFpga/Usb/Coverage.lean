import TetrisFpga.Usb.Leftovers
import TetrisFpga.Usb.ProbeWalk

/-!
# What the probes look at

A short packet ends a transfer with success, and the probes do not ask how long it was. They keep
to what they received if the device sends the length of its configuration, and if it sends of
every descriptor that the walk reaches the bytes that the walk looks at.
-/

namespace TetrisFpga.Usb
open Program History

/-! ## Descriptors that were received -/

/-- The byte `k` of `bigbuf` was stored. -/
def Got (log : List Event) (k : ℕ) : Prop := (⟨.bigbuf, k⟩ : Ptr) ∈ stored log

section Chain

variable (got : ℕ → Prop) (m : ℤ → BYTE) (total : ℕ)

/-- The loop that looks for a descriptor of type `kind` sees the type of every one it reaches, the
length of those it skips, and of the others `Found`. -/
def LoopGot (kind : BYTE) (Found : ℕ → Prop) (pos : ℕ) : Prop :=
  ∀ pos', Skips m total kind pos pos' → pos' < total →
    got (pos' + 1) ∧ if field m pos' 1 ≠ kind then got pos' else Found pos'

/-- The inner loop sees what it copies. -/
def EndpointsGot : ℕ → Prop :=
  LoopGot got m total usbDescriptorEndpoint fun pos => ∀ k ∈ [2, 3, 4, 5, 6], got (pos + k)

/-- The outer loop sees whether an interface is the one looked for, and if it is, its number, its
length and what the inner loop looks at. -/
def InterfacesGot (protocol : BYTE) : ℕ → Prop :=
  LoopGot got m total usbDescriptorInterface fun pos =>
    (∀ k ∈ [5, 6, 7], got (pos + k)) ∧
      (IsBootInterface m protocol pos →
        got (pos + 2) ∧ got pos ∧ EndpointsGot got m total (nextDescr m pos))

variable {got m total} {kind : BYTE} {Found : ℕ → Prop} {pos : ℕ}

theorem LoopGot.next (h : LoopGot got m total kind Found pos) (hskip : Skipped m total kind pos) :
    LoopGot got m total kind Found (nextDescr m pos) :=
  fun pos' hskips => h pos' (.skip hskip hskips)

end Chain

/-! ## The walk -/

section Walk

variable {χ : Type} {got : ℕ → Prop} {m : ℤ → BYTE} {total : ℕ} {L : List Event → Prop}

/-- So far only bytes that were received have been loaded, among them those of `got`, and `bigbuf`
has the contents `m`. -/
structure Walking (got : ℕ → Prop) (m : ℤ → BYTE) (w : World χ) : Prop where
  fed : Fed .bigbuf w.log
  got : ∀ k, got k → Got w.log k
  mem : w.mem .bigbuf = m

/-- Only bytes of `bigbuf` that were stored have been loaded. -/
abbrev FedProbe : World χ → Prop := FedRun .bigbuf

theorem descr_add (pos k : ℕ) : descr pos k = ⟨.bigbuf, (pos + k : ℕ)⟩ := by
  rw [descr, Int.natCast_add]

/-- `L` stays true of the log as long as only bytes of `got` are loaded. -/
structure Permits (got : ℕ → Prop) (L : List Event → Prop) : Prop where
  other : ∀ e log, e.loadFrom = none → L log → L (e :: log)
  load : ∀ k log, got k → L log → L (.load ⟨.bigbuf, (k : ℕ)⟩ :: log)

/-- `L` is true of the log. -/
def Logged (L : List Event → Prop) (w : World χ) : Prop := L w.log

/-- `L` is true of the log, and `bigbuf` has the contents `m`. -/
def Watched (L : List Event → Prop) (m : ℤ → BYTE) (w : World χ) : Prop :=
  Logged L w ∧ w.mem .bigbuf = m

/-- What was received may be loaded. -/
theorem permits_fed (got : ℕ → Prop) :
    Permits got fun log => Fed .bigbuf log ∧ ∀ k, got k → Got log k where
  other e log he hlog := ⟨(fed_cons he).mpr hlog.1, fun k hk => mem_stored_cons (hlog.2 k hk) e⟩
  load k log hk hlog := by
    refine ⟨⟨?_, hlog.1⟩, fun k hk => mem_stored_cons (hlog.2 k hk) _⟩
    rintro p hp -
    cases hp
    exact hlog.2 k hk

theorem Walking.watched {w : World χ} (hw : Walking got m w) :
    Watched (fun log => Fed .bigbuf log ∧ ∀ k, got k → Got log k) m w :=
  ⟨⟨hw.fed, hw.got⟩, hw.mem⟩

/-- A byte of `got` is loaded. -/
theorem triple_loadGot (hL : Permits got L) {pos k : ℕ} (hk : got (pos + k)) :
    Triple (Watched L m) (load (descr pos k) : Prog χ BYTE)
      (fun val w => Watched L m w ∧ val = field m pos k) (Logged L) where
  ok w val w' hw hr := by
    cases hr
    refine ⟨⟨?_, hw.2⟩, ?_⟩
    · rw [descr_add]
      exact hL.load _ _ hk hw.1
    · rw [field, ← hw.2]
      rfl
  error w e w' _ hr := by cases hr

theorem triple_walking (hL : Permits got L) {α : Type} {x : Prog χ α}
    (hx : ∀ w, ∃ a w', x w = .ok a w' ∧ w'.mem = w.mem ∧
      (w'.log = w.log ∨ ∃ e, e.loadFrom = none ∧ w'.log = e :: w.log)) :
    Keeps (Watched L m) (Logged L) x where
  ok w a w' hw hr := by
    obtain ⟨b, w₁, hr', hmem, hlog⟩ := hx w
    cases hr'.symm.trans hr
    refine ⟨?_, hmem ▸ hw.2⟩
    obtain hlog | ⟨e, he, hlog⟩ := hlog
    · rw [Logged, hlog]
      exact hw.1
    · rw [Logged, hlog]
      exact hL.other e _ he hw.1
  error w e w' _ hr := by
    obtain ⟨b, w₁, hr', -⟩ := hx w
    cases hr'.symm.trans hr

theorem triple_walkThrow {α : Type} (e : Fault) {Q : α → World χ → Prop} :
    Triple (Watched L m) (throw e : Prog χ α) Q (Logged L) :=
  triple_throw fun _ hw => hw.1

theorem triple_walkAssign (hL : Permits got L) (f : Host → Host) :
    Keeps (Watched L m) (Logged L) (setHost f : Prog χ Unit) :=
  triple_walking hL fun _ => ⟨_, _, rfl, rfl, .inr ⟨_, rfl, rfl⟩⟩

theorem triple_walkGet (hL : Permits got L) :
    Keeps (Watched L m) (Logged L) (getHost : Prog χ Host) :=
  triple_walking hL fun _ => ⟨_, _, rfl, rfl, .inl rfl⟩

theorem triple_walkEpinfo (hL : Permits got L) (addr ep : BYTE) :
    Keeps (Watched L m) (Logged L) (epinfo addr ep : Prog χ EpTable) :=
  epinfo_mem (closed_keeps (Watched L m) (Logged L))
    (triple_walking hL fun _ => ⟨_, _, rfl, rfl, .inr ⟨_, rfl, rfl⟩⟩) (triple_walkGet hL)
    (triple_walkThrow .deref)

theorem triple_walkSetEp (hL : Permits got L) (addr ep : BYTE) (f : EpRecord → EpRecord) :
    Keeps (Watched L m) (Logged L) (setEpRecord addr ep f : Prog χ Unit) :=
  triple_bind (triple_walkEpinfo hL addr ep) fun _ => triple_walkAssign hL _

theorem triple_fillDevice_got (hL : Permits got L) (driver addr : BYTE) {pos : ℕ}
    (hgot : got (pos + 2)) :
    Keeps (Watched L m) (Logged L) (fillDevice driver addr pos : Prog χ Unit) := by
  have hrecord : Keeps (Watched L m) (Logged L) (epRecord addr 0 : Prog χ EpRecord) := by
    refine triple_bind (triple_walkEpinfo hL addr 0) fun t => ?_
    exact triple_bind (triple_walkGet hL) fun h => triple_pure fun _ hw => hw
  refine triple_bind (triple_walkAssign hL _) fun _ => triple_bind hrecord fun _ => ?_
  refine triple_bind (triple_bind (triple_walkAssign hL _) fun _ => triple_walkAssign hL _)
    fun _ => ?_
  refine triple_bind (triple_walkAssign hL _) fun _ => ?_
  refine triple_bind (triple_walkSetEp hL _ _ _) fun _ => ?_
  refine triple_bind (triple_loadGot hL hgot) fun val => ?_
  exact triple_bind ((triple_walkAssign hL _).conseq (fun _ hw => hw.1) fun _ _ hw => hw)
    fun _ => triple_walkAssign hL _

variable [Platform χ]

theorem dispatches_walking (hL : Permits got L) :
    Dispatches (χ := χ) fun _ => Keeps (Watched L m) (Logged L) where
  toClosed := closed_keeps _ _
  hirq := triple_walking hL fun _ => ⟨_, _, rfl, rfl, .inr ⟨_, rfl, rfl⟩⟩
  hrsl := triple_walking hL fun _ => ⟨_, _, rfl, rfl, .inr ⟨_, rfl, rfl⟩⟩
  wr _ _ := triple_walking hL fun _ => ⟨_, _, rfl, rfl, .inr ⟨_, rfl, rfl⟩⟩
  nticks := triple_walking hL fun _ => ⟨_, _, rfl, rfl, .inr ⟨_, rfl, rfl⟩⟩
  wait := triple_walkThrow _
  dispatch := triple_walkThrow _

theorem triple_fillEndpoint_got (hL : Permits got L) (fuel : Fuel) (addr confvalue : BYTE)
    {pos : ℕ} (hgot : ∀ k ∈ [2, 3, 4, 5, 6], got (pos + k)) :
    Keeps (Watched L m) (Logged L) (fillEndpoint fuel addr confvalue pos : Prog χ Bool) := by
  have hC : Dispatches (χ := χ) fun _ => Keeps (Watched L m) (Logged L) := dispatches_walking hL
  have hload {k : ℕ} (hk : k ∈ [2, 3, 4, 5, 6]) :
      Keeps (Watched L m) (Logged L) (load (descr pos k) : Prog χ BYTE) :=
    (triple_loadGot hL (hgot k hk)).conseq (fun _ hw => hw) fun _ _ hw => hw.1
  have hword : Keeps (Watched L m) (Logged L) (loadWord (descr pos 4) : Prog χ WORD) := by
    refine hC.bind (hload (by decide)) fun _ => hC.bind ?_ fun _ => hC.pure _
    rw [descr_high]
    exact hload (List.mem_of_mem_tail (List.mem_of_mem_tail (List.mem_append_left [6]
      (highByte_mem pos 4))))
  refine hC.bind (hload (by decide)) fun _ => hC.bind (triple_walkSetEp hL _ _ _) fun _ => ?_
  refine hC.bind (hload (by decide)) fun _ => hC.bind (triple_walkSetEp hL _ _ _) fun _ => ?_
  refine hC.bind hword fun _ => hC.bind (triple_walkSetEp hL _ _ _) fun _ => ?_
  refine hC.bind (hload (by decide)) fun _ => hC.bind (triple_walkSetEp hL _ _ _) fun _ => ?_
  refine hC.bind (hC.xferCtrlReq_none _ _ _ _ _ _ _ _ _) fun _ => hC.ite (hC.pure _) ?_
  refine hC.bind (triple_walkGet hL) fun _ => ?_
  refine hC.bind (hC.xferCtrlReq_none _ _ _ _ _ _ _ _ _) fun _ => ?_
  exact hC.ite (hC.pure _) (hC.pure _)

omit [Platform χ] in
/-- Both loops of a probe: what they skip was received, and what they find is left to `found`. -/
theorem triple_skipLoop_got (hL : Permits got L) {β : Type} {kind : BYTE} {Found : ℕ → Prop}
    {found : ℕ → Prog χ (ℕ ⊕ β)} {after : ℕ → Prog χ β}
    (hfound : ∀ pos, Found pos → Triple (Watched L m) (found pos)
      (Sum.rec (fun pos' w => Watched L m w ∧ total ≤ pos') fun _ => Watched L m) (Logged L))
    (hafter : ∀ pos, Keeps (Watched L m) (Logged L) (after pos))
    (n pos : ℕ) (hpos : LoopGot got m total kind Found pos) :
    Keeps (Watched L m) (Logged L)
        (whileLoop .walk (fun pos => pure (decide (pos < total))) (skipTo kind found) after n
          pos) := by
  -- behind the end of the configuration nothing more is loaded
  refine (triple_whileLive (I := fun pos w => Watched L m w ∧
    (pos < total → LoopGot got m total kind Found pos)) (fun pos hlive => ?_) (fun pos _ => ?_)
    (fun _ _ hw => hw.1.1) n pos).conseq (fun w hw => ⟨hw, fun _ => hpos⟩) fun _ _ hw => hw
  · have hlt := of_decide_eq_true hlive
    refine triple_of_imp (fun w hw => hw.2 hlt) fun hloop => ?_
    refine Triple.conseq (P := Watched L m) ?_ (fun _ hw => hw.1) fun _ _ hw => hw
    obtain ⟨htype, hrest⟩ := hloop pos (.refl pos) hlt
    refine triple_bind (triple_loadGot hL htype) fun val => triple_of_fact fun hval => ?_
    subst hval
    refine triple_ite (fun hskip => ?_) fun hkind => ?_
    · rw [if_pos hskip] at hrest
      refine triple_bind (triple_loadGot hL (k := 0) hrest) fun len => triple_of_fact fun hlen => ?_
      subst hlen
      exact triple_pure fun w hw => ⟨hw, fun _ => hloop.next ⟨hlt, hskip⟩⟩
    · rw [if_neg hkind] at hrest
      refine (hfound pos hrest).conseq (fun _ hw => hw) fun r w hw => ?_
      cases r with
      | inl pos' => exact ⟨hw.1, fun hlt' => absurd hw.2 (Nat.not_le.mpr hlt')⟩
      | inr b => exact hw
  · exact (hafter pos).conseq (fun _ hw => hw.1) fun _ _ hw => hw

theorem triple_endpointLoop_got (hL : Permits got L) (fuel : Fuel) (addr confvalue : BYTE)
    (total : WORD) (n : ℕ) {pos : ℕ} (hpos : EndpointsGot got m total.toNat pos) :
    Triple (Watched L m) (endpointLoop fuel addr confvalue total n pos : Prog χ (ℕ ⊕ Bool))
      (Sum.rec (fun pos' w => Watched L m w ∧ total.toNat ≤ pos') fun _ => Watched L m)
      (Logged L) := by
  have hloop : Keeps (Watched L m) (Logged L)
      (endpointLoop fuel addr confvalue total n pos : Prog χ (ℕ ⊕ Bool)) := by
    refine triple_skipLoop_got hL (fun pos hfound => ?_) (fun pos => triple_pure fun _ hw => hw) n
      pos hpos
    exact triple_bind (triple_fillEndpoint_got hL fuel addr confvalue hfound) fun found =>
      triple_pure fun _ hw => hw
  refine ⟨fun w r w' hw hr => ?_, hloop.error⟩
  have hpost := hloop.ok w r w' hw hr
  cases r with
  | inl pos' => exact ⟨hpost, endpointLoop_inl hr⟩
  | inr found => exact hpost

theorem triple_parseInterface_got (hL : Permits got L) (fuel : Fuel)
    (driver protocol addr confvalue : BYTE) (total : WORD) {pos : ℕ}
    (hfields : ∀ k ∈ [5, 6, 7], got (pos + k)) (hboot : IsBootInterface m protocol pos →
      got (pos + 2) ∧ got pos ∧ EndpointsGot got m total.toNat (nextDescr m pos)) :
    Triple (Watched L m)
      (parseInterface fuel driver protocol addr confvalue total pos : Prog χ (ℕ ⊕ Bool))
      (Sum.rec (fun pos' w => Watched L m w ∧ total.toNat ≤ pos') fun _ => Watched L m)
      (Logged L) := by
  refine triple_bind (triple_loadGot hL (hfields 5 (by decide))) fun c =>
    triple_of_fact fun hc => ?_
  refine triple_bind (triple_loadGot hL (hfields 6 (by decide))) fun d =>
    triple_of_fact fun hd => ?_
  refine triple_bind (triple_loadGot hL (hfields 7 (by decide))) fun e =>
    triple_of_fact fun he => ?_
  subst hc hd he
  refine triple_ite (fun hmatch => ?_) fun _ => triple_pure fun _ hw => hw
  obtain ⟨hnumber, hlength, hendpoints⟩ := hboot hmatch
  refine triple_bind (triple_fillDevice_got hL driver addr hnumber) fun _ => ?_
  refine triple_bind (triple_loadGot hL (k := 0) hlength) fun len => triple_of_fact fun hlen => ?_
  subst hlen
  exact triple_endpointLoop_got hL fuel addr confvalue total fuel.walk hendpoints

theorem triple_interfaceLoop_got (hL : Permits got L) (fuel : Fuel)
    (driver protocol addr confvalue : BYTE) (total : WORD) {pos : ℕ}
    (hpos : InterfacesGot got m total.toNat protocol pos) :
    Keeps (Watched L m) (Logged L)
        (interfaceLoop fuel driver protocol addr confvalue total pos : Prog χ Bool) :=
  triple_skipLoop_got hL (fun _ hfound => triple_parseInterface_got hL fuel driver protocol addr
    confvalue total hfound.1 hfound.2) (fun _ => triple_pure fun _ hw => hw) fuel.walk pos hpos

end Walk

/-! ## The requests -/

section Requests

variable {χ : Type} [Platform χ]

omit [Platform χ] in
/-- A byte that was received is loaded, and none is lost. -/
theorem triple_loadFed {ks : List ℕ} {k : ℕ} (hk : k ∈ ks) :
    Triple (fun w => FedProbe w ∧ ∀ k ∈ ks, Got w.log k) (load (descr 0 k) : Prog χ BYTE)
      (fun _ w => FedProbe w ∧ ∀ k ∈ ks, Got w.log k) FedProbe where
  ok w a w' hw hr := by
    cases hr
    refine ⟨⟨?_, hw.1.fed⟩, fun k hk => mem_stored_cons (hw.2 k hk) _⟩
    rintro p hp -
    cases hp
    rw [descr_add, Nat.zero_add]
    exact hw.2 k hk
  error w e w' _ hr := by cases hr

/-- The bytes of the configuration that a probe looks at are among those that it received. -/
structure Covered (protocol : BYTE) (fuel : Fuel) (addr : BYTE) (w : World χ) : Prop where
  /-- The first reply goes up to the length of the configuration. -/
  length : value? (xferGetConfDescr fuel addr 0 confDescrLen 0 ⟨.bigbuf, 0⟩ w) = some 0 →
    ∀ k ∈ [2, 3],
      Got (final (xferGetConfDescr fuel addr 0 confDescrLen 0 ⟨.bigbuf, 0⟩ w)).log k
  confvalue : ∀ r, value? (readConfiguration fuel addr w) = some (some r) →
    Got (final (readConfiguration fuel addr w)).log 5
  walk : ∀ total confvalue,
    value? (readConfiguration fuel addr w) = some (some (total, confvalue)) →
      InterfacesGot (Got (final (readConfiguration fuel addr w)).log)
        ((final (readConfiguration fuel addr w)).mem .bigbuf) total.toNat protocol 0

theorem fed_readConfiguration {protocol : BYTE} {fuel : Fuel} {addr : BYTE} {w : World χ}
    (hw : FedProbe w) (hcov : Covered protocol fuel addr w) :
    FedProbe (final (readConfiguration fuel addr w)) := by
  have hC : RequestsAt (χ := χ) (fun _ => Keeps FedProbe FedProbe) addr 0 := requests_fed _ addr 0
  have hrequest (n : WORD) (p : Ptr) : Keeps FedProbe FedProbe
      (xferGetConfDescr fuel addr 0 n 0 p : Prog χ BYTE) :=
    hC.xferCtrlReq _ _ _ _ _ _ _ _
  have hrun : Triple (fun s => s = w) (readConfiguration fuel addr : Prog χ _)
      (fun r s => (∀ x, r = some x → Got s.log 5) → FedProbe s) FedProbe := by
    refine triple_bind (Q := fun rcode s => FedProbe s ∧ (rcode = 0 → ∀ k ∈ [2, 3], Got s.log k))
      ⟨?_, ?_⟩ fun rcode => ?_
    · rintro _ rcode s rfl hr
      refine ⟨(hrequest _ _).ok _ rcode s hw hr, fun h0 => ?_⟩
      have hlength := hcov.length
      rw [hr] at hlength
      exact hlength (congrArg some h0)
    · rintro _ e s rfl hr
      exact (hrequest _ _).error _ e s hw hr
    refine triple_ite (fun _ => triple_pure fun s hs _ => hs.1) fun h0 => ?_
    have hok := not_not.mp h0
    refine triple_bind (Q := fun _ => FedProbe) ?_ fun wTotalLength => ?_
    · refine triple_bind ((triple_loadFed (by decide : 2 ∈ [2, 3])).conseq
        (fun s hs => ⟨hs.1, hs.2 hok⟩) fun _ _ hs => hs) fun lo => ?_
      rw [descr_high]
      refine triple_bind (triple_loadFed (highByte_mem 0 2)) fun hi => ?_
      exact triple_pure fun s hs => hs.1
    -- the second request stores the whole configuration, `bConfigurationValue` included
    refine triple_bind (hrequest _ _) fun rcode =>
      triple_ite (fun _ => triple_pure fun s hs _ => hs)
      fun _ => ?_
    refine triple_bind (Q := fun _ s => Got s.log 5 → FedProbe s) ⟨?_, ?_⟩ fun confvalue =>
      triple_pure fun s hs hgot => hs (hgot _ rfl)
    · intro s val s' hs hr hgot
      cases hr
      refine ⟨?_, hs.fed⟩
      rintro p hp -
      cases hp
      exact hgot
    · intro s e s' _ hr
      cases hr
  cases hr : readConfiguration fuel addr w with
  | ok r s =>
    refine hrun.ok w r s rfl hr fun x hx => ?_
    have hgot := hcov.confvalue x
    rw [hr] at hgot
    exact hgot (congrArg some hx)
  | error e s => exact hrun.error w e s rfl hr

/-- A probe loads nothing that it has not received. -/
theorem fed_hidProbe {driver protocol : BYTE} {fuel : Fuel} {addr : BYTE} {w : World χ}
    (hw : FedProbe w) (hcov : Covered protocol fuel addr w) :
    FedProbe (final (hidProbe driver protocol fuel addr w)) := by
  have hfed := fed_readConfiguration hw hcov
  cases hr : readConfiguration fuel addr w with
  | error e s =>
    rw [hr] at hfed
    rw [hidProbe, bind_of_error hr]
    exact hfed
  | ok r s =>
    rw [hr] at hfed
    rw [hidProbe, bind_of_ok hr]
    cases r with
    | none => exact hfed
    | some r =>
      obtain ⟨total, confvalue⟩ := r
      have hwalk := hcov.walk total confvalue
      rw [hr] at hwalk
      have hwalking : Walking (Got s.log) (s.mem .bigbuf) s := ⟨hfed.fed, fun _ hk => hk, rfl⟩
      have hloop := triple_interfaceLoop_got (χ := χ) (permits_fed (Got s.log)) fuel driver protocol
        addr confvalue total (hwalk rfl)
      have hlog := (hloop.conseq (fun _ hs => hs) fun _ _ hs => hs.1).final hwalking.watched
      exact ⟨hlog.1⟩

end Requests

end TetrisFpga.Usb
