import TetrisFpga.Usb.ProbeOutcome
import TetrisFpga.Usb.Tasks

/-!
# The rounds of the probes

The loops of the probes look at the configuration and change nothing while they skip. A loop gets
to any place that it skips to, if it has the rounds, and what it loads on the way is in the log.
-/

namespace TetrisFpga.Usb
open Program

/-! ## What a run loads -/

section Log

variable {χ α β : Type}

/-- What was logged after `before`. -/
def since (before log : List Event) : List Event := log.take (log.length - before.length)

@[simp] theorem since_append (new before : List Event) : since before (new ++ before) = new := by
  rw [since, List.length_append, Nat.add_sub_cancel, List.take_left]

/-- The log goes on. -/
def Grows (w w' : World χ) : Prop := w.log <:+ w'.log

/-- The run of `x` from `w` loads the byte at `p`. -/
def Loads (p : Ptr) (x : Prog χ α) (w : World χ) : Prop :=
  ∃ new, (final (x w)).log = new ++ w.log ∧ .load p ∈ new

theorem Loads.mem_since {p : Ptr} {x : Prog χ α} {w : World χ} (h : Loads p x w) :
    Event.load p ∈ since w.log (final (x w)).log := by
  obtain ⟨new, hlog, hmem⟩ := h
  rwa [hlog, since_append]

theorem loads_load (p : Ptr) (w : World χ) : Loads p (load p) w := ⟨[.load p], rfl, .head _⟩

/-- What is loaded in the rest of a run is loaded. -/
theorem Loads.of_eq {p : Ptr} {x y : Prog χ α} {w w' : World χ} (h : Loads p y w')
    (hr : x w = y w') (hgrows : Grows w w') : Loads p x w := by
  obtain ⟨new, hlog, hmem⟩ := h
  obtain ⟨old, hold⟩ := hgrows
  refine ⟨new ++ old, ?_, List.mem_append_left old hmem⟩
  rw [hr, hlog, List.append_assoc, hold]

theorem Loads.right {p : Ptr} {x : Prog χ α} {f : α → Prog χ β} {w w' : World χ} {a : α}
    (h : Loads p (f a) w') (hr : x w = .ok a w') (hgrows : Grows w w') : Loads p (x >>= f) w :=
  h.of_eq (bind_of_ok hr f) hgrows

theorem Loads.left {p : Ptr} {x : Prog χ α} {f : α → Prog χ β} {w : World χ} (h : Loads p x w)
    (hf : ∀ a, Moves Grows (f a)) : Loads p (x >>= f) w := by
  obtain ⟨new, hlog, hmem⟩ := h
  cases hr : x w with
  | ok a w' =>
    rw [hr] at hlog
    obtain ⟨more, hmore⟩ := hf a w'
    refine ⟨more ++ new, ?_, List.mem_append_right more hmem⟩
    rw [bind_of_ok hr, ← hmore, List.append_assoc]
    exact congrArg (more ++ ·) hlog
  | error e w' =>
    rw [hr] at hlog
    refine ⟨new, ?_, hmem⟩
    rw [bind_of_error hr]
    exact hlog

theorem grows_still {x : Prog χ α} (hx : ∀ w, (final (x w)).log = w.log) : Moves Grows x :=
  fun w => ⟨[], (hx w).symm⟩

theorem grows_event {x : Prog χ α} (hx : ∀ w, ∃ e, (final (x w)).log = e :: w.log) :
    Moves Grows x := by
  intro w
  obtain ⟨e, he⟩ := hx w
  exact ⟨[e], he.symm⟩

variable [Platform χ]

/-- Nothing that was logged is lost. -/
theorem tasks_grow : Tasks fun α (x : Prog χ α) => Moves Grows x where
  toClosed := closed_moves (fun w => List.suffix_refl w.log) fun h h' => h.trans h'
  hirq := grows_event fun _ => ⟨_, rfl⟩
  hrsl := grows_event fun _ => ⟨_, rfl⟩
  wr _ _ := grows_event fun _ => ⟨_, rfl⟩
  nticks := grows_event fun _ => ⟨_, rfl⟩
  wait := grows_still fun _ => rfl
  dispatch := grows_still fun _ => rfl
  rd _ := grows_event fun _ => ⟨_, rfl⟩
  load _ := grows_event fun _ => ⟨_, rfl⟩
  store _ _ := grows_event fun _ => ⟨_, rfl⟩
  getHost := grows_still fun _ => rfl
  setEp _ _ _ := grows_event fun _ => ⟨_, rfl⟩
  transfer := grows_still fun _ => rfl
  deref := grows_still fun _ => rfl
  access _ _ := grows_event fun _ => ⟨_, rfl⟩
  assign _ _ := grows_event fun _ => ⟨_, rfl⟩
  setState _ _ := grows_event fun _ => ⟨_, rfl⟩
  declare _ := grows_still fun _ => rfl
  getPio := grows_still fun _ => rfl
  setPio _ := grows_still fun _ => rfl
  walk := grows_still fun _ => rfl

end Log

/-! ## Skipping -/

section Skip

variable {χ β : Type} {m : ℤ → BYTE} {total : ℕ} {kind : BYTE} {pos : ℕ}

/-- Nothing but the log has changed. -/
def Looked (w w' : World χ) : Prop := ∃ new, w' = { w with log := new ++ w.log }

theorem Looked.trans {w w' w'' : World χ} (h : Looked w w') (h' : Looked w' w'') :
    Looked w w'' := by
  obtain ⟨new, rfl⟩ := h
  obtain ⟨new', rfl⟩ := h'
  exact ⟨new' ++ new, by rw [List.append_assoc]⟩

theorem Looked.grows {w w' : World χ} (h : Looked w w') : Grows w w' := by
  obtain ⟨new, rfl⟩ := h
  exact ⟨new, rfl⟩

theorem Looked.chip {w w' : World χ} (h : Looked w w') : w'.chip = w.chip := by
  obtain ⟨new, rfl⟩ := h
  rfl

theorem Looked.host {w w' : World χ} (h : Looked w w') : w'.host = w.host := by
  obtain ⟨new, rfl⟩ := h
  rfl

theorem Looked.mem {w w' : World χ} (h : Looked w w') : w'.mem = w.mem := by
  obtain ⟨new, rfl⟩ := h
  rfl

/-- A field of a descriptor is loaded. -/
theorem looked_field {w : World χ} (hm : w.mem .bigbuf = m) (pos k : ℕ) :
    ∃ w', load (descr pos k) w = .ok (field m pos k) w' ∧ Looked w w' := by
  subst hm
  exact ⟨_, rfl, [.load (descr pos k)], rfl⟩

theorem looked_word {w : World χ} (hm : w.mem .bigbuf = m) (pos k : ℕ) :
    ∃ w', loadWord (descr pos k) w = .ok (wordRead m pos k) w' ∧ Looked w w' := by
  obtain ⟨w₁, h₁, hlook₁⟩ := looked_field hm pos k
  obtain ⟨w₂, h₂, hlook₂⟩ := looked_field (hlook₁.mem ▸ hm) pos (highByte pos k)
  refine ⟨w₂, ?_, hlook₁.trans hlook₂⟩
  rw [loadWord, bind_of_ok h₁, descr_high, bind_of_ok h₂]
  rfl

theorem looked_skip {w : World χ} (hm : w.mem .bigbuf = m) (h : field m pos 1 ≠ kind)
    (found : ℕ → Prog χ (ℕ ⊕ β)) :
    ∃ w', skipTo kind found pos w = .ok (.inl (nextDescr m pos)) w' ∧ Looked w w' := by
  obtain ⟨w₁, h₁, hlook₁⟩ := looked_field hm pos 1
  obtain ⟨w₂, h₂, hlook₂⟩ := looked_field (hlook₁.mem ▸ hm) pos 0
  refine ⟨w₂, ?_, hlook₁.trans hlook₂⟩
  rw [skipTo, bind_of_ok h₁, if_pos h, bind_of_ok h₂]
  rfl

theorem looked_found {w : World χ} (hm : w.mem .bigbuf = m) (h : field m pos 1 = kind)
    (found : ℕ → Prog χ (ℕ ⊕ β)) :
    ∃ w', skipTo kind found pos w = found pos w' ∧ Looked w w' := by
  obtain ⟨w₁, h₁, hlook⟩ := looked_field hm pos 1
  refine ⟨w₁, ?_, hlook⟩
  rw [skipTo, bind_of_ok h₁, if_neg (not_not.mpr h)]

/-- A loop of a probe, for `n` rounds. -/
abbrev skipLoop (total : ℕ) (kind : BYTE) (found : ℕ → Prog χ (ℕ ⊕ β)) (after : ℕ → Prog χ β) :
    ℕ → ℕ → Prog χ β :=
  whileLoop .walk (fun pos => pure (decide (pos < total))) (skipTo kind found) after

theorem skipLoop_live {found : ℕ → Prog χ (ℕ ⊕ β)} {after : ℕ → Prog χ β} (h : pos < total)
    (n : ℕ) (w : World χ) : skipLoop total kind found after (n + 1) pos w =
      (skipTo kind found pos >>= Sum.elim (skipLoop total kind found after n) pure) w := by
  rw [skipLoop, whileLoop, decide_eq_true h, bind_of_ok (pure_apply true w), if_pos rfl]
  refine congrFun (congrArg (skipTo kind found pos >>= ·) (funext fun r => ?_)) w
  cases r <;> rfl

theorem skipLoop_end {found : ℕ → Prog χ (ℕ ⊕ β)} {after : ℕ → Prog χ β} (h : total ≤ pos)
    (n : ℕ) (w : World χ) : skipLoop total kind found after n pos w = after pos w := by
  have hdead := decide_eq_false (Nat.not_lt.mpr h)
  rw [skipLoop]
  cases n with
  | zero =>
    rw [whileLoop, hdead, bind_of_ok (pure_apply false w)]
    rfl
  | succ n =>
    rw [whileLoop, hdead, bind_of_ok (pure_apply false w)]
    rfl

theorem bind_of_eq {α γ : Type} {x y : Prog χ α} {w w' : World χ} (h : x w = y w')
    (f : α → Prog χ γ) : (x >>= f) w = (y >>= f) w' := by
  cases hr : y w' with
  | ok a s => rw [bind_of_ok (h.trans hr), bind_of_ok hr]
  | error e s => rw [bind_of_error (h.trans hr), bind_of_error hr]

/-- A loop does what there is to do with a descriptor of its type. -/
theorem skipLoop_found {found : ℕ → Prog χ (ℕ ⊕ β)} {after : ℕ → Prog χ β} {w : World χ}
    (h : pos < total) (hm : w.mem .bigbuf = m) (hkind : field m pos 1 = kind) (n : ℕ) :
    ∃ w', Looked w w' ∧ skipLoop total kind found after (n + 1) pos w =
      (found pos >>= Sum.elim (skipLoop total kind found after n) pure) w' := by
  obtain ⟨w', hr, hlook⟩ := looked_found hm hkind found
  exact ⟨w', hlook, (skipLoop_live h n w).trans (bind_of_eq hr _)⟩

/-- A loop gets to where it skips to, in a number of rounds that does not depend on what it does
there, and in one round a descriptor where every descriptor has a length. -/
theorem Skips.rounds {a : ℕ} (h : Skips m total kind pos a) :
    ∃ k, (Advances m total kind pos → pos + k ≤ a) ∧
      ∀ (β : Type) (found : ℕ → Prog χ (ℕ ⊕ β)) (after : ℕ → Prog χ β) (w : World χ),
        w.mem .bigbuf = m → ∃ w', Looked w w' ∧ ∀ n,
          skipLoop total kind found after (n + k) pos w =
            skipLoop total kind found after n a w' := by
  induction h with
  | refl pos => exact ⟨0, fun _ => Nat.le_refl _, fun _ _ _ w _ => ⟨w, ⟨[], rfl⟩, fun _ => rfl⟩⟩
  | @skip pos a hskip _ ih =>
    obtain ⟨k, hk, hrun⟩ := ih
    refine ⟨k + 1, fun hadv => ?_, fun β found after w hm => ?_⟩
    · have hle := hk (hadv.next hskip)
      have hlt := hadv.lt hskip
      omega
    · obtain ⟨w₁, hr, hlook⟩ := looked_skip hm hskip.2 found
      obtain ⟨w', hlook', hrest⟩ := hrun β found after w₁ (hlook.mem ▸ hm)
      refine ⟨w', hlook.trans hlook', fun n => ?_⟩
      rw [← Nat.add_assoc, skipLoop_live hskip.1, bind_of_ok hr]
      exact hrest n

end Skip

/-! ## Entering -/

section Enter

variable {χ : Type} {m : ℤ → BYTE} {addr : BYTE} {w : World χ}

/-- The chip and the buffers are left alone. -/
structure Stays (w w' : World χ) : Prop where
  chip : w'.chip = w.chip
  mem : w'.mem = w.mem
  grows : Grows w w'

theorem Stays.trans {w w' w'' : World χ} (h : Stays w w') (h' : Stays w' w'') : Stays w w'' :=
  ⟨h'.chip.trans h.chip, h'.mem.trans h.mem, h.grows.trans h'.grows⟩

theorem Looked.stays {w w' : World χ} (h : Looked w w') : Stays w w' := ⟨h.chip, h.mem, h.grows⟩

theorem closed_stays : Closed fun α (x : Prog χ α) => Moves Stays x :=
  closed_moves (fun w => ⟨rfl, rfl, List.suffix_refl w.log⟩) fun h h' => h.trans h'

theorem stays_load (p : Ptr) : Moves Stays (load p : Prog χ BYTE) :=
  fun _ => ⟨rfl, rfl, [.load p], rfl⟩

theorem stays_assign (f : Host → Host) : Moves Stays (setHost f : Prog χ Unit) :=
  fun w => ⟨rfl, rfl, [.host (f w.host)], rfl⟩

theorem stays_get : Moves Stays (getHost : Prog χ Host) :=
  fun w => ⟨rfl, rfl, List.suffix_refl w.log⟩

theorem stays_epinfo (addr ep : BYTE) : Moves Stays (epinfo addr ep : Prog χ EpTable) :=
  epinfo_mem closed_stays (fun _ => ⟨rfl, rfl, [.access addr ep], rfl⟩) stays_get
    fun w => ⟨rfl, rfl, List.suffix_refl w.log⟩

theorem stays_setEp (addr ep : BYTE) (f : EpRecord → EpRecord) :
    Moves Stays (setEpRecord addr ep f : Prog χ Unit) :=
  closed_stays.bind (stays_epinfo addr ep) fun _ => stays_assign _

theorem stays_fillDevice (driver addr : BYTE) (pos : ℕ) :
    Moves Stays (fillDevice driver addr pos : Prog χ Unit) := by
  have hC : Closed fun α (x : Prog χ α) => Moves Stays x := closed_stays
  have hrecord : Moves Stays (epRecord addr 0 : Prog χ EpRecord) :=
    hC.bind (stays_epinfo addr 0) fun _ => hC.bind stays_get fun _ => hC.pure _
  refine hC.bind (stays_assign _) fun _ => hC.bind hrecord fun _ => ?_
  refine hC.bind (hC.bind (stays_assign _) fun _ => stays_assign _) fun _ => ?_
  refine hC.bind (stays_assign _) fun _ => hC.bind (stays_setEp _ _ _) fun _ => ?_
  refine hC.bind (stays_load _) fun _ => ?_
  exact hC.bind (stays_assign _) fun _ => stays_assign _

/-- The device is entered, and nothing else has happened. -/
theorem fillDevice_run (hw : Config m addr w) (driver : BYTE) (pos : ℕ) :
    ∃ w', fillDevice driver addr pos w = .ok () w' ∧ Stays w w' ∧
      Tables (entered w.host.devtable driver addr) ⟨addr, field m pos 2⟩ w'.host := by
  obtain ⟨_, w', hr, -⟩ := fillDevice_config driver pos w hw
  have hstays := stays_fillDevice driver addr pos w
  rw [hr] at hstays
  have henters := fillDevice_enters (χ := χ) (m := m) w.host.devtable w.host.hidDevice driver addr
    pos
  exact ⟨w', hr, hstays, (henters.ok w () w' ⟨hw.1, rfl, rfl⟩ hr).2⟩

/-- A record of the HID drivers is changed. -/
theorem setEpRecord_entered {T : BYTE → DevRecord} {d : HidDevice} (hw : Tables T d w.host)
    (hT : (T addr).epinfo = some .hidEp) (f : EpRecord → EpRecord) :
    ∃ w', setEpRecord addr 1 f w = .ok () w' ∧ Stays w w' ∧ Tables T d w'.host := by
  have htable : (w.host.devtable addr).epinfo = some .hidEp := by rw [hw.1, hT]
  refine ⟨_, setEpRecord_run htable (by decide), ⟨rfl, rfl, ?_⟩, hw⟩
  exact ⟨[.host (w.host.setEp .hidEp 1 f), .access addr 1], rfl⟩

variable [Platform χ]

/-- The requests that make the device ready. -/
def configure (fuel : Fuel) (addr confvalue interface : BYTE) : Prog χ Bool := do
  let rcode ← xferSetConf fuel addr 0 confvalue
  if rcode ≠ 0 then return false
  else
    let rcode ← xferSetProto fuel addr 0 interface bootProtocol
    if rcode ≠ 0 then return false else return true

/-- Once the endpoint is recorded the device is made ready. -/
theorem fillEndpoint_run {T : BYTE → DevRecord} {d : HidDevice} (hm : w.mem .bigbuf = m)
    (hw : Tables T d w.host) (hT : (T addr).epinfo = some .hidEp) (fuel : Fuel)
    (confvalue : BYTE) (pos : ℕ) :
    ∃ w', Stays w w' ∧ Event.load (descr pos 6) ∈ since w.log w'.log ∧
      fillEndpoint fuel addr confvalue pos w = configure fuel addr confvalue d.interface w' := by
  have hset {w : World χ} (f : EpRecord → EpRecord) (hw : Tables T d w.host) :=
    setEpRecord_entered hw hT f
  obtain ⟨w₁, h₁, s₁⟩ := looked_field hm pos 2
  obtain ⟨w₂, h₂, s₂, t₂⟩ := hset (fun r => { r with epAddr := field m pos 2 }) (s₁.host ▸ hw)
  have s₂ := s₁.stays.trans s₂
  obtain ⟨w₃, h₃, s₃⟩ := looked_field (s₂.mem ▸ hm) pos 3
  obtain ⟨w₄, h₄, s₄, t₄⟩ := hset (fun r => { r with attr := field m pos 3 }) (s₃.host ▸ t₂)
  have s₄ := s₂.trans (s₃.stays.trans s₄)
  obtain ⟨w₅, h₅, s₅⟩ := looked_word (s₄.mem ▸ hm) pos 4
  obtain ⟨w₆, h₆, s₆, t₆⟩ := hset (fun r => { r with maxPktSize := wordRead m pos 4 })
    (s₅.host ▸ t₄)
  have s₆ := s₄.trans (s₅.stays.trans s₆)
  have h₇ : load (descr pos 6) w₆ = .ok (field m pos 6)
      { w₆ with log := .load (descr pos 6) :: w₆.log } := by
    rw [field, ← hm, ← s₆.mem]
    rfl
  obtain ⟨w₈, h₈, s₈, t₈⟩ := hset (w := { w₆ with log := .load (descr pos 6) :: w₆.log })
    (fun r => { r with interval := field m pos 6 }) t₆
  refine ⟨w₈, s₆.trans ⟨s₈.chip, s₈.mem, .trans ⟨[_], rfl⟩ s₈.grows⟩, ?_, ?_⟩
  · obtain ⟨old, hold⟩ := s₆.grows
    obtain ⟨new, hnew⟩ := s₈.grows
    have hlog : w₈.log = new ++ .load (descr pos 6) :: old ++ w.log := by
      rw [← hnew, ← hold, List.append_assoc]
      rfl
    rw [hlog, since_append]
    exact List.mem_append_right new (.head old)
  · rw [fillEndpoint, bind_of_ok h₁, bind_of_ok h₂, bind_of_ok h₃, bind_of_ok h₄, bind_of_ok h₅,
      bind_of_ok h₆, bind_of_ok h₇, bind_of_ok h₈, configure]
    cases hr : xferSetConf fuel addr 0 confvalue w₈ with
    | error e w₉ => rw [bind_of_error hr, bind_of_error hr]
    | ok rcode w₉ =>
      -- the number of the interface is read after the first request
      have hC : Dispatches (χ := χ) fun _ =>
          Keeps (Knows (w₈.mem .bigbuf) fun h => h.hidDevice = d) (fun _ => True) :=
        dispatches_know
      have hknows : w₉.host.hidDevice = d :=
        ((hC.xferCtrlReq_none _ _ _ _ _ _ _ _ _).ok w₈ rcode w₉ ⟨rfl, t₈.2⟩ hr).2
      have hget : (getHost : Prog χ Host) w₉ = .ok w₉.host w₉ := rfl
      rw [bind_of_ok hr, bind_of_ok hr]
      split
      · rfl
      · rw [bind_of_ok hget, hknows]

/-- An interface that matches is entered, and the search for its endpoint starts behind it. -/
theorem parseInterface_run {protocol : BYTE} {pos : ℕ} (hw : Config m addr w)
    (h : IsBootInterface m protocol pos) (fuel : Fuel) (driver confvalue : BYTE) (total : WORD) :
    ∃ w', Stays w w' ∧
      Tables (entered w.host.devtable driver addr) ⟨addr, field m pos 2⟩ w'.host ∧
      parseInterface fuel driver protocol addr confvalue total pos w =
        endpointLoop fuel addr confvalue total fuel.walk (nextDescr m pos) w' := by
  obtain ⟨w₁, h₁, s₁⟩ := looked_field hw.1 pos 5
  obtain ⟨w₂, h₂, s₂⟩ := looked_field (s₁.mem ▸ hw.1) pos 6
  have s₂ := s₁.trans s₂
  obtain ⟨w₃, h₃, s₃⟩ := looked_field (s₂.mem ▸ hw.1) pos 7
  have s₃ := s₂.trans s₃
  obtain ⟨w₄, h₄, s₄, t₄⟩ := fillDevice_run ⟨s₃.mem ▸ hw.1, s₃.host ▸ hw.2⟩ driver pos
  have s₄ := s₃.stays.trans s₄
  obtain ⟨w₅, h₅, s₅⟩ := looked_field (s₄.mem ▸ hw.1) pos 0
  refine ⟨w₅, s₄.trans s₅.stays, ?_, ?_⟩
  · rw [s₅.host, ← s₃.host]
    exact t₄
  · unfold IsBootInterface at h
    rw [parseInterface, bind_of_ok h₁, bind_of_ok h₂, bind_of_ok h₃, if_pos h, bind_of_ok h₄,
      bind_of_ok h₅]
    rfl

end Enter

/-! ## The probes -/

section Probes

variable {χ : Type} [Platform χ] {fuel : Fuel} {addr : BYTE} {w : World χ}

/-- The requests take no rounds of the loops. -/
theorem readConfiguration_walk (n : ℕ) : (readConfiguration { fuel with walk := n } addr :
    Prog χ _) = readConfiguration fuel addr := rfl

/-- After the requests a probe walks. -/
theorem hidProbe_walk {total : WORD} {confvalue : BYTE} (driver protocol : BYTE)
    (hr : value? (readConfiguration fuel addr w) = some (some (total, confvalue))) (n : ℕ) :
    Config (configuration fuel addr w) addr (final (readConfiguration fuel addr w)) ∧
      hidProbe driver protocol { fuel with walk := n } addr w =
        interfaceLoop { fuel with walk := n } driver protocol addr confvalue total 0
          (final (readConfiguration fuel addr w)) := by
  have hok := eq_ok_of_value? hr
  exact ⟨⟨rfl, readConfiguration_epinfo hok⟩, bind_of_ok hok _⟩

end Probes

end TetrisFpga.Usb
