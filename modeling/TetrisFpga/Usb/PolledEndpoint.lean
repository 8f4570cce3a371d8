import TetrisFpga.Usb.FirstEndpoint
import TetrisFpga.Usb.Irq
import TetrisFpga.Usb.Main

/-!
# Which endpoint is polled

The polls name endpoint 1 to the device, whatever number the recorded endpoint has, and hand its
packet size on in a byte. The record itself is kept until the next enumeration.
-/

namespace TetrisFpga.Usb
open Program

section Tokens

variable {χ : Type} {v : BYTE}

/-- From `w` to `w'` no other token than `v` was sent. -/
def Sends (v : BYTE) (w w' : World χ) : Prop :=
  ∀ t ∈ tokens w'.log, t = v ∨ t ∈ tokens w.log

/-- The token `v` was sent. -/
def Sent (v : BYTE) (w : World χ) : Prop := v ∈ tokens w.log

theorem sends_of_log {w w' : World χ} {e : Event} (he : ∀ t ∈ e.token, t = v)
    (hlog : w'.log = e :: w.log) : Sends v w w' := by
  intro t ht
  rw [hlog, tokens, List.filterMap_cons] at ht
  cases htoken : e.token with
  | none =>
    rw [htoken] at ht
    exact .inr ht
  | some t' =>
    rw [htoken] at ht
    obtain rfl | ht := List.mem_cons.mp ht
    · exact .inl (he _ htoken)
    · exact .inr ht

/-- An event that is no token. -/
theorem sends_quiet {w w' : World χ} {e : Event} (he : e.token = none)
    (hlog : w'.log = e :: w.log) : Sends v w w' :=
  sends_of_log (fun t ht => by rw [he] at ht; cases ht) hlog

theorem closed_sends : Closed fun α (x : Prog χ α) => Moves (Sends v) x :=
  closed_moves (fun _ _ ht => .inr ht) fun h h' t ht => (h' t ht).elim .inl (h t)

theorem sends_epinfo (addr ep : BYTE) : Moves (Sends v) (epinfo addr ep : Prog χ EpTable) :=
  epinfo_mem closed_sends (fun _ _ ht => .inr ht) (fun _ _ ht => .inr ht) fun _ _ ht => .inr ht

variable [Platform χ]

theorem sends_wr {reg val : BYTE} (h : reg = rHXFR → val = v) :
    Moves (Sends v) (maxRegWr reg val : Prog χ Unit) := fun _ => by
  refine sends_of_log (fun t ht => ?_) rfl
  by_cases hreg : reg = rHXFR
  · rw [Event.token, if_pos hreg] at ht
    rw [← Option.some.inj ht]
    exact h hreg
  · rw [Event.token, if_neg hreg] at ht
    cases ht

/-- An IN transfer sends IN tokens to its endpoint only. -/
theorem receives_sends (addr ep : BYTE) :
    Receives (fun α (x : Prog χ α) => Moves (Sends (tokIN ||| ep)) x) addr ep where
  toClosed := closed_sends
  hirq _ := sends_quiet rfl rfl
  hrsl _ := sends_quiet rfl rfl
  wrHirq _ := sends_wr fun h => absurd h (by decide)
  nticks _ := sends_quiet rfl rfl
  wait _ _ ht := .inr ht
  dispatch _ _ ht := .inr ht
  launch := sends_wr fun _ => rfl
  rd _ _ := sends_quiet rfl rfl
  store _ _ _ := sends_quiet rfl rfl
  wrHctl _ := sends_wr fun h => absurd h (by decide)
  epRecord := closed_sends.bind (sends_epinfo addr ep) fun _ =>
    closed_sends.bind (fun _ _ ht => .inr ht : Moves (Sends (tokIN ||| ep)) (getHost : Prog χ Host))
      fun _ => closed_sends.pure _
  saveToggle _ := closed_sends.bind (sends_epinfo addr ep) fun _ _ =>
    sends_quiet rfl rfl
  transfer _ _ ht := .inr ht

theorem hidPoll_sends (fuel : Fuel) (buf : Ptr) :
    Moves (Sends (tokIN ||| 1)) (hidPoll fuel buf : Prog χ BYTE) :=
  hidPoll_receives (fun addr => receives_sends addr 1) (fun _ _ ht => .inr ht)
    (fun _ => sends_wr fun h => absurd h (by decide)) fuel buf

omit [Platform χ] in
theorem sent_of_log {α : Type} {x : Prog χ α}
    (hx : ∀ w, ∃ a w', x w = .ok a w' ∧ (w'.log = w.log ∨ ∃ e, w'.log = e :: w.log)) :
    Keeps (Sent v) (Sent v) x where
  ok w a w' hw hr := by
    obtain ⟨b, w₁, hr', hlog⟩ := hx w
    cases hr'.symm.trans hr
    obtain hlog | ⟨e, hlog⟩ := hlog
    · rw [Sent, hlog]
      exact hw
    · rw [Sent, hlog, tokens]
      exact ((List.sublist_cons_self e w.log).filterMap _).subset hw
  error w e w' _ hr := by
    obtain ⟨b, w₁, hr', -⟩ := hx w
    cases hr'.symm.trans hr

omit [Platform χ] in
theorem sent_epinfo (addr ep : BYTE) :
    Keeps (Sent v) (Sent v) (epinfo addr ep : Prog χ EpTable) :=
  epinfo_mem (closed_keeps (Sent v) (Sent v)) (sent_of_log fun _ => ⟨_, _, rfl, .inr ⟨_, rfl⟩⟩)
    (sent_of_log fun _ => ⟨_, _, rfl, .inl rfl⟩) (triple_throw fun _ hw => hw)

/-- What was sent stays sent. -/
theorem receives_sent (addr ep : BYTE) :
    Receives (χ := χ) (fun _ => Keeps (Sent v) (Sent v)) addr ep where
  toClosed := closed_keeps _ _
  hirq := sent_of_log fun _ => ⟨_, _, rfl, .inr ⟨_, rfl⟩⟩
  hrsl := sent_of_log fun _ => ⟨_, _, rfl, .inr ⟨_, rfl⟩⟩
  wrHirq _ := sent_of_log fun _ => ⟨_, _, rfl, .inr ⟨_, rfl⟩⟩
  nticks := sent_of_log fun _ => ⟨_, _, rfl, .inr ⟨_, rfl⟩⟩
  wait := triple_throw fun _ hw => hw
  dispatch := triple_throw fun _ hw => hw
  launch := sent_of_log fun _ => ⟨_, _, rfl, .inr ⟨_, rfl⟩⟩
  rd _ := sent_of_log fun _ => ⟨_, _, rfl, .inr ⟨_, rfl⟩⟩
  store _ _ := sent_of_log fun _ => ⟨_, _, rfl, .inr ⟨_, rfl⟩⟩
  wrHctl _ := sent_of_log fun _ => ⟨_, _, rfl, .inr ⟨_, rfl⟩⟩
  epRecord := triple_bind (sent_epinfo addr ep) fun _ => triple_bind
    (sent_of_log fun _ => ⟨_, _, rfl, .inl rfl⟩ : Keeps (Sent v) (Sent v)
        (getHost : Prog χ Host)) fun _ => triple_pure fun _ hw => hw
  saveToggle _ := triple_bind (sent_epinfo addr ep) fun _ =>
    sent_of_log fun _ => ⟨_, _, rfl, .inr ⟨_, rfl⟩⟩
  transfer := triple_throw fun _ hw => hw

/-- With fuel for one round a packet is launched. -/
theorem xferDispatchPkt_sent {fuel : Fuel} (hfuel : fuel.dispatch = 1) (token ep : BYTE) :
    Triple (fun _ => True) (xferDispatchPkt fuel token ep : Prog χ BYTE)
      (fun _ => Sent (token ||| ep)) (Sent (token ||| ep)) := by
  have hC : Waits (χ := χ) fun _ => Keeps (Sent (token ||| ep)) (Sent (token ||| ep)) :=
    (receives_sent 0 0).toWaits
  have hnow : Triple (fun _ => True) (altMs : Prog χ DWORD) (fun _ _ => True)
      (Sent (token ||| ep)) := ⟨fun _ _ _ _ _ => trivial, fun _ _ _ _ hr => by cases hr⟩
  refine triple_bind hnow fun now => ?_
  obtain ⟨rest, hrest, hround⟩ := hC.dispatchRound_eq fuel (now + usbXferTimeout) token ep (0, 0)
  rw [hfuel, forever_succ, hround]
  refine triple_bind (triple_bind (Q := fun _ => Sent (token ||| ep)) ⟨?_, ?_⟩ fun _ => hrest)
    fun r => ?_
  · intro w a w' _ hr
    cases hr
    exact List.mem_cons_self
  · intro w e w' _ hr
    cases hr
  · cases r with
    | inl counts => exact hC.dispatch
    | inr rcode => exact hC.pure rcode

theorem xferInTransfer_sent {fuel : Fuel} (hdispatch : fuel.dispatch = 1)
    (htransfer : fuel.transfer = 1) (addr ep : BYTE) (nbytes : WORD) (maxpktsize : BYTE)
    (a : Ptr × WORD) :
    Triple (fun _ => True)
      (forever .transfer (inTransferRound fuel addr ep nbytes maxpktsize) fuel.transfer a :
        Prog χ BYTE) (fun _ => Sent (tokIN ||| ep)) (Sent (tokIN ||| ep)) := by
  have hC : Receives (χ := χ) (fun _ =>
      Keeps (Sent (tokIN ||| ep)) (Sent (tokIN ||| ep))) addr ep :=
    receives_sent addr ep
  obtain ⟨rest, hrest, hround⟩ := hC.inTransferRound_eq fuel nbytes maxpktsize a
  rw [htransfer, forever_succ, hround]
  refine triple_bind (triple_bind (xferDispatchPkt_sent hdispatch tokIN ep) hrest) fun r => ?_
  cases r with
  | inl a' => exact hC.transfer
  | inr rcode => exact hC.pure rcode

end Tokens

/-! ## What happens after the probe -/

section Later

variable {χ : Type} [Platform χ] {T : BYTE → DevRecord} {d : HidDevice} {m : ℤ → BYTE} {pos : ℕ}

/-- `w'` comes after `w` without another enumeration: the task goes on to RUNNING, there are
interrupts, and the loop does what it does with a running device. -/
inductive Later (w : World χ) : World χ → Prop
  | now : Later w w
  | state {w' w'' : World χ} (s : BYTE) : Later w w' → setUsbTaskState s w' = .ok () w'' →
      Later w w''
  | interrupts {w' w'' : World χ} : Later w w' → max3421eTask w' = .ok () w'' → Later w w''
  | task {w' w'' : World χ} (fuel : Fuel) : Later w w' →
      w'.host.usbTaskState = usbStateRunning → usbTask fuel w' = .ok () w'' → Later w w''
  | running {w' w'' : World χ} (fuel : Fuel) : Later w w' → whileRunning fuel w' = .ok () w'' →
      Later w w''
  | polled {w' w'' : World χ} (fuel : Fuel) (buf : Ptr) (rcode : BYTE) : Later w w' →
      hidPoll fuel buf w' = .ok rcode w'' → Later w w''

/-- The toggles are no data of a descriptor. -/
theorem Describes.saveToggle {r : EpRecord} (h : Describes m pos r) (toggle : BYTE) :
    Describes m pos { r with rcvToggle := toggle } :=
  ⟨h.epAddr, h.attr, h.lowSize, h.interval⟩

theorem Recorded.saveToggle {h : Host} (hh : Recorded T d (Describes m pos) h) (t : EpTable)
    (ep toggle : BYTE) : Recorded T d (Describes m pos)
      (h.setEp t ep fun r => { r with rcvToggle := toggle }) := by
  refine ⟨hh.1, ?_⟩
  show Describes m pos (if EpTable.hidEp = t ∧ (1 : BYTE) = ep then
    { h.eps t ep with rcvToggle := toggle } else h.eps .hidEp 1)
  split
  · next heq =>
    rw [← heq.1, ← heq.2]
    exact hh.2.saveToggle toggle
  · exact hh.2

/-- In RUNNING the task does nothing. -/
theorem usbTask_running {p : Host → Prop} (fuel : Fuel) :
    Triple (Holds (fun _ => True) fun h => p h ∧ h.usbTaskState = usbStateRunning)
      (usbTask fuel : Prog χ Unit) (fun _ => Holds (fun _ => True) p) (Seen fun _ => True) := by
  refine triple_bind (Q := fun _ => Holds (fun _ => True) fun h =>
    p h ∧ h.usbTaskState = usbStateRunning) (triple_quiet fun _ => ⟨_, _, rfl, rfl, rfl⟩)
      fun _ => ?_
  refine triple_bind triple_getHost fun h => triple_of_imp (c := h.usbTaskState = usbStateRunning)
    (fun w hw => hw.1.2.2) fun hrun => ?_
  rw [hrun]
  refine triple_ite (fun hs => absurd hs (by decide)) fun _ =>
    triple_ite (fun hs => absurd hs (by decide)) fun _ =>
    triple_ite (fun hs => absurd hs (by decide)) fun _ =>
    triple_ite (fun hs => absurd hs (by decide)) fun _ => triple_pure fun w hw => ?_
  exact hw.mono fun h' hh => hh.1 ▸ hh.2.1

/-- The record of the endpoint is kept until the next enumeration. -/
theorem Later.recorded {w w' : World χ} (h : Later w w')
    (hw : Recorded T d (Describes m pos) w.host) : Recorded T d (Describes m pos) w'.host := by
  let p : Host → Prop := Recorded T d (Describes m pos)
  have hseen (w : World χ) : Seen (fun _ => True) w := fun _ _ => trivial
  have hassign {f : Host → Host} (hf : ∀ h, p h → p (f h)) :
      Keeps (Holds (fun _ => True) p) (Seen fun _ => True) (setHost f : Prog χ Unit) :=
    triple_setHost hf fun _ _ => trivial
  have hC (addr ep : BYTE) : Receives (χ := χ) (fun _ =>
      Keeps (Holds (fun _ => True) p) (Seen fun _ => True)) addr ep :=
    receives_hold (fun _ t ep toggle hh => hh.saveToggle t ep toggle) (fun _ _ => trivial) addr ep
  have hD : Dispatches (χ := χ) fun _ => Keeps (Holds (fun _ => True) p) (Seen fun _ => True) :=
    dispatches_hold
  have hpoll (fuel : Fuel) (buf : Ptr) := hidPoll_receives (fun addr => hC addr 1) hold_getHost
    (hD.wr rPERADDR) fuel buf
  -- each kind of step keeps what the record says of the endpoint
  induction h with
  | now => exact hw
  | state s _ hr ih =>
    have hstep : Keeps (Holds (fun _ => True) p) (Seen fun _ => True)
        (setUsbTaskState s : Prog χ Unit) := hassign fun _ hh => hh
    exact (hstep.ok _ _ _ ⟨ih, hseen _⟩ hr).1
  | interrupts _ hr ih =>
    have hstep : Triple (fun w => Holds (fun _ => True) p w ∧ ∀ r ∈ irqReads w.chip, True)
        (max3421eTask : Prog χ Unit) (fun _ => Holds (fun _ => True) p) (Seen fun _ => True) :=
      triple_max3421eTask (fun _ _ => True) (fun _ _ _ _ _ => trivial)
        (fun _ _ _ hh _ => hh) (fun _ hh => hh) fun _ _ => trivial
    exact (hstep.ok _ _ _ ⟨⟨ih, hseen _⟩, fun _ _ => trivial⟩ hr).1
  | task fuel _ hrun hr ih =>
    exact ((usbTask_running fuel).ok _ _ _ ⟨⟨ih, hrun⟩, hseen _⟩ hr).1
  | running fuel _ hr ih =>
    have hshows : Shows (χ := χ) fun _ => Keeps (Holds (fun _ => True) p) (Seen fun _ => True) :=
      { toClosed := hD.toClosed
        load := fun _ => triple_quiet fun _ => ⟨_, _, rfl, rfl, rfl⟩
        getPio := triple_quiet fun _ => ⟨_, _, rfl, rfl, rfl⟩
        setPio := fun _ _ => triple_quiet fun _ => ⟨_, _, rfl, rfl, rfl⟩ }
    have hstep := hshows.whileRunning (fun _ => triple_quiet fun _ => ⟨_, _, rfl, rfl, rfl⟩)
      hold_getHost (fun _ => triple_quiet fun _ => ⟨_, _, rfl, rfl, rfl⟩)
      (fun _ => hassign fun _ hh => hh) (fun _ => hassign fun _ hh => hh)
      (fun o => hpoll fuel ⟨o, 0⟩)
      (fun _ => (hC addr 0).xferCtrlReq hD fuel _ _ _ _ _ _ _)
      fun _ => (hC addr 0).xferCtrlReq hD fuel _ _ _ _ _ _ _
    exact (hstep.ok _ _ _ ⟨ih, hseen _⟩ hr).1
  | polled fuel buf rcode _ hr ih => exact ((hpoll fuel buf).ok _ _ _ ⟨ih, hseen _⟩ hr).1

end Later

/-! ## Where the polls go -/

section Polls

variable {χ : Type} [Platform χ]

/-- The poll sends its IN tokens to the endpoint number `ep` of the device, and is an IN transfer
with packets of `size` bytes, for which it has looked at its record. -/
structure PollsAt (poll : Fuel → Ptr → Prog χ BYTE) (ep : BYTE) (size : WORD) (w : World χ) :
    Prop where
  tokens : ∀ fuel buf, ∀ token ∈ tokens (events (poll fuel buf) w), token = tokIN ||| ep
  size : ∀ fuel buf, ∃ maxpktsize : BYTE, maxpktsize.toNat = size.toNat ∧ poll fuel buf w = (do
    maxRegWr rPERADDR w.host.hidDevice.addr
    access w.host.hidDevice.addr 1
    xferInTransfer fuel w.host.hidDevice.addr 1 8 buf maxpktsize) w

variable {T : BYTE → DevRecord} {d : HidDevice} {R : EpRecord → Prop} {w : World χ}

omit [Platform χ] in
theorem epRecord_of_hid {addr : BYTE} {w : World χ}
    (hT : (w.host.devtable addr).epinfo = some .hidEp) :
    epRecord addr 1 w = .ok (w.host.eps .hidEp 1) (w.accessed addr 1) :=
  epRecord_run hT (by decide)

/-- What a poll hands on to the transfer. -/
theorem hidPoll_run (hw : Recorded T d R w.host) (hT : (T d.addr).epinfo = some .hidEp)
    (fuel : Fuel) (buf : Ptr) : hidPoll fuel buf w = (do
      maxRegWr rPERADDR w.host.hidDevice.addr
      access w.host.hidDevice.addr 1
      xferInTransfer fuel w.host.hidDevice.addr 1 8 buf
        ((w.host.eps .hidEp 1).maxPktSize.setWidth 8)) w := by
  obtain ⟨⟨rfl, rfl⟩, -⟩ := hw
  have hget (w : World χ) : (getHost : Prog χ Host) w = .ok w.host w := rfl
  let w₁ : World χ := final ((maxRegWr rPERADDR w.host.hidDevice.addr : Prog χ Unit) w)
  have hwr : (maxRegWr rPERADDR w.host.hidDevice.addr : Prog χ Unit) w = .ok () w₁ := rfl
  have hrecord : epRecord w.host.hidDevice.addr 1 w₁ =
      .ok (w.host.eps .hidEp 1) (w₁.accessed w.host.hidDevice.addr 1) := epRecord_of_hid hT
  rw [hidPoll, bind_of_ok (hget w), bind_of_ok hwr, bind_of_ok (hget _), bind_of_ok hwr,
    bind_of_ok (access_run w.host.hidDevice.addr 1 w₁)]
  exact (bind_of_ok hrecord _).trans (bind_of_ok (hget _) _)

theorem hidPoll_sent (hw : Recorded T d R w.host) (hT : (T d.addr).epinfo = some .hidEp)
    {fuel : Fuel} (hdispatch : fuel.dispatch = 1) (htransfer : fuel.transfer = 1) (buf : Ptr) :
    Sent (tokIN ||| 1) (final (hidPoll fuel buf w)) := by
  rw [hidPoll_run hw hT]
  obtain ⟨⟨rfl, rfl⟩, -⟩ := hw
  have hwr (reg val : BYTE) (w : World χ) : (maxRegWr reg val : Prog χ Unit) w =
      .ok () (final ((maxRegWr reg val : Prog χ Unit) w)) := rfl
  have hrecord : epRecord w.host.hidDevice.addr 1
      ((final ((maxRegWr rPERADDR w.host.hidDevice.addr : Prog χ Unit) w)).accessed
        w.host.hidDevice.addr 1) = .ok (w.host.eps .hidEp 1) _ := epRecord_of_hid hT
  rw [bind_of_ok (hwr _ _ _), bind_of_ok (access_run _ _ _), xferInTransfer,
    bind_of_ok hrecord, bind_of_ok (hwr _ _ _)]
  exact (xferInTransfer_sent hdispatch htransfer _ 1 _ _ _).final trivial

/-- The poll goes to the endpoint 1, and its packets have a size of which the record has the low
byte if that size fits a byte. -/
theorem hidPoll_pollsAt_iff (hw : Recorded T d R w.host) (hT : (T d.addr).epinfo = some .hidEp)
    (ep : BYTE) {size : WORD}
    (hlow : ((w.host.eps .hidEp 1).maxPktSize.setWidth 8 : BYTE) = size.setWidth 8) :
    PollsAt hidPoll ep size w ↔ ep = 1 ∧ size.toNat < 256 := by
  constructor
  · intro h
    constructor
    · let start : World χ := { w with log := [] }
      have hstart : Recorded T d R start.host := hw
      have hsent : Sent (tokIN ||| 1)
          (final (hidPoll ⟨0, 1, 1, 0, 0⟩ ⟨.kbdbuf, 0⟩ start)) :=
        hidPoll_sent hstart hT rfl rfl ⟨.kbdbuf, 0⟩
      have hsame := h.tokens ⟨0, 1, 1, 0, 0⟩ ⟨.kbdbuf, 0⟩ _ hsent
      exact ((by decide : ∀ e : BYTE, tokIN ||| 1 = tokIN ||| e → e = 1) ep hsame)
    · obtain ⟨maxpktsize, hsize, -⟩ := h.size ⟨0, 0, 0, 0, 0⟩ ⟨.kbdbuf, 0⟩
      rw [← hsize]
      exact maxpktsize.isLt
  · rintro ⟨rfl, hsize⟩
    refine ⟨fun fuel buf token htoken => ?_, fun fuel buf => ⟨_, ?_, hidPoll_run hw hT fuel buf⟩⟩
    · exact (hidPoll_sends fuel buf { w with log := [] } token htoken).resolve_right
        List.not_mem_nil
    · rw [hlow, BitVec.toNat_setWidth]
      exact Nat.mod_eq_of_lt hsize

/-! ## The probe and the polls -/

variable {driver protocol : BYTE} {fuel : Fuel} {addr : BYTE}

/-- The probe has recorded the endpoint descriptor at `pos` in `epinfo[1]`. -/
def RecordsAt (protocol : BYTE) (probe : Fuel → BYTE → Prog χ Bool) (fuel : Fuel) (addr : BYTE)
    (w : World χ) (pos : ℕ) : Prop :=
  (∃ total pos₀, Matched protocol fuel addr w total pos₀ ∧
    FindsEndpoint (configuration fuel addr w) total.toNat
      (nextDescr (configuration fuel addr w) pos₀) pos) ∧
  ∃ r, value? (epRecord addr 1 (final (probe fuel addr w))) = some r ∧
    Describes (configuration fuel addr w) pos r

/-- Every later poll goes to the endpoint of the descriptor at `pos`, with its packet size. -/
def PollsDescr (probe : Fuel → BYTE → Prog χ Bool) (poll : Fuel → Ptr → Prog χ BYTE) (fuel : Fuel)
    (addr : BYTE) (w : World χ) (pos : ℕ) : Prop :=
  ∀ w', Later (final (probe fuel addr w)) w' →
    PollsAt poll (field (configuration fuel addr w) pos 2 &&& 0x0f)
      (wordField (configuration fuel addr w) pos 4) w'

theorem hidProbe_polls_iff (hr : value? (hidProbe driver protocol fuel addr w) = some true) :
    ∃ pos, RecordsAt protocol (hidProbe driver protocol) fuel addr w pos ∧
      (PollsDescr (hidProbe driver protocol) hidPoll fuel addr w pos ↔
        field (configuration fuel addr w) pos 2 &&& 0x0f = 1 ∧
          (wordField (configuration fuel addr w) pos 4).toNat < 256) := by
  have hok := eq_ok_of_value? hr
  unfold PollsDescr
  generalize hfinal : final (hidProbe driver protocol fuel addr w) = w₁ at hok
  obtain ⟨total, pos₀, pos, hmatched, htables, hfinds, hdescr⟩ := hidProbe_true hok
  have hrecord := hidProbe_epRecord hok
  have hdescr := hdescr.toDescribes
  refine ⟨pos, ⟨⟨total, pos₀, hmatched, hfinds⟩, _, ?_, hdescr⟩, ?_⟩
  · rw [hfinal, hrecord]
    rfl
  have hT : (entered w.host.devtable driver addr addr).epinfo = some .hidEp := by simp [entered]
  have hlater {w' : World χ} (h : Later w₁ w') := h.recorded ⟨htables, hdescr⟩
  constructor
  · intro h
    exact (hidPoll_pollsAt_iff ⟨htables, hdescr⟩ hT _ hdescr.lowSize_eq).mp (h w₁ .now)
  · intro hcond w' h
    have hw' := hlater h
    exact (hidPoll_pollsAt_iff hw' hT _ hw'.2.lowSize_eq).mpr hcond

end Polls

/-! ## Keyboards with other endpoints -/

/-- A keyboard with one interrupt IN endpoint. -/
def keyboardWith (bEndpointAddress : BYTE) (wMaxPacketSize : WORD) : List BYTE :=
  keyboardConfiguration.take 20 ++ [bEndpointAddress, 3, wMaxPacketSize.setWidth 8,
    wMaxPacketSize.extractLsb' 8 8, 10]

/-- The endpoint descriptor of these keyboards is the third descriptor. -/
theorem recordsAt_eighteen {configuration : List BYTE} {pos : ℕ}
    (h : RecordsAt hidProtocolKeyboard hidkProbe ⟨9, 9, 9, 9, 9⟩ 1 (keyboardReplies configuration)
      pos) (hmatched : Matched hidProtocolKeyboard ⟨9, 9, 9, 9, 9⟩ 1
      (keyboardReplies configuration) 25 9)
    (hlength : field (Usb.configuration ⟨9, 9, 9, 9, 9⟩ 1 (keyboardReplies configuration)) 9 0 = 9)
    (hkind : field (Usb.configuration ⟨9, 9, 9, 9, 9⟩ 1 (keyboardReplies configuration)) 18 1 =
      usbDescriptorEndpoint) : pos = 18 := by
  obtain ⟨⟨total, pos₀, hmatched', hfinds⟩, -⟩ := h
  obtain ⟨rfl, rfl⟩ := hmatched.unique hmatched'
  rw [nextDescr, hlength] at hfinds
  exact hfinds.eq ⟨.refl _, by decide, hkind⟩

/-- A keyboard whose descriptor is not of the endpoint 1 or has bigger packets is not polled
by it. -/
theorem not_pollsDescr {configuration : List BYTE}
    (h : value? (hidkProbe ⟨9, 9, 9, 9, 9⟩ 1 (keyboardReplies configuration)) = some true)
    (hmatched : Matched hidProtocolKeyboard ⟨9, 9, 9, 9, 9⟩ 1
      (keyboardReplies configuration) 25 9)
    (hlength : field (Usb.configuration ⟨9, 9, 9, 9, 9⟩ 1 (keyboardReplies configuration)) 9 0 = 9)
    (hkind : field (Usb.configuration ⟨9, 9, 9, 9, 9⟩ 1 (keyboardReplies configuration)) 18 1 =
      usbDescriptorEndpoint)
    (hnot : ¬(field (Usb.configuration ⟨9, 9, 9, 9, 9⟩ 1 (keyboardReplies configuration)) 18 2 &&&
        0x0f = 1 ∧
      (wordField (Usb.configuration ⟨9, 9, 9, 9, 9⟩ 1 (keyboardReplies configuration)) 18 4).toNat <
        256)) :
    ∃ pos, RecordsAt hidProtocolKeyboard hidkProbe ⟨9, 9, 9, 9, 9⟩ 1
        (keyboardReplies configuration) pos ∧
      ¬PollsDescr hidkProbe kbdPoll ⟨9, 9, 9, 9, 9⟩ 1 (keyboardReplies configuration) pos := by
  obtain ⟨pos, hrecords, hiff⟩ := hidProbe_polls_iff h
  refine ⟨pos, hrecords, fun hpolls => hnot ?_⟩
  obtain rfl := recordsAt_eighteen hrecords hmatched hlength hkind
  exact hiff.mp hpolls

end TetrisFpga.Usb
