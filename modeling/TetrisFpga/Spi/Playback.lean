import Mathlib.Data.List.Forall2
import Mathlib.Data.List.Induction
import TetrisFpga.Spi.Calls
import TetrisFpga.Usb.World

/-!
# The USB host over the wires

The model of the USB host takes the registers of the chip as they are: an access is one event,
and a burst is an access for each byte. Every run over the wires is such a run, on a chip that
answers what the wires have brought: the frames carry its accesses in order, and its memory and
its values are the same.

## Main results

- `maxRegRd_plays`, `maxRegWr_plays`, `maxBytesRd_plays`, `maxBytesWr_plays`: each function
- `calls_play`: any calls from power-up on
-/

namespace TetrisFpga.Spi
open Program
open Usb (BYTE Event Obj Ptr Script)

/-! ## The two sides -/

/-- The pointer in the model of the USB host. -/
def Pointer.usb (p : Pointer Obj) : Ptr := ⟨p.obj, p.off⟩

/-- The objects of the callers. -/
def Memory.caller {ω : Type} (m : Memory ω) : ω → ℤ → BYTE := fun o k => m (.caller o) k

theorem Memory.caller_set (m : Memory Obj) (p : Pointer Obj) (b : BYTE) :
    (m.set p.cell b).caller = fun o k => if o = p.obj ∧ k = p.off then b else m.caller o k := by
  funext o k
  simp [caller, set, Pointer.cell]

/-- A local is not an object of the callers. -/
theorem Memory.caller_set_local (m : Memory Obj) {c : Cell Obj} (hc : ∀ o, .caller o ≠ c)
    (b : BYTE) : (m.set c.ptr b).caller = m.caller := by
  funext o k
  exact set_apart (p := c.ptr) (hc o) m b k

/-- The bytes that `MAXbytes_wr` sends, the last one apart. -/
def burst (mem : Obj → ℤ → BYTE) (nbytes : BYTE) (data : Pointer Obj) : List BYTE :=
  ((List.range (nbytes.toNat - 1)).map fun i : ℕ => mem data.obj (data.off + i)) ++
    [mem data.obj (data.off + (nbytes.toNat - 1))]

/-- `MAXbytes_wr` in the model of the USB host, with the bytes that are at `data`. -/
def usbBytesWr (reg nbytes : BYTE) (data : Pointer Obj) : Usb.Prog Script Ptr := fun u =>
  (do
    Usb.maxBytesWr reg (burst u.mem nbytes data)
    return (data.add nbytes.toNat).usb : Usb.Prog Script Ptr) u

/-- The call in the model of the USB host. -/
def Call.usb : Call Obj → Usb.Prog Script Unit
  | .regWr reg val => Usb.maxRegWr reg val
  | .bytesWr reg nbytes data => do let _ ← usbBytesWr reg nbytes data
  | .regRd reg => do let _ ← Usb.maxRegRd reg
  | .bytesRd reg nbytes data => do let _ ← Usb.maxBytesRd reg nbytes data.usb
  | .assign p val => Usb.store p.usb val

/-- An access to a register. -/
def isAccess : Event → Bool
  | .rd .. => true
  | .wr .. => true
  | _ => false

/-- The accesses of a run, in order. -/
def accesses (log : List Event) : List Event := (log.filter isAccess).reverse

theorem accesses_cons {e : Event} (he : isAccess e = true) (log : List Event) :
    accesses (e :: log) = accesses log ++ [e] := by
  rw [accesses, List.filter_cons_of_pos he, List.reverse_cons]
  rfl

theorem accesses_cons_of_not {e : Event} (he : isAccess e = false) (log : List Event) :
    accesses (e :: log) = accesses log := by
  rw [accesses, List.filter_cons_of_neg (by rw [he]; decide)]
  rfl

/-- A frame carries accesses to one register. -/
inductive Carries : List WireBit → List Event → Prop
  | rd (reg status : BYTE) (bytes : List BYTE) :
    Carries (wire ((reg, status) :: bytes.map (Prod.mk 0))) (bytes.map (Event.rd reg))
  | wr (reg status : BYTE) (bytes replies : List BYTE) (h : bytes.length = replies.length) :
    Carries (wire ((reg + 2, status) :: bytes.zip replies)) (bytes.map (Event.wr reg))

/-! ## The USB host on what the wires have brought -/

section Heard

variable {u : Usb.World Script} {rest : List BYTE}

theorem usbRd_heard {b : BYTE} (h : u.chip.answers = b :: rest) (reg : BYTE) :
    ∃ u', Usb.maxRegRd reg u = .ok b u' ∧ u'.chip.answers = rest ∧ u'.mem = u.mem ∧
      accesses u'.log = accesses u.log ++ [.rd reg b] := by
  have hval : (Usb.Platform.rd u.chip reg).1 = b := congrArg (List.headD · 0) h
  refine ⟨u.afterRd reg, ?_, congrArg List.tail h, rfl, ?_⟩
  · rw [Usb.maxRegRd_run, hval]
  · rw [← hval]
    exact accesses_cons rfl u.log

theorem usbRdByte_heard {b : BYTE} (h : u.chip.answers = b :: rest) (reg : BYTE) (p : Ptr) :
    ∃ u', Usb.rdByte reg p u = .ok () u' ∧ u'.chip.answers = rest ∧
      (u'.mem = fun o k => if o = p.obj ∧ k = p.off then b else u.mem o k) ∧
      accesses u'.log = accesses u.log ++ [.rd reg b] := by
  obtain ⟨u', hrun, hrest, hmem, hlog⟩ := usbRd_heard h reg
  refine ⟨_, bind_of_ok hrun _, hrest, ?_, ?_⟩
  · rw [← hmem]
  · exact (accesses_cons_of_not rfl u'.log).trans hlog

/-- The reads of a burst. -/
theorem usbRdBytes_heard {m : Memory Obj} (hmem : u.mem = m.caller) (reg : BYTE)
    (data : Pointer Obj) {got : List BYTE} (h : u.chip.answers = got ++ rest) :
    ∃ u', ((List.range got.length).forM fun i => Usb.rdByte reg (data.usb.add i)) u = .ok () u' ∧
      u'.chip.answers = rest ∧ u'.mem = (m.put data.cell got).caller ∧
      accesses u'.log = accesses u.log ++ got.map (.rd reg) := by
  induction got using List.reverseRecOn generalizing rest with
  | nil => exact ⟨u, rfl, h, by rw [Memory.put_nil, hmem], (List.append_nil _).symm⟩
  | append_singleton got b ih =>
    rw [List.append_assoc] at h
    obtain ⟨u₁, hrun₁, hrest₁, hmem₁, hlog₁⟩ := ih h
    obtain ⟨u₂, hrun₂, hrest₂, hmem₂, hlog₂⟩ :=
      usbRdByte_heard hrest₁ reg (data.usb.add got.length)
    refine ⟨u₂, ?_, hrest₂, ?_, ?_⟩
    · rw [List.length_append, List.length_singleton, List.range_succ, List.forM_eq_forM,
        List.forM_append]
      exact (bind_of_ok hrun₁ _).trans (bind_of_ok hrun₂ _)
    · rw [hmem₂, hmem₁, ← Memory.put_concat]
      exact (Memory.caller_set _ (data.add got.length) b).symm
    · rw [hlog₂, hlog₁, List.map_append, List.append_assoc]
      rfl

theorem usbBytesRd_heard {m : Memory Obj} (hmem : u.mem = m.caller) (reg nbytes : BYTE)
    (data : Pointer Obj) {got : List BYTE} (hlen : got.length = nbytes.toNat - 1) {last : BYTE}
    (h : u.chip.answers = got ++ last :: rest) :
    ∃ u', Usb.maxBytesRd reg nbytes data.usb u = .ok (data.add nbytes.toNat).usb u' ∧
      u'.chip.answers = rest ∧
      u'.mem = ((m.put data.cell got).set (data.add (nbytes.toNat - 1)).cell last).caller ∧
      accesses u'.log = accesses u.log ++ (got ++ [last]).map (.rd reg) := by
  obtain ⟨u₁, hrun₁, hrest₁, hmem₁, hlog₁⟩ := usbRdBytes_heard hmem reg data h
  obtain ⟨u₂, hrun₂, hrest₂, hmem₂, hlog₂⟩ :=
    usbRdByte_heard hrest₁ reg (data.usb.add (nbytes.toNat - 1))
  rw [hlen] at hrun₁
  refine ⟨u₂, (bind_of_ok hrun₁ _).trans (bind_of_ok hrun₂ _), hrest₂, ?_, ?_⟩
  · rw [hmem₂, hmem₁]
    exact (Memory.caller_set _ (data.add (nbytes.toNat - 1)) last).symm
  · rw [hlog₂, hlog₁, List.map_append, List.append_assoc]
    rfl

variable (u) in
/-- The writes of a burst. -/
theorem usbBytesWr_heard (reg : BYTE) (data : List BYTE) :
    ∃ u', Usb.maxBytesWr reg data u = .ok () u' ∧ u'.chip.answers = u.chip.answers ∧
      u'.mem = u.mem ∧ accesses u'.log = accesses u.log ++ data.map (.wr reg) := by
  induction data generalizing u with
  | nil => exact ⟨u, rfl, rfl, rfl, (List.append_nil _).symm⟩
  | cons b data ih =>
    obtain ⟨u', hrun, hrest, hmem, hlog⟩ := ih { u with
      chip := Usb.Platform.wr u.chip reg b
      log := .wr reg b :: u.log }
    refine ⟨u', hrun, hrest, hmem, ?_⟩
    rw [hlog, accesses_cons rfl, List.append_assoc]
    rfl

end Heard

/-! ## Both sides together -/

section Plays

variable {σ : Type} {u u' : Usb.World Script} {w w' : World σ Obj}

/-- The same memory, and the accesses that the frames carry. -/
structure Same (u : Usb.World Script) (w : World σ Obj) : Prop where
  mem : u.mem = w.mem.caller
  accesses : ∃ es, List.Forall₂ Carries w.bus.line.frames es ∧ accesses u.log = es.flatten

/-- One more frame. -/
theorem Same.carry (h : Same u w) {f : List WireBit} {es : List Event} (hf : Carries f es)
    (hframes : w'.bus.line.frames = w.bus.line.frames ++ [f]) (hmem : u'.mem = w'.mem.caller)
    (hlog : Spi.accesses u'.log = Spi.accesses u.log ++ es) : Same u' w' := by
  obtain ⟨ess, hess, haccesses⟩ := h.accesses
  refine ⟨hmem, ess ++ [es], ?_, ?_⟩
  · rw [hframes]
    exact List.rel_append hess (.cons hf .nil)
  · rw [hlog, haccesses, List.flatten_append, List.flatten_singleton]

/-- Over the wires `x` does what `y` does in the model of the USB host, with a chip that answers
what `x` has heard; the values are in `R`. -/
def Plays {α β : Type} (R : α → β → Prop) (x : Prog σ Obj α) (y : Usb.Prog Script β) : Prop :=
  ∀ w, (∃ r, Idle r w) → ∃ a w', x w = .ok a w' ∧ (∃ r, Idle r w') ∧ ∃ heard : List BYTE,
    ∀ u rest, Same u w → u.chip.answers = heard ++ rest → ∃ b u', y u = .ok b u' ∧ R a b ∧
      u'.chip.answers = rest ∧ Same u' w'

theorem Plays.drop {α β : Type} {R : α → β → Prop} {x : Prog σ Obj α} {y : Usb.Prog Script β}
    (h : Plays R x y) :
    Plays (fun _ _ => True) (do let _ ← x : Prog σ Obj Unit) (do let _ ← y) := by
  intro w hw
  obtain ⟨a, w', hrun, hw', heard, hheard⟩ := h w hw
  refine ⟨(), w', bind_of_ok hrun _, hw', heard, fun u rest hu hanswers => ?_⟩
  obtain ⟨b, u', hrun', -, hrest, hsame⟩ := hheard u rest hu hanswers
  exact ⟨(), u', bind_of_ok hrun' _, trivial, hrest, hsame⟩

/-- What is heard in a loop is what its rounds have heard, one after another. -/
theorem plays_forM {α : Type} {f : α → Prog σ Obj Unit} {g : α → Usb.Prog Script Unit}
    (h : ∀ a, Plays (fun _ _ => True) (f a) (g a)) (as : List α) :
    Plays (fun _ _ => True) (as.forM f) (as.forM g) := by
  induction as with
  | nil => exact fun w hw => ⟨(), w, rfl, hw, [], fun u rest hu hrest => ⟨(), u, rfl, trivial,
      hrest, hu⟩⟩
  | cons a as ih =>
    intro w hw
    obtain ⟨_, w₁, hrun₁, hw₁, heard₁, h₁⟩ := h a w hw
    obtain ⟨_, w₂, hrun₂, hw₂, heard₂, h₂⟩ := ih w₁ hw₁
    refine ⟨(), w₂, (bind_of_ok hrun₁ _).trans hrun₂, hw₂, heard₁ ++ heard₂,
      fun u rest hu hanswers => ?_⟩
    -- The first round leaves the answers that the others are to hear.
    rw [List.append_assoc] at hanswers
    obtain ⟨_, u₁, hrun₁', -, hrest₁, hsame₁⟩ := h₁ u _ hu hanswers
    obtain ⟨_, u₂, hrun₂', -, hrest₂, hsame₂⟩ := h₂ u₁ rest hsame₁ hrest₁
    exact ⟨(), u₂, (bind_of_ok hrun₁' _).trans hrun₂', trivial, hrest₂, hsame₂⟩

variable [Board σ] {fuel : ℕ}

theorem reg_local (o : Obj) : Cell.caller o ≠ .reg := by simp

theorem regPlusTwo_local (o : Obj) : Cell.caller o ≠ .regPlusTwo := by simp

theorem val_local (o : Obj) : Cell.caller o ≠ .val := by simp

theorem maxRegWr_plays (hfuel : 91 < fuel) (reg val : BYTE) :
    Plays (fun _ _ => True) (maxRegWr fuel reg val : Prog σ Obj Unit) (Usb.maxRegWr reg val) := by
  rintro w ⟨r, h⟩
  obtain ⟨_, w', hrun, status, got, bits, hw'⟩ := maxRegWr_run hfuel reg val w h
  refine ⟨(), w', hrun, ⟨_, hw'⟩, [], fun u rest hu hanswers => ⟨(), _, rfl, trivial, hanswers, ?_⟩⟩
  have hcarries : Carries (wire [(reg + 2, status), (val, got)]) [.wr reg val] :=
    .wr reg status [val] [got] rfl
  refine hu.carry hcarries ?_ ?_ (accesses_cons rfl u.log)
  · rw [hw'.frames, h.frames]
  · rw [hw'.mem, Memory.caller_set_local _ regPlusTwo_local, Memory.caller_set_local _ val_local,
      Memory.caller_set_local _ reg_local, ← h.mem]
    exact hu.mem

theorem maxRegRd_plays (hfuel : 91 < fuel) (reg : BYTE) :
    Plays Eq (maxRegRd fuel reg : Prog σ Obj BYTE) (Usb.maxRegRd reg) := by
  rintro w ⟨r, h⟩
  obtain ⟨val, w', hrun, status, bits, hw'⟩ := maxRegRd_run hfuel reg w h
  refine ⟨val, w', hrun, ⟨_, hw'⟩, [val], fun u rest hu hanswers => ?_⟩
  obtain ⟨u', hrun', hrest, hmem, hlog⟩ := usbRd_heard hanswers reg
  refine ⟨val, u', hrun', rfl, hrest, hu.carry (.rd reg status [val]) ?_ ?_ hlog⟩
  · rw [hw'.frames, h.frames]
    rfl
  · rw [hw'.mem, Memory.caller_set_local _ val_local, Memory.caller_set_local _ val_local,
      Memory.caller_set_local _ reg_local, ← h.mem, hmem]
    exact hu.mem

/-- A burst of no bytes included. -/
theorem maxBytesRd_plays (hfuel : 91 < fuel) (reg nbytes : BYTE) (data : Pointer Obj) :
    Plays (fun p q => q = p.usb) (maxBytesRd fuel reg nbytes data : Prog σ Obj (Pointer Obj))
      (Usb.maxBytesRd reg nbytes data.usb) := by
  rintro w ⟨r, h⟩
  obtain ⟨p, w', hrun, rfl, status, got, last, hlen, bits, hw'⟩ :=
    maxBytesRd_run hfuel reg nbytes data w h
  refine ⟨_, w', hrun, ⟨_, hw'⟩, got ++ [last], fun u rest hu hanswers => ?_⟩
  rw [List.append_assoc] at hanswers
  have hbefore : u.mem = (r.mem.set Cell.reg.ptr reg).caller := by
    rw [Memory.caller_set_local _ reg_local, ← h.mem, hu.mem]
  obtain ⟨u', hrun', hrest, hmem, hlog⟩ := usbBytesRd_heard hbefore reg nbytes data hlen hanswers
  refine ⟨_, u', hrun', rfl, hrest, hu.carry (.rd reg status (got ++ [last])) ?_ ?_ hlog⟩
  · rw [hw'.frames, h.frames, List.map_append]
    rfl
  · rw [hmem, hw'.mem]

theorem maxBytesWr_plays (hfuel : 91 < fuel) (reg nbytes : BYTE) (data : Pointer Obj) :
    Plays (fun p q => q = p.usb) (maxBytesWr fuel reg nbytes data : Prog σ Obj (Pointer Obj))
      (usbBytesWr reg nbytes data) := by
  rintro w ⟨r, h⟩
  obtain ⟨p, w', hrun, rfl, status, got, last, hlen, bits, hw'⟩ :=
    maxBytesWr_run hfuel reg nbytes data w h
  refine ⟨_, w', hrun, ⟨_, hw'⟩, [], fun u rest hu hanswers => ?_⟩
  obtain ⟨u', hrun', hrest, hmem, hlog⟩ := usbBytesWr_heard u reg (burst u.mem nbytes data)
  have hburst : burst u.mem nbytes data = r.mem.bytes data.cell (nbytes.toNat - 1) ++
      [r.mem data.cell.obj (data.off + (nbytes.toNat - 1))] := by
    rw [hu.mem, h.mem]
    rfl
  have hlengths : (r.mem.bytes data.cell (nbytes.toNat - 1)).length = got.length := by
    rw [Memory.length_bytes, hlen]
  have hcarries : (burst u.mem nbytes data).length = (got ++ [last]).length := by
    rw [hburst, List.length_append, List.length_append, hlengths]
    rfl
  refine ⟨_, u', bind_of_ok hrun' _, rfl, hrest.trans hanswers,
    hu.carry (.wr reg status _ _ hcarries) ?_ ?_ hlog⟩
  · rw [hw'.frames, h.frames, hburst, List.zip_append hlengths]
    rfl
  · rw [hw'.mem, Memory.caller_set_local _ regPlusTwo_local, Memory.caller_set_local _ reg_local,
      ← h.mem, hmem]
    exact hu.mem

omit [Board σ] in
theorem store_plays (p : Pointer Obj) (val : BYTE) :
    Plays (fun _ _ => True) (store p.cell val : Prog σ Obj Unit) (Usb.store p.usb val) := by
  rintro w ⟨r, h⟩
  obtain ⟨_, w', hrun, hw'⟩ := idle_store p.cell val w h
  refine ⟨(), w', hrun, ⟨_, hw'⟩, [], fun u rest hu hanswers => ⟨(), _, rfl, trivial, hanswers, ?_⟩⟩
  obtain ⟨es, hes, haccesses⟩ := hu.accesses
  refine ⟨?_, es, ?_, (accesses_cons_of_not rfl u.log).trans haccesses⟩
  · rw [hw'.mem, Memory.caller_set, ← h.mem, ← hu.mem]
    rfl
  · rw [hw'.frames, ← h.frames]
    exact hes

/-! ## Runs -/

/-- A call over the wires is the call of the USB host's model. -/
theorem perform_plays (hfuel : 91 < fuel) (call : Call Obj) :
    Plays (fun _ _ => True) (call.perform fuel : Prog σ Obj Unit) call.usb := by
  cases call with
  | regWr reg val => exact maxRegWr_plays hfuel reg val
  | bytesWr reg nbytes data =>
    refine .drop (?_ : Plays (fun p q => q = p.usb) _ _)
    exact maxBytesWr_plays hfuel reg nbytes data
  | regRd reg =>
    refine .drop (?_ : Plays Eq _ _)
    exact maxRegRd_plays hfuel reg
  | bytesRd reg nbytes data =>
    refine .drop (?_ : Plays (fun p q => q = p.usb) _ _)
    exact maxBytesRd_plays hfuel reg nbytes data
  | assign p val => exact store_plays p val

/-- Whatever the chip does on the wires, any calls from power-up on leave what they leave in the
model of the USB host with a chip that gives some answers, and make the same accesses. -/
theorem calls_play (chip : σ) (mem : Memory Obj) (calls : List (Call Obj)) :
    ∃ heard : List BYTE, ∀ u : Usb.World Script, u.mem = mem.caller → u.log = [] →
      u.chip.answers = heard → ∃ u', calls.forM Call.usb u = .ok () u' ∧
        Same u' (afterCalls chip mem calls) := by
  have hplays : Plays (fun _ _ => True) (calls.forM (Call.perform enough) : Prog σ Obj Unit)
      (calls.forM Call.usb) := plays_forM (perform_plays (by decide)) calls
  obtain ⟨_, w, hrun, -, heard, hheard⟩ := hplays (powerUp chip mem) (idle_powerUp chip mem)
  refine ⟨heard, fun u hmem hlog hanswers => ?_⟩
  obtain ⟨_, u', hrun', -, -, hsame⟩ := hheard u [] ⟨hmem, [], .nil, by rw [hlog]; rfl⟩
    (by rw [hanswers, List.append_nil])
  rw [afterCalls, hrun]
  exact ⟨u', hrun', hsame⟩

end Plays

end TetrisFpga.Spi
