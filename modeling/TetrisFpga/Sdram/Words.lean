import TetrisFpga.Machine.Trace
import TetrisFpga.Sdram.Motion

/-!
# The words of a transaction

A transaction of `Sdram_Control` fetches or delivers as many words as it announces, and reports
its end once: for every length, for acknowledges that come at any time, and after any run of
other transactions.
-/

namespace TetrisFpga.Sdram
open Machine

/-! ## A transaction as a course of motions -/

namespace Motion

variable {len : ℕ} {o : Op}

/-- One edge at which nothing is started. -/
def turn (len : ℕ) (m : Motion) (ack : Bool) : Motion := m.next len ack none

/-- What comes after the last word. -/
def report : Op → List Motion
  | .write => []
  | .read => [reported]

/-- The motions from `m` on are those of a transaction that ends with the last of them. -/
def Ends (len : ℕ) (m : Motion) (acks : List Bool) : Prop :=
  (∀ n ∈ states (turn len) m acks, n ≠ idle) ∧ run (turn len) m acks = idle

theorem Ends.states_idle {acks : List Bool} (h : Ends len idle acks) :
    states (turn len) idle acks = [] := by
  cases acks with
  | nil => rfl
  | cons ack acks => exact absurd rfl (h.1 idle List.mem_cons_self)

theorem Ends.next {m : Motion} {acks : List Bool} (h : Ends len m acks) (hm : m ≠ idle) :
    ∃ ack rest, acks = ack :: rest ∧ Ends len (m.turn len ack) rest := by
  cases acks with
  | nil => exact absurd h.2 hm
  | cons ack rest => exact ⟨ack, rest, rfl, fun n hn => h.1 n (List.mem_cons_of_mem _ hn), h.2⟩

theorem Ends.states_reported {acks : List Bool} (h : Ends len reported acks) :
    states (turn len) reported acks = [reported] := by
  obtain ⟨ack, rest, rfl, hrest⟩ := h.next nofun
  rw [states_cons, show turn len reported ack = idle from rfl, states_idle hrest]

theorem Ends.states_moving (n : ℕ) {st : ℕ} {acks : List Bool} (hst : st + n = len + 7)
    (h : Ends len (moving o st) acks) :
    states (turn len) (moving o st) acks =
      (List.range' st (n + 1)).map (moving o) ++ report o := by
  induction n generalizing st acks with
  | zero =>
    obtain ⟨ack, rest, rfl, hrest⟩ := h.next nofun
    have hlast : ¬st < len + 7 := by omega
    simp only [turn, Motion.next, if_neg hlast] at hrest
    rw [states_cons]
    simp only [turn, Motion.next, if_neg hlast]
    cases o
    · rw [hrest.states_idle]
      rfl
    · rw [hrest.states_reported]
      rfl
  | succ n ih =>
    obtain ⟨ack, rest, rfl, hrest⟩ := h.next nofun
    have hturn : turn len (moving o st) ack = moving o (st + 1) := if_pos (by omega)
    rw [hturn] at hrest
    rw [states_cons, hturn, ih (by omega) hrest]
    rfl

/-- The words follow when the acknowledge has come. -/
theorem Ends.states_waiting {acks : List Bool} (h : Ends len (waiting o) acks) :
    ∃ d, states (turn len) (waiting o) acks = List.replicate (d + 1) (waiting o) ++
      ((List.range' 2 (len + 6)).map (moving o) ++ report o) := by
  induction acks with
  | nil => exact absurd h.2 nofun
  | cons ack acks ih =>
    obtain ⟨_, _, heq, hrest⟩ := h.next nofun
    obtain ⟨rfl, rfl⟩ := List.cons.inj heq
    cases ack with
    | false =>
      obtain ⟨d, hd⟩ := ih hrest
      exact ⟨d + 1, congrArg (waiting o :: ·) hd⟩
    | true => exact ⟨0, congrArg (waiting o :: ·) (hrest.states_moving (len + 5) (by omega))⟩

theorem Ends.states_asked {acks : List Bool} (h : Ends len (asked o) acks) :
    ∃ d, states (turn len) (asked o) acks = asked o :: (List.replicate (d + 1) (waiting o) ++
      ((List.range' 2 (len + 6)).map (moving o) ++ report o)) := by
  obtain ⟨ack, rest, rfl, hrest⟩ := h.next nofun
  obtain ⟨d, hd⟩ := states_waiting hrest
  exact ⟨d, congrArg (asked o :: ·) hd⟩

end Motion

/-! ## What a transaction does -/

/-- What the state machine does in the cycles of a transaction. -/
structure Moves (o : Op) (len : BitVec 9) (cycles : List Controller) : Prop where
  length : ∀ c ∈ cycles, c.path.mLength = len
  inReq : Pulse (if o = .write then len.toNat else 0) (cycles.map (·.core.ctl.inReq))
  outValid : Pulse (if o = .read then len.toNat else 0) (cycles.map (·.core.ctl.outValid))
  mWrDone : Pulse (if o = .write then 1 else 0) (cycles.map (·.core.ctl.mWrDone))
  mRdDone : Pulse (if o = .read then 1 else 0) (cycles.map (·.core.ctl.mRdDone))

namespace Motion

variable {len : ℕ} {o : Op}

/-- A signal that is low before the words move. -/
theorem Ends.pulse {acks : List Bool} (h : Ends len (asked o) acks) {n : ℕ} {f : Motion → Bool}
    (hasked : f (asked o) = false) (hwaiting : f (waiting o) = false)
    (hmoving : Pulse n ((List.range' 2 (len + 6)).map (f ∘ moving o) ++ (report o).map f)) :
    Pulse n ((states (turn len) (asked o) acks).map f) := by
  obtain ⟨d, hd⟩ := h.states_asked
  rw [hd, List.map_cons, List.map_append, List.map_replicate, List.map_append, List.map_map,
    hasked, hwaiting]
  exact (hmoving.low_append (d + 1)).cons

theorem Ends.pulse_inReq {acks : List Bool} (h : Ends len (asked o) acks) :
    Pulse (if o = .write then len else 0)
      ((states (turn len) (asked o) acks).map fun m => (m.ctl len {}).inReq) := by
  refine h.pulse rfl rfl ?_
  cases o
  · refine .append_low ?_ 0
    exact pulse_range' (a := 3) (by omega) (by simp; omega) fun k _ => by simp [ctl]; omega
  · refine .append_low ?_ 1
    exact pulse_low fun _ => rfl

theorem Ends.pulse_outValid {acks : List Bool} (h : Ends len (asked o) acks) :
    Pulse (if o = .read then len else 0)
      ((states (turn len) (asked o) acks).map fun m => (m.ctl len {}).outValid) := by
  refine h.pulse rfl rfl ?_
  cases o
  · refine .append_low ?_ 0
    exact pulse_low fun _ => rfl
  · refine .append_low ?_ 1
    exact pulse_range' (a := 8) (by omega) (by simp; omega) fun k hk => by simp [ctl]; omega

theorem Ends.pulse_mWrDone {acks : List Bool} (h : Ends len (asked o) acks) :
    Pulse (if o = .write then 1 else 0)
      ((states (turn len) (asked o) acks).map fun m => (m.ctl len {}).mWrDone) := by
  refine h.pulse rfl rfl ?_
  cases o
  · refine .append_low ?_ 0
    exact pulse_range' (a := len + 7) (by omega) (by simp; omega) fun k _ => by simp [ctl]; omega
  · refine .append_low ?_ 1
    exact pulse_low fun _ => rfl

theorem Ends.pulse_mRdDone {acks : List Bool} (h : Ends len (asked o) acks) :
    Pulse (if o = .read then 1 else 0)
      ((states (turn len) (asked o) acks).map fun m => (m.ctl len {}).mRdDone) := by
  refine h.pulse rfl rfl ?_
  cases o
  · refine .append_low ?_ 0
    exact pulse_low fun _ => rfl
  · show Pulse 1 ((List.range' 2 (len + 6)).map (fun _ => false) ++ [true])
    rw [List.map_const']
    exact (pulse_high 1).low_append _

end Motion

/-! ## The controller during a transaction -/

namespace Controller

variable {c : Controller} {m : Motion} {o : Op}

/-- The inputs of a transaction: with the last of them the controller is free again. -/
def Transaction (c : Controller) (is : List (Bool × Edge)) : Prop :=
  (∀ d ∈ states answered c is, d.core.ctl.free = false) ∧
    (run answered c is).core.ctl.free = true

theorem At.not_free (h : c.At m) (hf : c.core.ctl.free = false) : m ≠ .idle :=
  of_decide_eq_false (h.free ▸ hf)

/-- An edge before the end of a transaction. -/
theorem At.turn (h : c.At m) (hf : c.core.ctl.free = false) (i : Bool × Edge) :
    (c.answered i).At (m.turn c.path.mLength.toNat i.1) ∧
      (c.answered i).path.mLength = c.path.mLength := by
  have hs := h.starts_eq_none (h.not_free hf) i.2
  constructor
  · have hnext := h.answered i
    rwa [hs] at hnext
  · exact h.length_kept (h.not_free hf) i

/-- The motions of the controller until it is free. -/
theorem At.course {is : List (Bool × Edge)} (h : c.At m)
    (hbusy : ∀ d ∈ states Controller.answered c is, d.core.ctl.free = false) :
    List.Forall₂
        (fun d n => (d.At n ∧ d.path.mLength = c.path.mLength) ∧ d.core.ctl.free = false)
        (states Controller.answered c is)
        (states (Motion.turn c.path.mLength.toNat) m (is.map Prod.fst)) ∧
      (run Controller.answered c is).At
        (run (Motion.turn c.path.mLength.toNat) m (is.map Prod.fst)) ∧
      (run Controller.answered c is).path.mLength = c.path.mLength := by
  refine forall₂_states ?_ ⟨h, rfl⟩ hbusy
  rintro d n i ⟨hd, hlen⟩ hfree
  have hturn := hd.turn hfree i
  rw [hlen] at hturn
  exact hturn

theorem At.ends {is : List (Bool × Edge)} (h : c.At m) (ht : c.Transaction is) :
    m.Ends c.path.mLength.toNat (is.map Prod.fst) := by
  obtain ⟨hstates, hend, -⟩ := h.course ht.1
  exact ⟨forall_mem_of_forall₂ (fun _ _ hd => hd.1.1.not_free hd.2) hstates,
    of_decide_eq_true (hend.free ▸ ht.2)⟩

/-- A transaction moves the words that it has announced. -/
theorem At.moves {is : List (Bool × Edge)} (h : c.At (.asked o)) (ht : c.Transaction is) :
    Moves o c.path.mLength (states Controller.answered c is) := by
  obtain ⟨hstates, -⟩ := h.course ht.1
  have hends := h.ends ht
  -- The four signals do not depend on the registers that a motion leaves open.
  have hmap {f : SdramControl → Bool}
      (hf : ∀ (n : Motion) (r s : SdramControl),
        f (n.ctl c.path.mLength.toNat r) = f (n.ctl c.path.mLength.toNat s)) :
      (states Controller.answered c is).map (fun d => f d.core.ctl) =
        (states (Motion.turn c.path.mLength.toNat) (.asked o) (is.map Prod.fst)).map
          fun n => f (n.ctl c.path.mLength.toNat {}) := by
    refine map_eq_of_forall₂ ?_ hstates
    rintro d n ⟨⟨hd, hlen⟩, -⟩
    rw [hd.ctl, hlen]
    exact hf n _ _
  exact {
    length := forall_mem_of_forall₂ (fun _ _ hd => hd.1.2) hstates.flip
    inReq := hmap (f := (·.inReq)) (fun _ _ _ => rfl) ▸ hends.pulse_inReq
    outValid := hmap (f := (·.outValid)) (fun _ _ _ => rfl) ▸ hends.pulse_outValid
    mWrDone := hmap (f := (·.mWrDone)) (fun _ _ _ => rfl) ▸ hends.pulse_mWrDone
    mRdDone := hmap (f := (·.mRdDone)) (fun _ _ _ => rfl) ▸ hends.pulse_mRdDone }

/-! ## Every run -/

/-- Neither two transactions at once, nor words or reports without one. -/
structure Exclusive (r : SdramControl) : Prop where
  active : ¬(r.read = true ∧ r.write = true)
  mask : ¬(r.rdMask = true ∧ r.wrMask = true)
  quiet : r.free = true →
    r.inReq = false ∧ r.outValid = false ∧ r.mWrDone = false ∧ r.mRdDone = false

theorem At.exclusive (h : c.At m) : Exclusive c.core.ctl := by
  have hfree := h.free
  rw [h.ctl] at hfree ⊢
  refine ⟨?_, ?_, fun hf => ?_⟩
  · cases m <;> simp [Motion.ctl]
    all_goals rintro rfl; simp
  · cases m <;> simp [Motion.ctl, Motion.op]
    all_goals rintro rfl; simp
  · obtain rfl : m = .idle := of_decide_eq_true (hfree ▸ hf)
    exact ⟨rfl, rfl, rfl, rfl⟩

theorem At.not_free_of_ne (h : c.At m) (hm : m ≠ .idle) : c.core.ctl.free = false := by
  rw [h.free, decide_eq_false hm]

/-- The transaction ends when its words have been moved. -/
theorem At.moving_ends (n : ℕ) {st : ℕ} (h : c.At (.moving o st))
    (hn : st + n = c.path.mLength.toNat + 7) {is : List (Bool × Edge)} (his : n + 2 ≤ is.length) :
    ∃ k ≤ n + 2, (run Controller.answered c (is.take k)).core.ctl.free = true := by
  induction n generalizing c st is with
  | zero =>
    obtain ⟨i, j, is, rfl⟩ : ∃ i j rest, is = i :: j :: rest := by
      obtain _ | ⟨i, _ | ⟨j, is⟩⟩ := is <;> simp at his
      exact ⟨i, j, is, rfl⟩
    obtain ⟨hnext, -⟩ := h.turn (h.not_free_of_ne (by simp)) i
    have hlast : ¬st < c.path.mLength.toNat + 7 := by omega
    simp only [Motion.turn, Motion.next, if_neg hlast] at hnext
    cases o with
    | write => exact ⟨1, by omega, hnext.free⟩
    | read => exact ⟨2, by omega, (hnext.turn (hnext.not_free_of_ne (by simp)) j).1.free⟩
  | succ n ih =>
    obtain ⟨i, is, rfl⟩ := List.exists_cons_of_length_pos (Nat.lt_of_lt_of_le (Nat.succ_pos _) his)
    obtain ⟨hnext, hlen⟩ := h.turn (h.not_free_of_ne (by simp)) i
    have hlt : st < c.path.mLength.toNat + 7 := by omega
    simp only [Motion.turn, Motion.next, if_pos hlt] at hnext
    obtain ⟨k, hk, hfree⟩ := ih hnext (by rw [hlen]; omega) (Nat.le_of_succ_le_succ his)
    exact ⟨k + 1, by omega, hfree⟩

theorem At.waiting_of_st (h : c.At m) (hst : c.core.ctl.st = 1) : ∃ o, m = .waiting o := by
  have hm : m.st = 1 := by
    have hmod := congrArg BitVec.toNat ((congrArg SdramControl.st h.ctl).symm.trans hst)
    simpa [Motion.ctl, Nat.mod_eq_of_lt h.within.st_lt] using hmod
  cases m with
  | waiting o => exact ⟨o, rfl⟩
  | moving o st =>
    obtain rfl : st = 1 := hm
    exact absurd h.within.2.1 (by omega)
  | _ => cases hm

/-- What the state machine does from a state on: the transactions that it can start wait for an
acknowledge and move the words that they announce, and an acknowledge is enough for a
transaction to end. -/
structure Announces (c : Controller) : Prop where
  exclusive : Exclusive c.core.ctl
  starts : ∀ (i : Bool × Edge) (o : Op), c.starts i.2 = some o →
    c.core.ctl.st = 0 ∧ c.core.ctl.wrMask = false ∧ c.core.ctl.rdMask = false ∧
      1 ≤ (i.2.length o).toNat ∧
      (∀ j, ((c.answered i).answered j).core.ctl.st = 1) ∧
      ∀ is, (c.answered i).Transaction is →
        Moves o (i.2.length o) (states answered (c.answered i) is)
  ends : ∀ (e : Edge) (is : List (Bool × Edge)), c.core.ctl.st = 1 →
    c.path.mLength.toNat + 7 ≤ is.length →
    ∃ k ≤ is.length, (run answered (c.answered (true, e)) (is.take k)).core.ctl.free = true

theorem At.announces (h : c.At m) : Announces c where
  exclusive := h.exclusive
  starts i o hs := by
    have hfree := starts_free (c := c) (e := i.2) (by rw [hs]; nofun)
    obtain rfl : m = .idle := of_decide_eq_true (h.free ▸ hfree)
    have hnext := h.answered i
    rw [hs] at hnext
    have hlen : (c.answered i).path.mLength = i.2.length o := by
      rw [mLength_answered, hs]
      rfl
    simp only [SdramControl.free, Bool.and_eq_true, Bool.not_eq_true', beq_iff_eq] at hfree
    exact ⟨hfree.1.1.2, hfree.1.2, hfree.2, length_of_starts hs,
      fun j => congrArg SdramControl.st (hnext.turn (hnext.not_free_of_ne nofun) j).1.ctl,
      fun is ht => hlen ▸ hnext.moves ht⟩
  ends e is hst his := by
    obtain ⟨o, rfl⟩ := h.waiting_of_st hst
    obtain ⟨hnext, hlen⟩ := h.turn (h.not_free_of_ne nofun) (true, e)
    obtain ⟨k, hk, hfree⟩ :=
      hnext.moving_ends (c.path.mLength.toNat + 5) (by rw [hlen]; omega) his
    exact ⟨k, by omega, hfree⟩

/-- Transactions move exactly the words that they announce: for every length, whenever the
acknowledge comes, and after every run. -/
theorem words_moved (is : List (Bool × Edge)) : Announces (run answered {} is) :=
  let ⟨_, h⟩ := exists_at is
  h.announces

/-- The write FIFO holds two words, and the read FIFO is full. -/
def twoToWrite : Edge where
  ports := ⟨0, 0x1ffffff, 2, false, 0, 0x1ffffff, 2, false⟩
  rusedw := 2
  wusedw := 511
  dq := 0

/-- The write FIFO is empty, and the read FIFO has room for two words. -/
def twoToRead : Edge := { twoToWrite with rusedw := 0, wusedw := 0 }

/-- The edges behind the start of a transaction of two words: an acknowledge comes at the third. -/
def acknowledged (e : Edge) (n : ℕ) : List (Bool × Edge) :=
  [(false, e), (false, e), (true, e)] ++ List.replicate n (false, e)

/-- A write of two words, and then a read of two words. -/
theorem words_moved_write_read :
    let written := run answered {} ([(false, twoToWrite), (false, twoToWrite)] ++
      acknowledged twoToWrite 8)
    Moves .write 2 (states answered (run answered {} [(false, twoToWrite), (false, twoToWrite)])
        (acknowledged twoToWrite 8)) ∧
      Moves .read 2 (states answered (written.answered (false, twoToRead))
        (acknowledged twoToRead 9)) := by
  intro written
  constructor
  · have hwrite := (words_moved [(false, twoToWrite)]).starts (false, twoToWrite) .write (by decide)
    exact hwrite.2.2.2.2.2 _ ⟨by decide +kernel, by decide +kernel⟩
  · have hread := (words_moved ([(false, twoToWrite), (false, twoToWrite)] ++
      acknowledged twoToWrite 8)).starts (false, twoToRead) .read (by decide +kernel)
    exact hread.2.2.2.2.2 _ ⟨by decide +kernel, by decide +kernel⟩

end Controller

end TetrisFpga.Sdram
