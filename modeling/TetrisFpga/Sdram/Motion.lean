import Mathlib.Tactic.ByContra
import TetrisFpga.Machine.Run
import TetrisFpga.Sdram.Controller

/-!
# The motions of the controller

What the state machine of `Sdram_Control` does with a transaction of any length, whatever
`control_interface` answers and whenever it does. `Controller.At` ties its registers to a
`Motion`, and `Controller.At.next` keeps it at every edge of `CLK`.
-/

namespace TetrisFpga.Sdram
open Machine

/-! ## Edges -/

/-- What the controller sees at an edge of `CLK`: its host side, the counters of the two FIFOs
and the data pins. -/
structure Edge where
  ports : Ports
  rusedw : ℕ
  wusedw : ℕ
  dq : WORD

namespace Controller

def edge (c : Controller) (e : Edge) : Controller := c.next e.ports e.rusedw e.wusedw e.dq

def starts (c : Controller) (e : Edge) : Option Op := c.start e.ports e.rusedw e.wusedw

/-- The controller as it would be with another `CMD_ACK`. -/
def acked (c : Controller) (ack : Bool) : Controller :=
  { c with core := { c.core with ci := { c.core.ci with cmdAck := ack } } }

/-- An edge at which the state machine finds `CMD_ACK` as it is given. -/
def answered (c : Controller) (i : Bool × Edge) : Controller := (c.acked i.1).edge i.2

theorem starts_free {c : Controller} {e : Edge} (h : c.starts e ≠ none) :
    c.core.ctl.free = true := by
  by_contra hf
  exact h (by simp [starts, start, hf])

end Controller

/-- The length of the transaction that an edge starts. -/
def Edge.length (e : Edge) : Op → BitVec 9
  | .write => e.ports.wrLength
  | .read => e.ports.rdLength

/-! ## Motions -/

/-- Nothing; a transaction that waits for the edge of `mWR` or `mRD`, or with `ST = 1` for the
acknowledge; one that moves its words, with `ST = st`; a read that reports its end. -/
inductive Motion
  | idle
  | asked (o : Op)
  | waiting (o : Op)
  | moving (o : Op) (st : ℕ)
  | reported
  deriving DecidableEq

namespace Motion

def op : Motion → Option Op
  | idle => none
  | asked o | waiting o | moving o _ => some o
  | reported => some .read

/-- `ST`. -/
def st : Motion → ℕ
  | waiting _ => 1
  | moving _ st => st
  | _ => 0

/-- One edge; `start` is what a free controller starts. -/
def next (m : Motion) (len : ℕ) (ack : Bool) (start : Option Op) : Motion :=
  match m with
  | idle => match start with
    | some o => asked o
    | none => idle
  | asked o => waiting o
  | waiting o => if ack then moving o 2 else waiting o
  | moving o st => if st < len + 7 then moving o (st + 1) else
    match o with
    | .write => idle
    | .read => reported
  | reported => idle

theorem next_moving {o : Op} {st len : ℕ} (h : st < len + 7) (ack : Bool) (start : Option Op) :
    (moving o st).next len ack start = moving o (st + 1) := if_pos h

/-- The registers in a motion. It leaves those of `r` open that are not named, and `Pre_RD`
and `Pre_WR` while it is idle. -/
def ctl (m : Motion) (len : ℕ) (r : SdramControl) : SdramControl :=
  { r with
    cmd := match m with
      | waiting o => o.code
      | _ => 0
    st := BitVec.ofNat 10 m.st
    preRd := match m with
      | idle => r.preRd
      | asked _ => false
      | m => m.op = some .read
    preWr := match m with
      | idle => r.preWr
      | asked _ => false
      | m => m.op = some .write
    read := match m with
      | waiting o | moving o _ => o = .read
      | _ => false
    write := match m with
      | waiting o => o = .write
      | moving o st => o = .write && st < len + 7
      | _ => false
    outValid := match m with
      | moving o st => o = .read && 8 ≤ st
      | _ => false
    inReq := match m with
      | moving o st => o = .write && 3 ≤ st && st < len + 3
      | _ => false
    mWrDone := match m with
      | moving o st => o = .write && st = len + 7
      | _ => false
    mRdDone := m = reported
    mWr := m.op = some .write
    mRd := m.op = some .read
    wrMask := m.op = some .write
    rdMask := m.op = some .read
    pmStop := match m with
      | moving _ st => st = len + 4
      | _ => false }

/-- Lengths are never 0, and `ST` counts from 2 to seven more than the length. -/
def Within (len : ℕ) : Motion → Prop
  | idle => True
  | moving _ st => 1 ≤ len ∧ 2 ≤ st ∧ st ≤ len + 7
  | _ => 1 ≤ len

end Motion

section Thresholds

variable {len : BitVec 9}

theorem st_beq {st n : ℕ} (hst : st < 1024) {x : BitVec 10} (hx : x.toNat = n) :
    (BitVec.ofNat 10 st == x) = decide (st = n) := by
  rw [Bool.eq_iff_iff, beq_iff_eq, decide_eq_true_iff, ← BitVec.toNat_inj, hx,
    BitVec.toNat_ofNat, Nat.mod_eq_of_lt hst]

theorem stop_toNat : (scCl + len.setWidth 10).toNat = len.toNat + 3 := by
  have := len.isLt
  simp [scCl]
  omega

theorem fetch_toNat : (scCl + len.setWidth 10 - 1).toNat = len.toNat + 2 := by
  have := len.isLt
  simp [scCl]
  omega

theorem wrote_toNat : (scCl + scRcd + len.setWidth 10).toNat = len.toNat + 6 := by
  have := len.isLt
  simp [scCl, scRcd]
  omega

theorem last_toNat : (scCl + scRcd + len.setWidth 10 + 1).toNat = len.toNat + 7 := by
  have := len.isLt
  simp [scCl, scRcd]
  omega

end Thresholds

namespace Motion

variable {m : Motion} {len : BitVec 9} {r : SdramControl}

theorem Within.st_lt (h : m.Within len.toNat) : m.st < 1024 := by
  have := len.isLt
  cases m <;> simp [Within, st] at h ⊢
  omega

/-- The state machine follows the motions. -/
theorem next_ctl (h : r = m.ctl len.toNat r) (hw : m.Within len.toNat) (ack : Bool)
    (issued : Strobes) {start : Option Op} (hs : start ≠ none → m = idle) {n : ℕ}
    (hn : m ≠ idle → n = len.toNat) :
    r.next len ack issued start =
      (m.next len.toNat ack start).ctl n (r.next len ack issued start) := by
  have hst : r.st = BitVec.ofNat 10 m.st := congrArg SdramControl.st h
  have h0 : (r.st == 0) = decide (m.st = 0) := hst ▸ st_beq hw.st_lt rfl
  have h1 : (r.st == 1) = decide (m.st = 1) := hst ▸ st_beq hw.st_lt rfl
  have h2 : (r.st == scCl - 1) = decide (m.st = 2) := hst ▸ st_beq hw.st_lt rfl
  have h7 : (r.st == scCl + scRcd + 1) = decide (m.st = 7) := hst ▸ st_beq hw.st_lt rfl
  have hstop : (r.st == scCl + len.setWidth 10) = decide (m.st = len.toNat + 3) :=
    hst ▸ st_beq hw.st_lt stop_toNat
  have hfetch : (r.st == scCl + len.setWidth 10 - 1) = decide (m.st = len.toNat + 2) :=
    hst ▸ st_beq hw.st_lt fetch_toNat
  have hwrote : (r.st == scCl + scRcd + len.setWidth 10) = decide (m.st = len.toNat + 6) :=
    hst ▸ st_beq hw.st_lt wrote_toNat
  have hlast : (r.st == scCl + scRcd + len.setWidth 10 + 1) = decide (m.st = len.toNat + 7) :=
    hst ▸ st_beq hw.st_lt last_toNat
  -- all comparisons of `ST` are now comparisons of numbers
  simp only [SdramControl.next, h0, h1, h2, h7, hstop, hfetch, hwrote, hlast]
  clear h0 h1 h2 h7 hstop hfetch hwrote hlast
  obtain ⟨cmd, st, preRd, preWr, read, write, outValid, inReq, mWrDone, mRdDone, mWr, mRd, wrMask,
    rdMask, pmStop, dqm, strobes⟩ := r
  simp only [ctl, SdramControl.mk.injEq] at h
  obtain ⟨rfl, rfl, hrd, hwr, rfl, rfl, rfl, rfl, rfl, rfl, rfl, rfl, rfl, rfl, rfl, -, -⟩ := h
  have hnone (hm : m ≠ idle) : start = none := Decidable.not_not.mp fun hne => hm (hs hne)
  cases m with
  | idle =>
    obtain _ | o := start
    · simp [Motion.next, ctl, op, Motion.st]
    · cases o <;> simp [Motion.next, ctl, op, Motion.st]
  | asked o =>
    obtain rfl := hnone (by simp)
    obtain rfl : preRd = false := hrd
    obtain rfl : preWr = false := hwr
    cases o <;> simp [Motion.next, ctl, op, Op.code, Motion.st]
  | waiting o =>
    obtain rfl := hnone (by simp)
    cases o <;> cases ack <;> simp [Motion.next, ctl, op, Op.code, Motion.st]
  | moving o st =>
    obtain rfl := hnone (by simp)
    obtain rfl := hn (by simp)
    obtain ⟨hlen, h2, h7⟩ := hw
    have h0 : st ≠ 0 := by omega
    have h1 : st ≠ 1 := by omega
    obtain rfl : preRd = decide (some o = some Op.read) := hrd
    obtain rfl : preWr = decide (some o = some Op.write) := hwr
    -- `ST` goes back to 0 in the last state
    rcases Nat.lt_or_ge st (len.toNat + 7) with hlt | hge
    · have hne : st ≠ len.toNat + 7 := by omega
      cases o <;> simp [Motion.next, ctl, op, Motion.st, hlt, hne, h0, h1, BitVec.ofNat_add]
      all_goals grind
    · obtain rfl : st = len.toNat + 7 := by omega
      cases o <;> simp [Motion.next, ctl, op, Motion.st]
      omega
  | reported =>
    obtain rfl := hnone (by simp)
    obtain rfl : preRd = true := hrd
    simp [Motion.next, ctl, op, Motion.st]

theorem op_next_ne {len : ℕ} {ack : Bool} {start : Option Op} (h : m.op ≠ some .write)
    (hs : start ≠ some .write) : (m.next len ack start).op ≠ some .write := by
  cases m with
  | idle => rcases start with _ | _ | _ <;> simp_all [Motion.next, op]
  | asked o => exact h
  | waiting o => cases ack <;> exact h
  | moving o st =>
    cases o
    · exact absurd rfl h
    · simp only [Motion.next]
      split <;> nofun
  | reported => nofun

theorem Within.next {len : ℕ} (h : m.Within len) {ack : Bool} {start : Option Op} {n : ℕ}
    (hn : m ≠ idle → n = len) (hstart : start ≠ none → 1 ≤ n) :
    (m.next len ack start).Within n := by
  cases m with
  | idle =>
    obtain _ | o := start
    · trivial
    · exact hstart nofun
  | asked o => exact hn nofun ▸ h
  | waiting o =>
    obtain rfl := hn nofun
    cases ack
    · exact h
    · exact ⟨h, by omega, by omega⟩
  | moving o st =>
    obtain rfl := hn nofun
    obtain ⟨h1, h2, h7⟩ := h
    by_cases hlt : st < n + 7
    · rw [next_moving hlt]
      exact ⟨h1, by omega, by omega⟩
    · simp only [Motion.next, if_neg hlt]
      cases o
      · trivial
      · exact h1
  | reported => trivial

end Motion

/-! ## The controller in a motion -/

/-- The registers of the state machine are those of a motion. -/
structure Controller.At (c : Controller) (m : Motion) : Prop where
  ctl : c.core.ctl = m.ctl c.path.mLength.toNat c.core.ctl
  within : m.Within c.path.mLength.toNat

namespace Controller

variable {c : Controller} {m : Motion} {e : Edge} {o : Op}

theorem length_of_starts (h : c.starts e = some o) : 1 ≤ (e.length o).toNat := by
  unfold starts start at h
  split at h
  · split at h
    · obtain rfl : Op.write = o := Option.some.inj h
      rename_i hw
      have hne : e.ports.wrLength ≠ 0 := bne_iff_ne.mp (Bool.and_eq_true_iff.mp hw).2
      exact Nat.pos_of_ne_zero fun h0 => hne (BitVec.eq_of_toNat_eq h0)
    · split at h
      · obtain rfl : Op.read = o := Option.some.inj h
        exact Nat.lt_of_le_of_lt (Nat.zero_le _) ‹_›
      · cases h
  · cases h

theorem mLength_answered (i : Bool × Edge) :
    (c.answered i).path.mLength = ((c.starts i.2).map i.2.length).getD c.path.mLength := by
  show (c.path.next _ i.2.ports (c.starts i.2) _).mLength = _
  rcases c.starts i.2 with _ | _ | _ <;> rfl

theorem mAddr_edge (h : c.starts e = none) : (c.edge e).path.mAddr = c.path.mAddr := by
  show (c.path.next _ _ (c.starts e) _).mAddr = _
  rw [h]
  rfl

/-- Where the address of a transaction comes from. -/
theorem mAddr_of_starts (h : c.starts e = some o) : (c.edge e).path.mAddr =
    if o = .write then c.path.rWrAddr else c.path.rRdAddr := by
  show (c.path.next _ _ (c.starts e) _).mAddr = _
  rw [h]
  cases o <;> rfl

theorem At.free (h : c.At m) : c.core.ctl.free = decide (m = .idle) := by
  rw [h.ctl]
  obtain _ | o | o | ⟨o, st⟩ | _ := m
  · rfl
  all_goals first | (cases o <;> rfl) | rfl

theorem At.rdMask (h : c.At m) : c.core.ctl.rdMask = decide (m.op = some .read) :=
  congrArg SdramControl.rdMask h.ctl

theorem At.wrMask (h : c.At m) : c.core.ctl.wrMask = decide (m.op = some .write) :=
  congrArg SdramControl.wrMask h.ctl

theorem At.mRdDone (h : c.At m) : c.core.ctl.mRdDone = decide (m = .reported) :=
  congrArg SdramControl.mRdDone h.ctl

theorem At.mWrDone (h : c.At m) :
    c.core.ctl.mWrDone = true ↔ m = .moving .write (c.path.mLength.toNat + 7) := by
  rw [h.ctl]
  obtain _ | _ | _ | ⟨o, st⟩ | _ := m
  all_goals simp [Motion.ctl]

theorem At.starts_eq_none (h : c.At m) (hm : m ≠ .idle) (e : Edge) : c.starts e = none :=
  Decidable.not_not.mp fun hs => hm (of_decide_eq_true (h.free ▸ starts_free hs))

theorem At.length_kept (h : c.At m) (hm : m ≠ .idle) (i : Bool × Edge) :
    (c.answered i).path.mLength = c.path.mLength := by
  rw [mLength_answered, h.starts_eq_none hm]
  rfl

/-- The motion after an edge. -/
theorem At.answered (h : c.At m) (i : Bool × Edge) :
    (c.answered i).At (m.next c.path.mLength.toNat i.1 (c.starts i.2)) := by
  have hlen (hm : m ≠ .idle) : (c.answered i).path.mLength.toNat = c.path.mLength.toNat := by
    rw [h.length_kept hm]
  have hidle (hs : c.starts i.2 ≠ none) : m = .idle :=
    Decidable.not_not.mp fun hm => hs (h.starts_eq_none hm i.2)
  exact {
    ctl := Motion.next_ctl h.ctl h.within i.1 c.core.cmd.strobes hidle hlen
    within := h.within.next hlen fun hs => by
      obtain ⟨o, ho⟩ := Option.ne_none_iff_exists'.mp hs
      rw [mLength_answered, ho]
      exact length_of_starts ho }

theorem At.edge (h : c.At m) (e : Edge) :
    (c.edge e).At (m.next c.path.mLength.toNat c.core.ci.cmdAck (c.starts e)) :=
  h.answered (c.core.ci.cmdAck, e)

theorem At.length_edge (h : c.At m) (hm : m ≠ .idle) (e : Edge) :
    (c.edge e).path.mLength = c.path.mLength :=
  h.length_kept hm (c.core.ci.cmdAck, e)

theorem at_powerUp : ({} : Controller).At .idle := ⟨rfl, trivial⟩

/-- Whatever acknowledges come, the controller is always in a motion. -/
theorem exists_at (is : List (Bool × Edge)) : ∃ m, (run answered {} is).At m :=
  have hstep : ∀ (c : Controller) i, (∃ m, c.At m) → ∃ m, (c.answered i).At m :=
    fun _ i ⟨_, h⟩ => ⟨_, h.answered i⟩
  run_invariant hstep ⟨_, at_powerUp⟩ is

end Controller

end TetrisFpga.Sdram
