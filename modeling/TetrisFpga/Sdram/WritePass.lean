import Mathlib.Tactic.ByContra
import TetrisFpga.Machine.Run
import TetrisFpga.Sdram.Writing

/-!
# One pass of the test machine's writes

The test machine leaves `FWx` when the write FIFO looks empty, and `PWx` clears the FIFO. As
long as the counters lag little, both copies of the word have then been popped. `Pass` says
where the pass is, and `Pass.next` goes on one cycle.
-/

namespace TetrisFpga.Sdram
open Machine

/-! ## What a pass does -/

namespace WriteSlot

/-- The memory before the word of a slot, and the one after the whole pass. -/
def before (m : Memory) : WriteSlot → Memory
  | a => m
  | b => a.stored m 2
  | c => b.stored (a.stored m 2) 2
  | d => c.stored (b.stored (a.stored m 2) 2) 2

def afterPass (m : Memory) : Memory := d.stored (d.before m) 2

/-- After a slot comes the next, or the reads. -/
theorem before_of_after (m : Memory) (x : WriteSlot) :
    (∃ y, x.after = .pw y ∧ y.before m = x.stored (x.before m) 2) ∨
      x.after = .pr .a ∧ afterPass m = x.stored (x.before m) 2 := by
  cases x
  · exact .inl ⟨b, rfl, rfl⟩
  · exact .inl ⟨c, rfl, rfl⟩
  · exact .inl ⟨d, rfl, rfl⟩
  · exact .inr ⟨rfl, rfl⟩

/-- The memory with the four words, and no other word changed. -/
def fourWords (m : Memory) : Memory :=
  (((m.store a.addr a.data).store b.addr b.data).store c.addr c.data).store d.addr d.data

theorem stored_two (x : WriteSlot) (m : Memory) (w : ADDR) :
    x.stored m 2 w = if w = x.addr + 1 ∨ w = x.addr then x.data else m w := by
  simp only [stored, Memory.store, word, BitVec.ofNat_eq_ofNat, BitVec.add_zero]
  grind

/-- Each word is also written to the next address, which the four words do not reach. -/
theorem afterPass_eq_iff (m : Memory) :
    afterPass m = fourWords m ↔ ∀ x : WriteSlot, m (x.addr + 1) = x.data := by
  constructor
  · intro h x
    have hx := congrFun h (x.addr + 1)
    cases x <;>
      simpa [afterPass, before, stored_two, fourWords, Memory.store, addr, data] using hx.symm
  · intro h
    funext w
    by_cases hw : ∃ x : WriteSlot, w = x.addr + 1
    · obtain ⟨x, rfl⟩ := hw
      have hx := h x
      cases x <;>
        simp [afterPass, before, stored_two, fourWords, Memory.store, addr, data] at hx ⊢ <;>
        exact hx.symm
    · have hne (x : WriteSlot) : w ≠ x.addr + 1 := fun hx => hw ⟨x, hx⟩
      simp only [afterPass, before, stored_two, fourWords, Memory.store, hne, false_or]

end WriteSlot

/-- How the counters of the write FIFO may lag behind: `FWx` sees the word before it asks
whether the FIFO is empty, and is left before the controller starts a third write. -/
def Counted (coincident : Bool) (f : Fifo WORD) : Prop :=
  f.wrLag.length + coincident.toNat ≤ 2 ∨
    f.wrLag.length + coincident.toNat = 3 ∧ f.rdLag.length ≤ 5

instance (coincident : Bool) (f : Fifo WORD) : Decidable (Counted coincident f) :=
  inferInstanceAs (Decidable (_ ∨ _ ∧ _))

/-- The cycle of the second write in which the write FIFO looks empty. -/
def emptyAt (coincident : Bool) (f : Fifo WORD) : ℕ :=
  max (f.wrLag.length + coincident.toNat) 1 + 4

/-! ## The states of a pass -/

/-- Nothing is being written. -/
structure Quiet (m : Memory) (s : System) (v : View) : Prop where
  words : s.wrFifo.words = []
  lag : ∀ c ∈ s.wrFifo.rdLag, c = 0
  stage : v.stage.writes = false
  mem : v.mem = m

/-- The second copy has been written, and the write is not over. -/
structure Leaving (m : Memory) (s : System) (v : View) (k : ℕ) : Prop where
  words : s.wrFifo.words = []
  stage : v.stage = .run .write k
  lower : 6 + s.half.toNat ≤ k
  upper : k ≤ 9
  lag : Fifo.Recent (· = 0) (k - 5) s.wrFifo.rdLag
  last : s.half = false → k = 9 → s.wrFifo.rdLag.length ≤ 5
  mem : v.mem = m

/-- The FIFO has been cleared, and an earlier write may not be over. -/
structure Loading (x : WriteSlot) (m : Memory) (s : System) (v : View) : Prop where
  words : s.wrFifo.words = []
  stage : v.stage.writes = true → ∃ k, v.stage = .run .write k ∧ 8 + s.half.toNat ≤ k
  address : s.half = true → v.rWrAddr = x.addr
  mem : v.mem = m

/-- A write that has been started since at most `e` cycles. -/
def Stage.Young (e : ℕ) (st : Stage) : Prop :=
  st.writes = true → st = .pending .write ∨ ∃ k, st = .run .write k ∧ k + 1 ≤ e

namespace Stage.Young

variable {start : Option Op} {st st' : Stage} {e : ℕ}

theorem next (h : st.Young e) (hst : Stage.Next start st st') : st'.Young (e + 1) := by
  intro hw
  cases hst with
  | start o | wait o =>
    cases o
    · exact .inl rfl
    · cases hw
  | begin o =>
    cases o
    · exact .inr ⟨0, rfl, by omega⟩
    · cases hw
  | step o k hk =>
    cases o
    · obtain h | ⟨k', h, hle⟩ := h rfl
      · cases h
      · cases h
        exact .inr ⟨k + 1, rfl, by omega⟩
    · cases hw
  | _ => cases hw

theorem passed_eq_zero (h : st.Young e) {i : ℕ} (hi : e ≤ i) : st.passed i = 0 := by
  cases hw : st.writes with
  | false => exact Stage.passed_eq_zero i hw
  | true =>
    obtain rfl | ⟨k, rfl, hk⟩ := h hw
    · rfl
    · exact if_neg (by omega)

theorem wrote_eq_zero (h : st.Young e) (he : e ≤ 9) : st.wrote = 0 := by
  refine if_neg ?_
  rintro rfl
  obtain h | ⟨k, h, hk⟩ := h rfl
  · cases h
  · cases h
    omega

end Stage.Young

/-- The copies pushed in the first cycles. -/
def pushed (coincident : Bool) (e : ℕ) : ℕ := min 2 (e + 1 - coincident.toNat)

structure Early (coincident : Bool) (x : WriteSlot) (m : Memory) (e : ℕ) (s : System) (v : View) :
    Prop where
  progress : Progress x m (pushed coincident e) 0 v s.wrFifo
  young : v.stage.Young e
  lag : Fifo.Recent (1 ≤ ·) (e - coincident.toNat) s.wrFifo.wrLag
  req : s.tetris.writeReq = decide (e ≤ 1)
  half : s.half = decide (e % 2 = 1)

structure Filled (x : WriteSlot) (m : Memory) (j : ℕ) (s : System) (v : View) : Prop where
  progress : Progress x m 2 j v s.wrFifo
  count : j + v.stage.passed 5 < 2
  lag : ∀ c ∈ s.wrFifo.wrLag, 1 ≤ c
  req : s.tetris.writeReq = false

structure Emptied (coincident : Bool) (x : WriteSlot) (m : Memory) (k : ℕ) (s : System)
    (v : View) : Prop where
  progress : Progress x m 2 1 v s.wrFifo
  stage : v.stage = .run .write k
  lower : 5 ≤ k
  upper : k ≤ emptyAt coincident s.wrFifo + s.half.toNat
  wrLag : Fifo.Recent (· = 0) (k - 4 - coincident.toNat) s.wrFifo.wrLag
  rdLag : Fifo.Recent (· = 0) (k - 5) s.wrFifo.rdLag
  req : s.tetris.writeReq = false

/-- Where a pass is. -/
inductive Pass (coincident : Bool) (m : Memory) (s : System) (v : View) : Prop
  | hold (hs : s.tetris.state = .hold1 ∨ s.tetris.state = .hold2)
      (hld : s.tetris.writeLd = false) (hreq : s.tetris.writeReq = false) (h : Quiet m s v)
  | prepare (x : WriteSlot) (hs : s.tetris.state = .pw x) (hld : s.tetris.writeLd = false)
      (hreq : s.tetris.writeReq = false)
      (h : Quiet (x.before m) s v ∨ ∃ k, Leaving (x.before m) s v k)
  | load (x : WriteSlot) (hs : s.tetris.state = .w x) (hld : s.tetris.writeLd = true)
      (hreq : s.tetris.writeReq = false) (haddr : s.tetris.writeaddr = x.addr)
      (h : Loading x (x.before m) s v)
  | wait (x : WriteSlot) (hs : s.tetris.state = .fw x) (hld : s.tetris.writeLd = false)
      (hdata : s.tetris.writedata = x.data)
      (h : (∃ e < 3, Early coincident x (x.before m) e s v) ∨
        (∃ j, Filled x (x.before m) j s v) ∨ ∃ k, Emptied coincident x (x.before m) k s v)
  | finished (hs : s.tetris.state = .pr .a) (h : ∃ k, Leaving (WriteSlot.afterPass m) s v k)

/-! ## One cycle -/

theorem View.start_ne_write {v : View} {t : Tetris} {wusedw : ℕ} :
    v.start t 0 wusedw ≠ some .write := by
  rw [View.start, if_neg (by omega : ¬1 ≤ 0)]
  split <;> try split
  all_goals simp

theorem View.start_of_load {v : View} {t : Tetris} {rusedw wusedw : ℕ} (h : t.writeLd = true) :
    v.start t rusedw wusedw = none :=
  if_neg (by simp [h])

theorem Stage.writes_of_run {st : Stage} {k : ℕ} (h : st = .run .write k) : st.writes = true := by
  rw [h]
  rfl

theorem Stage.ne_run {st : Stage} (h : st.writes = false) (k : ℕ) : st ≠ .run .write k := by
  rintro rfl
  cases h

theorem rdusedw_eq_zero {f : Fifo WORD} (hw : f.words = []) (hlag : ∀ c ∈ f.rdLag, c = 0) :
    f.rdusedw usedwBits = 0 :=
  Fifo.shown_of_all hlag (by rw [Fifo.count, hw]; rfl)

/-! ### `FWx` -/

section NextTetris

variable {s : System} {key : Bool} {x : WriteSlot} (hs : s.tetris.state = .fw x)
include hs

theorem nextTetris_stay (h : s.half = true →
      ¬(s.wrFifo.wrusedw usedwBits = 0 ∧ s.tetris.writeReq = false)) :
    s.nextTetris key = { s.tetris with writeReq := !s.half && s.tetris.writeReq } := by
  unfold System.nextTetris
  cases hhalf : s.half with
  | false => rfl
  | true =>
    rw [if_pos rfl, Tetris.next, hs]
    exact (if_neg (h hhalf)).trans (by rw [← hs]; rfl)

theorem nextTetris_leave (hhalf : s.half = true) (h : s.wrFifo.wrusedw usedwBits = 0)
    (hreq : s.tetris.writeReq = false) :
    s.nextTetris key = { s.tetris with writeReq := false, state := x.after } := by
  rw [System.nextTetris, if_pos hhalf, Tetris.next, hs]
  exact if_pos ⟨h, hreq⟩

end NextTetris

section Cycle

variable {coincident key : Bool} {m : Memory} {s : System} {v v' : View}
  (hv : v.Next s.tetris (s.wrFifo.rdusedw usedwBits) (s.rdFifo.wrusedw usedwBits) s.wrFifo.q v')
  (hf : (s.next coincident key).wrFifo = wrCycle coincident s.tetris (s.nextTetris key)
    (v.stage = .run .write 4) s.wrFifo)

include hv in
theorem mem_eq (h : v.stage ≠ .run .write 5) : v'.mem = v.mem := by
  rw [hv.mem]
  funext a
  exact if_neg fun ha => h ha.1

include hf in
theorem Counted.next (h : Counted coincident s.wrFifo) :
    Counted coincident (s.next coincident key).wrFifo := by
  rw [Counted, hf]
  simpa [Counted] using h

section NoLoad

variable (hld : s.tetris.writeLd = false) (hld' : (s.nextTetris key).writeLd = false)
include hf hld hld'

/-- An empty queue stays empty while nothing is pushed. -/
theorem words_of_drained (hreq : (hostAt coincident s.tetris (s.nextTetris key)).writeReq = false)
    (h : s.wrFifo.words = []) : (s.next coincident key).wrFifo.words = [] := by
  rw [hf, wrCycle_words hld' hld, hreq, afterPop, h]
  simp

omit hld in
theorem rdLag_of_drained {k : ℕ} (h : s.wrFifo.words = [])
    (hlag : Fifo.Recent (· = 0) k s.wrFifo.rdLag) :
    Fifo.Recent (· = 0) (k + 1) (s.next coincident key).wrFifo.rdLag := by
  rw [hf, wrCycle_rdLag hld', h]
  exact hlag.shift rfl

include hv

theorem Quiet.next (h : Quiet m s v)
    (hreq : (hostAt coincident s.tetris (s.nextTetris key)).writeReq = false) :
    Quiet m (s.next coincident key) v' where
  words := words_of_drained hf hld hld' hreq h.words
  lag := by
    rw [hf, wrCycle_rdLag hld', h.words]
    exact Fifo.shift_all h.lag rfl
  stage := by
    have hstart := hv.stage
    rw [rdusedw_eq_zero h.words h.lag] at hstart
    exact hstart.writes_eq_false h.stage View.start_ne_write
  mem := (mem_eq hv (Stage.ne_run h.stage 5)).trans h.mem

/-- The last write ends while the test machine waits for its clock, or the controller sees the
empty queue in time. -/
theorem Leaving.next {k : ℕ} (h : Leaving m s v k)
    (hlast : s.half = false ∨ s.wrFifo.rdLag.length ≤ 5)
    (hreq : (hostAt coincident s.tetris (s.nextTetris key)).writeReq = false) :
    Quiet m (s.next coincident key) v' ∨ ∃ k, Leaving m (s.next coincident key) v' k := by
  have hlower := h.lower
  have hupper := h.upper
  have hlen : (s.next coincident key).wrFifo.rdLag.length = s.wrFifo.rdLag.length := by
    rw [hf, wrCycle_rdLag_length]
  have hlag := rdLag_of_drained hf hld' h.words h.lag
  have hmem : v'.mem = m := (mem_eq hv (by rw [h.stage]; simp; omega)).trans h.mem
  have hwords := words_of_drained hf hld hld' hreq h.words
  have hnext := hv.stage
  rw [h.stage] at hnext
  by_cases hk : k = 9
  · subst hk
    refine .inl ⟨hwords, hlag.all ?_, ?_, hmem⟩
    · rw [hlen]
      exact hlast.elim (fun hhalf => h.last hhalf rfl) id
    · rw [hnext.run_write_last]
      rfl
  · refine .inr ⟨k + 1, hwords, hnext.run_write (by omega), ?_, by omega, ?_, ?_, hmem⟩
    · have := (s.next coincident key).half.toNat_le
      omega
    · rwa [show k + 1 - 5 = k - 5 + 1 by omega]
    · intro hhalf
      rw [System.next_half] at hhalf
      rw [hlen]
      exact fun _ => hlast.resolve_left (by simpa using hhalf)

end NoLoad

theorem Emptied.lt_nine {x : WriteSlot} {k : ℕ} (hc : Counted coincident s.wrFifo)
    (h : Emptied coincident x m k s v) : k < 9 := by
  have hupper := h.upper
  have hhalf := s.half.toNat_le
  rw [emptyAt] at hupper
  rw [Counted] at hc
  omega

theorem Emptied.words {x : WriteSlot} {k : ℕ} (h : Emptied coincident x m k s v) :
    s.wrFifo.words = [] := by
  rw [h.progress.words, h.stage, Stage.passed, if_pos h.lower]
  rfl

include hv hf

theorem Pass.hold_next (hs : s.tetris.state = .hold1 ∨ s.tetris.state = .hold2)
    (hld : s.tetris.writeLd = false) (hreq : s.tetris.writeReq = false) (h : Quiet m s v) :
    Pass coincident m (s.next coincident key) v' := by
  obtain ⟨st, ht, hst⟩ : ∃ st, s.nextTetris key = { s.tetris with state := st } ∧
      ((st = .hold1 ∨ st = .hold2) ∨ st = .pw .a) := by
    unfold System.nextTetris Tetris.next
    cases s.half <;> obtain hs | hs := hs <;> cases key <;> rw [hs]
    all_goals first
      | exact ⟨_, rfl, .inl (.inl hs)⟩
      | exact ⟨_, rfl, .inl (.inr hs)⟩
      | exact ⟨_, rfl, .inl (.inr rfl)⟩
      | exact ⟨_, rfl, .inr rfl⟩
  have hld' : (s.nextTetris key).writeLd = false := by rw [ht]; exact hld
  have hreq' : (s.nextTetris key).writeReq = false := by rw [ht]; exact hreq
  have hquiet := h.next hv hf hld hld' (hostAt_field Tetris.writeReq hreq hreq')
  have hstate : (s.nextTetris key).state = st := by rw [ht]
  obtain hst | rfl := hst
  · exact .hold (by rwa [← hstate] at hst) hld' hreq' hquiet
  · exact .prepare .a hstate hld' hreq' (.inl hquiet)

theorem Pass.prepare_next {x : WriteSlot} (hs : s.tetris.state = .pw x)
    (hld : s.tetris.writeLd = false) (hreq : s.tetris.writeReq = false)
    (h : Quiet (x.before m) s v ∨ ∃ k, Leaving (x.before m) s v k) :
    Pass coincident m (s.next coincident key) v' := by
  cases hhalf : s.half with
  | false =>
    have ht := System.nextTetris_of_low hhalf key
    have hreq' : (hostAt coincident s.tetris (s.nextTetris key)).writeReq = false := by
      rwa [ht, hostAt_self]
    refine .prepare x (by rwa [← ht] at hs) (by rwa [← ht] at hld) (by rwa [← ht] at hreq) ?_
    obtain h | ⟨k, h⟩ := h
    · exact .inl (h.next hv hf hld (by rwa [ht]) hreq')
    · exact h.next hv hf hld (by rwa [ht]) (.inl hhalf) hreq'
  | true =>
    have ht : s.nextTetris key =
        { s.tetris with writeLd := true, writeaddr := x.addr, state := .w x } := by
      simp [System.nextTetris, hhalf, Tetris.next, hs]
    have hhalf' : (s.next coincident key).half = false := by
      rw [System.next_half, hhalf, Bool.not_true]
    refine .load x (congrArg Tetris.state ht) (congrArg Tetris.writeLd ht) ?_
      (congrArg Tetris.writeaddr ht) ⟨?_, ?_, by simp [hhalf], ?_⟩
    · exact (congrArg Tetris.writeReq ht).trans hreq
    · rw [hf]
      exact wrCycle_clear (congrArg Tetris.writeLd ht)
    -- a write that is still on its way has to be over before the new word can be popped
    · intro hw
      have hnext := hv.stage
      obtain h | ⟨k, h⟩ := h
      · rw [rdusedw_eq_zero h.words h.lag] at hnext
        rw [hnext.writes_eq_false h.stage View.start_ne_write] at hw
        cases hw
      · rw [h.stage] at hnext
        have hlower := h.lower
        refine ⟨k + 1, hnext.run_write (hnext.run_write_lt hw), ?_⟩
        simp only [hhalf, hhalf', Bool.toNat_true, Bool.toNat_false] at hlower ⊢
        omega
    · obtain h | ⟨k, h⟩ := h
      · exact (mem_eq hv (Stage.ne_run h.stage 5)).trans h.mem
      · have hlower := h.lower
        refine (mem_eq hv ?_).trans h.mem
        rw [h.stage]
        simp
        omega

theorem Pass.load_next {x : WriteSlot} (hs : s.tetris.state = .w x)
    (hld : s.tetris.writeLd = true) (hreq : s.tetris.writeReq = false)
    (haddr : s.tetris.writeaddr = x.addr) (h : Loading x (x.before m) s v) :
    Pass coincident m (s.next coincident key) v' := by
  have hnext := hv.stage
  rw [View.start_of_load hld] at hnext
  have haddr' : v'.rWrAddr = x.addr := by
    rw [hv.rWrAddr, advance, if_pos hld, haddr]
  have hmem : v'.mem = x.before m := by
    refine (mem_eq hv fun h5 => ?_).trans h.mem
    obtain ⟨k, hk, hlower⟩ := h.stage (Stage.writes_of_run h5)
    rw [h5] at hk
    cases hk
    omega
  -- A write that goes on has been going on.
  have hstage (hw : v'.stage.writes = true) :
      ∃ k, v'.stage = .run .write k ∧ 9 + s.half.toNat ≤ k ∧ k ≤ 9 := by
    obtain ⟨hstart, -⟩ | ⟨-, hw', -⟩ := hnext.of_writes hw
    · cases hstart
    · obtain ⟨k, hk, hlower⟩ := h.stage hw'
      rw [hk] at hnext
      have hlt := hnext.run_write_lt hw
      exact ⟨k + 1, hnext.run_write hlt, by omega, hlt⟩
  cases hhalf : s.half with
  | false =>
    have ht := System.nextTetris_of_low hhalf key
    refine .load x (by rwa [← ht] at hs) (by rwa [← ht] at hld) (by rwa [← ht] at hreq)
      (by rwa [← ht] at haddr) ⟨?_, fun hw => ?_, fun _ => haddr', hmem⟩
    · rw [hf]
      exact wrCycle_clear (by rwa [ht])
    · obtain ⟨k, hk, hlower, -⟩ := hstage hw
      refine ⟨k, hk, ?_⟩
      rw [System.next_half, hhalf]
      rw [hhalf] at hlower
      exact hlower
  | true =>
    have ht : s.nextTetris key = { s.tetris with
        writeLd := false, writeReq := true, writedata := x.data, state := .fw x } := by
      simp [System.nextTetris, hhalf, Tetris.next, hs]
    have hquiet : v'.stage.writes = false := by
      by_contra hw
      obtain ⟨k, -, hlower, hupper⟩ := hstage (by simpa using hw)
      rw [hhalf] at hlower
      simp at hlower
      omega
    refine .wait x (congrArg Tetris.state ht) (congrArg Tetris.writeLd ht)
      (congrArg Tetris.writedata ht) (.inl ⟨0, by omega, ⟨?_, ?_, ?_, ?_, ?_⟩, ?_, ?_, ?_, ?_⟩)
    · rw [haddr', WriteSlot.word]
      simp
    · simp [hquiet]
    · rw [hf, wrCycle_words_of_load hld (congrArg Tetris.writeLd ht) h.words, ht,
        Stage.passed_eq_zero 5 hquiet]
      cases coincident <;> rfl
    · simp [Stage.passed_eq_zero 5 hquiet]
    · rw [hmem, Stage.passed_eq_zero 6 hquiet]
      rfl
    · simp [Stage.Young, hquiet]
    · simp
    · exact congrArg Tetris.writeReq ht
    · rw [System.next_half, hhalf]
      rfl

theorem Early.next {x : WriteSlot} {e : ℕ} (he : e < 3) (hs : s.tetris.state = .fw x)
    (hld : s.tetris.writeLd = false) (hdata : s.tetris.writedata = x.data)
    (h : Early coincident x m e s v) :
    (s.nextTetris key = { s.tetris with writeReq := decide (e + 1 ≤ 1) }) ∧
      Early coincident x m (e + 1) (s.next coincident key) v' := by
  have hreq := h.req
  have hhalf := h.half
  have ht : s.nextTetris key = { s.tetris with writeReq := decide (e + 1 ≤ 1) } := by
    rw [nextTetris_stay hs fun hhalf' => ?_, hhalf, hreq]
    · obtain rfl | rfl | rfl : e = 0 ∨ e = 1 ∨ e = 2 := by omega
      all_goals rfl
    · rw [hhalf, decide_eq_true_eq] at hhalf'
      rw [hreq, decide_eq_false_iff_not]
      omega
  have hhost : (hostAt coincident s.tetris (s.nextTetris key)).writeReq =
      decide (e + 1 - coincident.toNat ≤ 1) := by
    cases coincident
    · exact congrArg Tetris.writeReq ht
    · exact hreq
  have hdata' : (hostAt coincident s.tetris (s.nextTetris key)).writedata = x.data :=
    hostAt_field Tetris.writedata hdata ((congrArg Tetris.writedata ht).trans hdata)
  have hpushed : pushed coincident (e + 1) = pushed coincident e +
      (hostAt coincident s.tetris (s.nextTetris key)).writeReq.toNat := by
    rw [hhost]
    obtain rfl | rfl | rfl : e = 0 ∨ e = 1 ∨ e = 2 := by omega
    all_goals cases coincident <;> rfl
  have hld' : (s.nextTetris key).writeLd = false := (congrArg Tetris.writeLd ht).trans hld
  -- too early for a pop: a transaction that started since then is still young
  have h4 : v.stage.passed 4 = 0 := h.young.passed_eq_zero (by omega)
  have h5 : v.stage.passed 5 = 0 := h.young.passed_eq_zero (by omega)
  have hprogress := h.progress.next (by omega) (Nat.min_le_left _ _) (by omega) hld hld' hdata' hv
  rw [← hpushed, h.young.wrote_eq_zero (by omega), ← hf] at hprogress
  refine ⟨ht, hprogress, h.young.next hv.stage, ?_, congrArg Tetris.writeReq ht, ?_⟩
  · have hlen : (if coincident then s.wrFifo.words else
        afterPop (v.stage = .run .write 4) s.wrFifo).length = pushed coincident e := by
      rw [h.progress.afterPop_eq, h.progress.words, h4, h5]
      simp
    rw [hf, wrCycle_wrLag hld' hld, hlen]
    by_cases hc : e < coincident.toNat
    · rw [show e + 1 - coincident.toNat = 0 by omega]
      exact Fifo.recent_zero
    · rw [show e + 1 - coincident.toNat = e - coincident.toNat + 1 by omega]
      refine h.lag.shift ?_
      have hle : pushed coincident e < 2 ^ usedwBits :=
        Nat.lt_of_le_of_lt (Nat.min_le_left _ _) (by decide)
      rw [Nat.mod_eq_of_lt hle, pushed]
      omega
  · rw [System.next_half, hhalf]
    obtain rfl | rfl | rfl : e = 0 ∨ e = 1 ∨ e = 2 := by omega
    all_goals rfl

omit hv hf in
/-- After four cycles every length that the test machine may still see is positive. -/
theorem Early.filled {x : WriteSlot} (h : Early coincident x m 3 s v)
    (hc : Counted coincident s.wrFifo) : Filled x m 0 s v where
  progress := by
    have hprogress := h.progress
    rwa [show pushed coincident 3 = 2 by cases coincident <;> rfl] at hprogress
  count := by
    have := v.stage.passed_le_one 5
    omega
  lag := h.lag.all (by rw [Counted] at hc; omega)
  req := h.req

omit hv hf in
theorem Filled.nextTetris_eq {x : WriteSlot} {j : ℕ} (h : Filled x m j s v)
    (hs : s.tetris.state = .fw x) : s.nextTetris key = s.tetris := by
  have hcount := h.count
  have hpos : 1 ≤ s.wrFifo.wrusedw usedwBits := by
    refine Fifo.shown_of_all h.lag ?_
    rw [Fifo.count, h.progress.words, List.length_replicate,
      Nat.mod_eq_of_lt (Nat.lt_of_le_of_lt (by omega : _ ≤ 2) (by decide))]
    omega
  rw [nextTetris_stay hs fun _ hempty => by omega, h.req, Bool.and_false, ← h.req]

theorem Filled.next {x : WriteSlot} {j : ℕ} (hs : s.tetris.state = .fw x)
    (hld : s.tetris.writeLd = false) (hdata : s.tetris.writedata = x.data)
    (h : Filled x m j s v) :
    (∃ j, Filled x m j (s.next coincident key) v') ∨
      ∃ k, Emptied coincident x m k (s.next coincident key) v' := by
  have ht : s.nextTetris key = s.tetris := h.nextTetris_eq hs
  have hcount := h.count
  have h4 := v.stage.passed_le_one 4
  have hpassed : v'.stage.passed 5 + v.stage.wrote = v.stage.passed 4 :=
    hv.stage.passed_eq (by omega)
  have hsucc : v.stage.passed 5 + _ = v.stage.passed 4 := v.stage.passed_succ 4
  have hhost : hostAt coincident s.tetris (s.nextTetris key) = s.tetris := by
    rw [ht, hostAt_self]
  have hld' : (s.nextTetris key).writeLd = false := by rwa [ht]
  have hprogress := h.progress.next (by omega) (Nat.le_refl 2) (by omega) hld hld'
    (by rwa [hhost]) hv
  rw [hhost, h.req, ← hf] at hprogress
  have hreq : (s.nextTetris key).writeReq = false := by rw [ht]; exact h.req
  have hlag : (s.next coincident key).wrFifo.wrLag = _ :=
    (congrArg Fifo.wrLag hf).trans (wrCycle_wrLag hld' hld)
  -- the first copy may be popped, and the second one still waits
  by_cases hlast : j + v.stage.passed 4 < 2
  · refine .inl ⟨j + v.stage.wrote, hprogress, by omega, ?_, hreq⟩
    rw [hlag]
    refine Fifo.shift_all h.lag ?_
    rw [h.progress.afterPop_eq, h.progress.words]
    cases coincident <;>
      simp only [Bool.false_eq_true, if_false, if_true, List.length_replicate] <;>
      rw [Nat.mod_eq_of_lt (Nat.lt_of_le_of_lt (by omega : _ ≤ 2) (by decide))] <;> omega
  · -- The second copy is popped.
    have hstage : v.stage = .run .write 4 := by
      by_contra hne
      rw [if_neg hne] at hsucc
      omega
    have hnext := hv.stage
    rw [hstage] at hnext
    have hj : j + v.stage.wrote = 1 := by
      rw [hstage, Stage.wrote, if_neg (by simp)]
      omega
    rw [hj] at hprogress
    refine .inr ⟨5, hprogress, hnext.run_write (by omega), Nat.le_refl 5, ?_, ?_, Fifo.recent_zero,
      hreq⟩
    · rw [emptyAt]
      omega
    · rw [hlag]
      cases coincident
      · refine Fifo.recent_zero.shift ?_
        rw [h.progress.afterPop_eq, show 2 - (j + v.stage.passed 4) = 0 by omega]
        rfl
      · exact Fifo.recent_zero

/-- Whatever the test machine does, the controller goes on with the write. -/
theorem Emptied.goes_on {x : WriteSlot} {k : ℕ} (hc : Counted coincident s.wrFifo)
    (hld : s.tetris.writeLd = false) (hdata : s.tetris.writedata = x.data)
    (h : Emptied coincident x m k s v) (hld' : (s.nextTetris key).writeLd = false)
    (hreq' : (s.nextTetris key).writeReq = false)
    (hdata' : (s.nextTetris key).writedata = x.data) :
    Progress x m 2 1 v' (s.next coincident key).wrFifo ∧
      Fifo.Recent (· = 0) (k + 1 - 4 - coincident.toNat) (s.next coincident key).wrFifo.wrLag ∧
      Fifo.Recent (· = 0) (k + 1 - 5) (s.next coincident key).wrFifo.rdLag := by
  have hlower := h.lower
  have hk := h.lt_nine hc
  have hpop : afterPop (v.stage = .run .write 4) s.wrFifo = [] := by
    rw [afterPop, h.words]
    split <;> rfl
  have hreq : (hostAt coincident s.tetris (s.nextTetris key)).writeReq = false :=
    hostAt_field Tetris.writeReq h.req hreq'
  have hhost : (hostAt coincident s.tetris (s.nextTetris key)).writedata = x.data :=
    hostAt_field Tetris.writedata hdata hdata'
  have hprogress := h.progress.next (by have := v.stage.passed_le_one 4; omega) (Nat.le_refl 2)
    (by omega) hld hld' hhost hv
  rw [hreq, ← hf, h.stage, Stage.wrote, if_neg (by simp; omega)] at hprogress
  refine ⟨hprogress, ?_, ?_⟩
  · rw [hf, wrCycle_wrLag hld' hld, hpop, h.words, ite_self,
      show k + 1 - 4 - coincident.toNat = k - 4 - coincident.toNat + 1 by
        have := coincident.toNat_le
        omega]
    exact h.wrLag.shift rfl
  · rw [show k + 1 - 5 = k - 5 + 1 by omega]
    exact rdLag_of_drained hf hld' h.words h.rdLag

theorem Emptied.next {x : WriteSlot} {k : ℕ} (hc : Counted coincident s.wrFifo)
    (hs : s.tetris.state = .fw x) (hld : s.tetris.writeLd = false)
    (hdata : s.tetris.writedata = x.data) (h : Emptied coincident x m k s v) :
    (s.nextTetris key = s.tetris ∧ Emptied coincident x m (k + 1) (s.next coincident key) v') ∨
      s.nextTetris key = { s.tetris with writeReq := false, state := x.after } ∧
        Leaving (x.stored m 2) (s.next coincident key) v' (k + 1) := by
  have hlower := h.lower
  have hupper := h.upper
  have hk := h.lt_nine hc
  have hnext := hv.stage
  rw [h.stage] at hnext
  have hstage := hnext.run_write hk
  have hcount : s.wrFifo.count usedwBits = 0 := by
    rw [Fifo.count, h.words]
    rfl
  have hsize : emptyAt coincident (s.next coincident key).wrFifo =
      emptyAt coincident s.wrFifo := by
    rw [hf, emptyAt, wrCycle_wrLag_length, emptyAt]
  by_cases hleave : s.half = true ∧ s.wrFifo.wrusedw usedwBits = 0
  · have ht : s.nextTetris key = _ := nextTetris_leave hs hleave.1 hleave.2 h.req
    obtain ⟨hprogress, -, hrdLag⟩ := h.goes_on hv hf hc hld hdata (by rw [ht]; exact hld)
      (by rw [ht]) (by rw [ht]; exact hdata)
    have hhalf' : (s.next coincident key).half = false := by
      rw [System.next_half, hleave.1, Bool.not_true]
    refine .inr ⟨ht, ?_, hstage, ?_, by omega, hrdLag, fun _ hk9 => ?_, ?_⟩
    · rw [hprogress.words, hstage, Stage.passed, if_pos (by omega)]
      rfl
    · rw [hhalf']
      simp
      omega
    · rw [hf, wrCycle_rdLag_length]
      rw [emptyAt, hleave.1] at hupper
      rw [Counted] at hc
      simp at hupper
      omega
    · rw [hprogress.mem, hstage, Stage.passed, if_pos (by omega)]
  · have ht : s.nextTetris key = s.tetris := by
      rw [nextTetris_stay hs fun hhalf' hempty => hleave ⟨hhalf', hempty.1⟩, h.req,
        Bool.and_false, ← h.req]
    obtain ⟨hprogress, hwrLag, hrdLag⟩ := h.goes_on hv hf hc hld hdata (by rw [ht]; exact hld)
      (by rw [ht]; exact h.req) (by rw [ht]; exact hdata)
    refine .inl ⟨ht, hprogress, hstage, by omega, ?_, hwrLag, hrdLag, ?_⟩
    · rw [hsize, System.next_half]
      cases hhalf : s.half with
      | false =>
        rw [hhalf] at hupper
        exact Nat.succ_le_succ hupper
      | true =>
        -- The counter would show the empty queue by now.
        by_contra hlate
        refine hleave ⟨hhalf, Fifo.shown_of_all (h.wrLag.all ?_) hcount⟩
        rw [emptyAt] at hlate
        simp at hlate
        omega
    · exact (congrArg Tetris.writeReq ht).trans h.req

theorem Pass.wait_next {x : WriteSlot} (hc : Counted coincident s.wrFifo)
    (hs : s.tetris.state = .fw x) (hld : s.tetris.writeLd = false)
    (hdata : s.tetris.writedata = x.data)
    (h : (∃ e < 3, Early coincident x (x.before m) e s v) ∨
      (∃ j, Filled x (x.before m) j s v) ∨ ∃ k, Emptied coincident x (x.before m) k s v) :
    Pass coincident m (s.next coincident key) v' := by
  obtain ⟨e, he, h⟩ | ⟨j, h⟩ | ⟨k, h⟩ := h
  · obtain ⟨ht, h⟩ := h.next hv hf he hs hld hdata
    refine .wait x ((congrArg Tetris.state ht).trans hs) ((congrArg Tetris.writeLd ht).trans hld)
      ((congrArg Tetris.writedata ht).trans hdata) ?_
    by_cases he' : e + 1 < 3
    · exact .inl ⟨e + 1, he', h⟩
    · obtain rfl : e = 2 := by omega
      exact .inr (.inl ⟨0, h.filled (hc.next hf)⟩)
  · have ht : s.nextTetris key = s.tetris := h.nextTetris_eq hs
    exact .wait x ((congrArg Tetris.state ht).trans hs) ((congrArg Tetris.writeLd ht).trans hld)
      ((congrArg Tetris.writedata ht).trans hdata) (.inr (h.next hv hf hs hld hdata))
  · obtain ⟨ht, h⟩ | ⟨ht, h⟩ := h.next hv hf hc hs hld hdata
    · exact .wait x ((congrArg Tetris.state ht).trans hs)
        ((congrArg Tetris.writeLd ht).trans hld) ((congrArg Tetris.writedata ht).trans hdata)
        (.inr (.inr ⟨k + 1, h⟩))
    · obtain ⟨y, hy, hbefore⟩ | ⟨hpr, hafter⟩ := x.before_of_after m
      · refine .prepare y ((congrArg Tetris.state ht).trans hy)
          ((congrArg Tetris.writeLd ht).trans hld) (congrArg Tetris.writeReq ht) (.inr ⟨k + 1, ?_⟩)
        rw [hbefore]
        exact h
      · refine .finished ((congrArg Tetris.state ht).trans hpr) ⟨k + 1, ?_⟩
        rw [hafter]
        exact h

end Cycle

/-! ## The whole pass -/

/-- The test machine has not reached the reads. -/
def FsmState.inWrites : FsmState → Bool
  | pr _ | r _ | fr _ => false
  | _ => true

def InWrites (s : System) (_ : Bool) : Prop := s.tetris.state.inWrites = true

instance (s : System) (key : Bool) : Decidable (InWrites s key) :=
  inferInstanceAs (Decidable (_ = true))

/-- The system in `Hold1`, long after the SDRAM was initialised: whatever the controller reads
ahead or refreshes, no write is left over. -/
structure AtRest (s : System) : Prop where
  state : s.tetris.state = .hold1
  writeLd : s.tetris.writeLd = false
  writeReq : s.tetris.writeReq = false
  words : s.wrFifo.words = []
  lag : ∀ c ∈ s.wrFifo.rdLag, c = 0
  phase : ∃ p, Follows s.ctl s.device p ∧ p.stage.writes = false

/-- The invariant of a pass. -/
def PassInv (coincident : Bool) (m : Memory) (s : System) : Prop :=
  Counted coincident s.wrFifo ∧ ∃ v, s.At v ∧ Pass coincident m s v

theorem AtRest.passInv {coincident : Bool} {s : System} (hs : AtRest s)
    (hc : Counted coincident s.wrFifo) : PassInv coincident s.device.mem s := by
  obtain ⟨p, hp, hstage⟩ := hs.phase
  exact ⟨hc, viewOf s.ctl s.device p, ⟨p, hp, rfl⟩,
    .hold (.inl hs.state) hs.writeLd hs.writeReq ⟨hs.words, hs.lag, hstage, rfl⟩⟩

theorem PassInv.next {coincident : Bool} {m : Memory} {s : System} (key : Bool)
    (h : PassInv coincident m s) (hs : InWrites s key) :
    PassInv coincident m (s.next coincident key) := by
  obtain ⟨hc, v, hat, h⟩ := h
  have hf := hat.wrFifo coincident key
  obtain ⟨v', hat', hv⟩ := hat.next coincident key
  refine ⟨hc.next hf, v', hat', ?_⟩
  cases h with
  | hold hs hld hreq h => exact Pass.hold_next hv hf hs hld hreq h
  | prepare x hs hld hreq h => exact Pass.prepare_next hv hf hs hld hreq h
  | load x hs hld hreq haddr h => exact Pass.load_next hv hf hs hld hreq haddr h
  | wait x hs hld hdata h => exact Pass.wait_next hv hf hc hs hld hdata h
  | finished hpr =>
    rw [InWrites, hpr] at hs
    cases hs

theorem PassInv.leaving {coincident : Bool} {m : Memory} {s : System}
    (h : PassInv coincident m s) (hs : s.tetris.state = .pr .a) :
    ∃ p, Follows s.ctl s.device p ∧
      ∃ k, Leaving (WriteSlot.afterPass m) s (viewOf s.ctl s.device p) k := by
  obtain ⟨-, v, ⟨p, hp, rfl⟩, h⟩ := h
  cases h with
  | hold hs' => obtain hs' | hs' := hs' <;> rw [hs'] at hs <;> cases hs
  | finished _ h => exact ⟨p, hp, h⟩
  | _ x hs' => rw [hs'] at hs; cases hs

/-- After every pass both copies of the last word have been written. -/
theorem leaving_of_pass {coincident : Bool} {s : System} (hs : AtRest s)
    (hc : Counted coincident s.wrFifo) {keys : List Bool}
    (hkeys : Along (System.next coincident) InWrites s keys)
    (hend : (run (System.next coincident) s keys).tetris.state = .pr .a) :
    ∃ p, Follows (run (System.next coincident) s keys).ctl
        (run (System.next coincident) s keys).device p ∧
      ∃ k, Leaving (WriteSlot.afterPass s.device.mem) (run (System.next coincident) s keys)
        (viewOf (run (System.next coincident) s keys).ctl
          (run (System.next coincident) s keys).device p) k :=
  PassInv.leaving
    (Along.invariant_self (fun _ key h hg => h.next key hg) (hs.passInv hc) hkeys) hend

/-- A pass writes the four words and nothing else exactly if the words after them are there
already. -/
theorem pass_mem_iff {coincident : Bool} {s : System} (hs : AtRest s)
    (hc : Counted coincident s.wrFifo) {keys : List Bool}
    (hkeys : Along (System.next coincident) InWrites s keys)
    (hend : (run (System.next coincident) s keys).tetris.state = .pr .a) :
    (run (System.next coincident) s keys).device.mem = WriteSlot.fourWords s.device.mem ↔
      ∀ x : WriteSlot, s.device.mem (x.addr + 1) = x.data := by
  obtain ⟨p, -, k, hleaving⟩ := leaving_of_pass hs hc hkeys hend
  have hmem : (run (System.next coincident) s keys).device.mem =
      WriteSlot.afterPass s.device.mem := hleaving.mem
  rw [hmem]
  exact WriteSlot.afterPass_eq_iff s.device.mem

/-! ### From power-up -/

theorem powered_atRest (mem : Memory) (host core : ℕ) : AtRest (.powered mem host core) where
  state := rfl
  writeLd := rfl
  writeReq := rfl
  words := rfl
  lag _ hc := List.eq_of_mem_replicate hc
  phase := ⟨_, System.powered_follows mem host core, rfl⟩

/-- The key is held for one clock of the test machine. -/
def pressed (n : ℕ) : List Bool := true :: true :: List.replicate n false

theorem pass_mem_iff_powered :
    (run (System.next false) (.powered (WriteSlot.afterPass fun _ => 0) 2 1)
      (pressed 147)).device.mem = WriteSlot.fourWords (WriteSlot.afterPass fun _ => 0) :=
  (pass_mem_iff (powered_atRest _ 2 1) (by decide) (by decide +kernel)
    (by decide +kernel)).mpr (by rintro (_ | _ | _ | _) <;> decide)

/-- From an empty memory, a pass also writes to `0x5654`. -/
theorem pass_overwrites :
    AtRest (.powered (fun _ => 0) 2 1) ∧
      Along (System.next false) InWrites (.powered (fun _ => 0) 2 1) (pressed 147) ∧
      (run (System.next false) (.powered (fun _ => 0) 2 1) (pressed 147)).tetris.state = .pr .a ∧
      (run (System.next false) (.powered (fun _ => 0) 2 1) (pressed 147)).device.mem 0x5654 =
        0x6293 ∧
      (run (System.next false) (.powered (fun _ => 0) 2 1) (pressed 147)).device.mem ≠
        WriteSlot.fourWords fun _ => 0 := by
  have hrun : Along (System.next false) InWrites (.powered (fun _ => 0) 2 1) (pressed 147) ∧
      (run (System.next false) (.powered (fun _ => 0) 2 1) (pressed 147)).tetris.state = .pr .a ∧
      (run (System.next false) (.powered (fun _ => 0) 2 1) (pressed 147)).device.mem 0x5654 =
        0x6293 := by decide +kernel
  obtain ⟨hkeys, hend, hword⟩ := hrun
  refine ⟨powered_atRest _ 2 1, hkeys, hend, hword, fun h => ?_⟩
  rw [h] at hword
  exact absurd hword (by decide)

end TetrisFpga.Sdram
