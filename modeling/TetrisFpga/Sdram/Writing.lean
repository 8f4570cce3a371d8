import TetrisFpga.Sdram.View

/-!
# A word on its way to the memory

The test machine raises `write_req` for one of its clocks, in which the write FIFO has two
edges, so each word is pushed twice. `Progress` follows the two copies: `n` of them have been
pushed, `j` have been written, and the stage of the controller says where the next one is.
-/

namespace TetrisFpga.Sdram
open Machine

/-! ## Memories -/

/-- The memory with one word replaced. -/
def Memory.store (m : Memory) (a : ADDR) (w : WORD) : Memory := fun b => if b = a then w else m b

namespace WriteSlot

/-- The address that copy `j` goes to. -/
def word (x : WriteSlot) (j : ℕ) : ADDR := x.addr + BitVec.ofNat 25 j

/-- The memory after `n` copies. -/
def stored (x : WriteSlot) (m : Memory) : ℕ → Memory
  | 0 => m
  | n + 1 => (x.stored m n).store (x.word n) x.data

theorem word_succ (x : WriteSlot) (j : ℕ) : x.word j + 1 = x.word (j + 1) := by
  rw [word, word, BitVec.ofNat_add, BitVec.add_assoc]
  rfl

theorem word_lt (x : WriteSlot) {j : ℕ} (hj : j < 2) : x.word j < 0x1fffffe := by
  obtain rfl | rfl : j = 0 ∨ j = 1 := by omega
  all_goals cases x <;> decide

end WriteSlot

/-! ## Stages of a write -/

namespace Stage

/-- A write has been started and is not over. -/
def writes : Stage → Bool
  | pending .write | run .write _ => true
  | _ => false

/-- 1 if a write runs since `i` cycles or longer. -/
def passed (i : ℕ) : Stage → ℕ
  | run .write k => if i ≤ k then 1 else 0
  | _ => 0

/-- 1 if a write ends with this cycle. -/
def wrote (s : Stage) : ℕ := if s = run .write 9 then 1 else 0

theorem passed_le_one (i : ℕ) (s : Stage) : s.passed i ≤ 1 := by
  obtain _ | _ | ⟨_ | _, k⟩ := s <;> simp only [passed] <;> try split
  all_goals omega

theorem passed_succ (i : ℕ) (s : Stage) :
    s.passed (i + 1) + (if s = run .write i then 1 else 0) = s.passed i := by
  obtain _ | _ | ⟨_ | _, k⟩ := s <;> simp [passed]
  grind

theorem passed_eq_zero {s : Stage} (i : ℕ) (h : s.writes = false) : s.passed i = 0 := by
  obtain _ | _ | ⟨_ | _, k⟩ := s <;> first | rfl | cases h

namespace Next

variable {start : Option Op} {s s' : Stage}

theorem passed_eq (h : Next start s s') {i : ℕ} (hi : i ≤ 9) :
    s'.passed (i + 1) + s.wrote = s.passed i := by
  cases h with
  | step o k hk =>
    cases o with
    | write =>
      have hk' : k ≠ 9 := by omega
      simp [passed, Stage.wrote, hk']
    | read => rfl
  | begin o => cases o <;> simp [passed, Stage.wrote]
  | wrote => simp [passed, Stage.wrote, hi]
  | _ => rfl

/-- A write in progress has been started in this cycle or goes on. -/
theorem of_writes (h : Next start s s') (hs : s'.writes = true) :
    start = some .write ∧ s.wrote = 0 ∨ start = none ∧ s.writes = true ∧ s.wrote = 0 := by
  cases h with
  | start o => cases o <;> simp_all [writes, Stage.wrote]
  | wait o | begin o => cases o <;> simp_all [writes, Stage.wrote]
  | step o k hk =>
    have hk' : k ≠ 9 := by omega
    cases o <;> simp_all [writes, Stage.wrote]
  | _ => cases hs

theorem run_write {k : ℕ} (h : Next start (run .write k) s') (hk : k < 9) :
    s' = .run .write (k + 1) := by
  cases h with
  | step => rfl
  | wrote => omega

theorem run_write_lt {k : ℕ} (h : Next start (run .write k) s') (hs : s'.writes = true) :
    k < 9 := by
  cases h with
  | step _ _ hk => exact hk
  | wrote => cases hs

theorem run_write_last (h : Next start (run .write 9) s') : s' = .idle := by
  cases h with
  | step _ _ hk => omega
  | wrote => rfl

/-- Without a start there is no write where there was none. -/
theorem writes_eq_false (h : Next start s s') (hs : s.writes = false)
    (hstart : start ≠ some .write) : s'.writes = false := by
  by_contra hs'
  obtain ⟨hw, -⟩ | ⟨-, hw, -⟩ := h.of_writes (by simpa using hs')
  · exact hstart hw
  · simp [hw] at hs

end Next

end Stage

/-! ## The write FIFO in one cycle -/

section WrCycle

variable {coincident pops : Bool} {t t' : Tetris} {f : Fifo WORD}

/-- The test machine at the edge of `pll_clk`. -/
def hostAt (coincident : Bool) (t t' : Tetris) : Tetris := if coincident then t else t'

theorem hostAt_field {β : Type} (f : Tetris → β) {b : β} (h : f t = b) (h' : f t' = b) :
    f (hostAt coincident t t') = b := by
  cases coincident
  · exact h'
  · exact h

@[simp] theorem hostAt_self : hostAt coincident t t = t := ite_self t

/-- The words after the edge of `CLK`. -/
def afterPop (pops : Bool) (f : Fifo WORD) : List WORD := if pops then f.words.tail else f.words

@[simp] theorem wrCycle_wrLag_length :
    (wrCycle coincident t t' pops f).wrLag.length = f.wrLag.length := by
  cases h' : t'.writeLd <;> simp [wrCycle, Fifo.clear, Fifo.wrEdge, Fifo.rdEdge, h']

@[simp] theorem wrCycle_rdLag_length :
    (wrCycle coincident t t' pops f).rdLag.length = f.rdLag.length := by
  cases h' : t'.writeLd <;> simp [wrCycle, Fifo.clear, Fifo.wrEdge, Fifo.rdEdge, h']

theorem wrCycle_clear (h : t'.writeLd = true) :
    (wrCycle coincident t t' pops f).words = [] := by
  simp [wrCycle, Fifo.clear, h]

/-- Under `write_ld` nothing is popped, and a coincident edge of `pll_clk` pushes nothing. -/
theorem wrCycle_words_of_load (h : t.writeLd = true) (h' : t'.writeLd = false)
    (hf : f.words = []) : (wrCycle coincident t t' pops f).words =
      if coincident = false ∧ t'.writeReq = true then [t'.writedata] else [] := by
  cases coincident <;> simp [wrCycle, Fifo.clear, h', h, Fifo.wrEdge, Fifo.rdEdge, hf, usedwBits]

variable (h' : t'.writeLd = false)
include h'

theorem wrCycle_rdLag : (wrCycle coincident t t' pops f).rdLag =
    Fifo.shift f.rdLag (f.words.length % 2 ^ usedwBits) := by
  simp only [wrCycle, Fifo.clear, h']
  rfl

variable (h : t.writeLd = false)
include h

theorem wrCycle_words : (wrCycle coincident t t' pops f).words =
    if (hostAt coincident t t').writeReq = true ∧ (afterPop pops f).length < 2 ^ usedwBits then
      afterPop pops f ++ [(hostAt coincident t t').writedata] else afterPop pops f := by
  cases coincident <;>
    simp [wrCycle, Fifo.clear, h', h, Fifo.wrEdge, Fifo.rdEdge, afterPop, hostAt]

theorem wrCycle_q : (wrCycle coincident t t' pops f).q =
    if pops then f.words.headD f.q else f.q := by
  simp [wrCycle, Fifo.clear, h', h, Fifo.wrEdge, Fifo.rdEdge]

theorem wrCycle_wrLag : (wrCycle coincident t t' pops f).wrLag = Fifo.shift f.wrLag
    ((if coincident then f.words else afterPop pops f).length % 2 ^ usedwBits) := by
  simp only [wrCycle, Fifo.clear, h', h, Fifo.wrEdge, Fifo.rdEdge, Fifo.count, afterPop]
  cases coincident <;> simp

end WrCycle

/-! ## Two copies -/

/-- `n` copies of the word of `x` have been pushed and `j` have been written. -/
structure Progress (x : WriteSlot) (m : Memory) (n j : ℕ) (v : View) (f : Fifo WORD) : Prop where
  address : v.rWrAddr = x.word j
  target : v.stage.writes = true → v.mAddr = x.word j
  words : f.words = List.replicate (n - (j + v.stage.passed 5)) x.data
  popped : v.stage.passed 5 = 1 → f.q = x.data
  mem : v.mem = x.stored m (j + v.stage.passed 6)

namespace Progress

variable {x : WriteSlot} {m : Memory} {n j : ℕ} {v v' : View} {f : Fifo WORD}
  {coincident : Bool} {t t' : Tetris}

theorem afterPop_eq (h : Progress x m n j v f) :
    afterPop (v.stage = .run .write 4) f =
      List.replicate (n - (j + v.stage.passed 4)) x.data := by
  have hsucc : v.stage.passed 5 + _ = v.stage.passed 4 := v.stage.passed_succ 4
  rw [afterPop, h.words]
  split <;> rename_i hs <;> simp only [decide_eq_true_eq] at hs
  · rw [if_pos hs] at hsucc
    rw [List.tail_replicate, ← hsucc]
    congr 1
  · rw [if_neg hs] at hsucc
    rw [← hsucc, Nat.add_zero]

/-- One cycle: a copy may be pushed, popped, and written. -/
theorem next (h : Progress x m n j v f) (hcount : j + v.stage.passed 4 ≤ n) (hn : n ≤ 2)
    (hj : j < 2) (hld : t.writeLd = false) (hld' : t'.writeLd = false)
    (hdata : (hostAt coincident t t').writedata = x.data) {rusedw wusedw : ℕ}
    (hv : v.Next t rusedw wusedw f.q v') :
    Progress x m (n + (hostAt coincident t t').writeReq.toNat) (j + v.stage.wrote) v'
      (wrCycle coincident t t' (v.stage = .run .write 4) f) where
  address := by
    rw [hv.rWrAddr, h.address, advance, if_neg (by simp [hld])]
    by_cases hs : v.stage = .run .write 9
    · rw [if_pos hs, if_pos (x.word_lt hj), Stage.wrote, if_pos hs, x.word_succ]
    · rw [if_neg hs, Stage.wrote, if_neg hs, Nat.add_zero]
  target := by
    intro hw
    have hmAddr := hv.mAddr
    obtain ⟨hstart, hw0⟩ | ⟨hstart, hw, hw0⟩ := hv.stage.of_writes hw
    · rw [hstart] at hmAddr
      rw [hmAddr, hw0]
      exact h.address
    · rw [hstart] at hmAddr
      rw [hmAddr, hw0]
      exact h.target hw
  words := by
    have hpassed : v'.stage.passed 5 + v.stage.wrote = v.stage.passed 4 :=
      hv.stage.passed_eq (by omega)
    rw [wrCycle_words hld' hld, h.afterPop_eq, hdata, Nat.add_assoc, Nat.add_comm v.stage.wrote,
      hpassed]
    cases (hostAt coincident t t').writeReq with
    | false => simp
    | true =>
      have hlen : n - (j + v.stage.passed 4) < 2 ^ usedwBits := by
        have : n - (j + v.stage.passed 4) ≤ 2 := by omega
        exact Nat.lt_of_le_of_lt this (by decide)
      rw [if_pos ⟨rfl, by simpa using hlen⟩, ← List.replicate_succ']
      congr 1
      simp only [Bool.toNat_true]
      omega
  popped := by
    intro hp
    have hpassed : v'.stage.passed 5 + v.stage.wrote = v.stage.passed 4 :=
      hv.stage.passed_eq (by omega)
    have hsucc : v.stage.passed 5 + _ = v.stage.passed 4 := v.stage.passed_succ 4
    have hle := v.stage.passed_le_one 4
    rw [wrCycle_q hld' hld]
    by_cases hs : v.stage = .run .write 4
    · rw [if_pos hs] at hsucc
      -- There is a word to pop.
      obtain ⟨i, hi⟩ : ∃ i, n - (j + v.stage.passed 5) = i + 1 :=
        ⟨n - (j + v.stage.passed 5) - 1, by omega⟩
      rw [if_pos (by simpa using hs), h.words, hi]
      rfl
    · rw [if_neg hs] at hsucc
      rw [if_neg (by simpa using hs)]
      exact h.popped (by omega)
  mem := by
    have hpassed : v'.stage.passed 6 + v.stage.wrote = v.stage.passed 5 :=
      hv.stage.passed_eq (by omega)
    have hsucc : v.stage.passed 6 + _ = v.stage.passed 5 := v.stage.passed_succ 5
    rw [hv.mem, Nat.add_assoc, Nat.add_comm v.stage.wrote, hpassed]
    by_cases hs : v.stage = .run .write 5
    · rw [if_pos hs] at hsucc
      have h5 : v.stage.passed 5 = 1 := by rw [hs]; rfl
      have h6 : v.stage.passed 6 = 0 := by omega
      rw [h.popped h5, h.target (by rw [hs]; rfl), h.mem, h5, h6]
      funext a
      simp [hs, WriteSlot.stored, Memory.store]
    · rw [if_neg hs] at hsucc
      rw [h.mem, ← hsucc, Nat.add_zero]
      funext a
      exact if_neg fun ha => hs ha.1

end Progress

end TetrisFpga.Sdram
