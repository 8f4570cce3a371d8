import TetrisFpga.Sdram.Hosted

/-!
# The streams of the two ports

From a load on the words that the host pushes into the write FIFO are stored one after the other
from the address loaded, as long as the counter of the FIFO does not lag by more than five
cycles at the side of the controller: `Streaming` says where each of them is. In the same way
`Delivering` says which words are in the read FIFO, when the memory stays as it is. The reads
that the controller starts ahead are never more than two.
-/

namespace TetrisFpga.Sdram
open Machine

/-! ## The words at the side of the host -/

/-- The word that the host pushes in a cycle, if the write FIFO takes it. -/
def System.pushed (coincident : Bool) (s : System) (t' : Tetris) : List WORD :=
  let host := hostAt coincident s.tetris t'
  if host.writeReq && !host.writeLd &&
      (afterPop (s.ctl.pops && !s.tetris.writeLd) s.wrFifo).length < 2 ^ usedwBits then
    [host.writedata]
  else []

/-- The word that the host takes in a cycle, if the read FIFO has one. -/
def System.taken (coincident : Bool) (s : System) (t' : Tetris) : List WORD :=
  let host := hostAt coincident s.tetris t'
  if host.readReq && !host.readLd then
    (afterPush (s.ctl.pushes && !s.tetris.readLd) s.ctl.path.mDataOut s.rdFifo).head?.toList
  else []

/-- The words pushed in a run, and the words taken. -/
def System.sent (coincident : Bool) : System → List Tetris → List WORD :=
  collect (System.drive coincident) (System.pushed coincident)

def System.received (coincident : Bool) : System → List Tetris → List WORD :=
  collect (System.drive coincident) (System.taken coincident)

/-- Word `k` of a block at `a`. -/
def wordAt (a : ADDR) (k : ℕ) : ADDR := a + BitVec.ofNat 25 k

theorem wordAt_succ (a : ADDR) (k : ℕ) : wordAt a k + 1 = wordAt a (k + 1) := by
  rw [wordAt, wordAt, BitVec.ofNat_add, ← BitVec.add_assoc]
  rfl

theorem toNat_wordAt {a : ADDR} {k : ℕ} (h : a.toNat + k < 2 ^ 25) :
    (wordAt a k).toNat = a.toNat + k := by
  rw [wordAt, BitVec.toNat_add, BitVec.toNat_ofNat]
  omega

theorem wordAt_lt {a : ADDR} {k : ℕ} (h : a.toNat + k < 0x1fffffe) :
    wordAt a k < 0x1fffffe := by
  have hk : (wordAt a k).toNat = a.toNat + k := toNat_wordAt (by omega)
  rw [BitVec.lt_def, hk]
  exact h

/-- The words of a block are at different addresses. -/
theorem wordAt_inj {a : ADDR} {n i j : ℕ} (h : a.toNat + n ≤ 0x1fffffe) (hi : i < n) (hj : j < n)
    (heq : wordAt a i = wordAt a j) : i = j := by
  have hnat := congrArg BitVec.toNat heq
  rw [toNat_wordAt (by omega), toNat_wordAt (by omega)] at hnat
  omega

/-! ## Words on their way to the memory -/

namespace Stage

/-- For how many cycles no word has left the write FIFO, up to five. -/
def settled : Stage → ℕ
  | run .write k => if 5 ≤ k then k - 5 else 5
  | _ => 5

theorem Next.settled_le {start : Option Op} {st st' : Stage} (h : Next start st st')
    (h4 : st ≠ run .write 4) : st'.settled ≤ st.settled + 1 := by
  cases h with
  | start o => cases o <;> simp [settled]
  | wait o | begin o => cases o <;> simp [settled]
  | step o k hk =>
    cases o with
    | write =>
      have hk4 : k ≠ 4 := fun h => h4 (congrArg _ h)
      simp only [settled]
      split <;> split <;> omega
    | read => simp [settled]
  | _ => simp [settled]

end Stage

theorem View.of_start_write {v : View} {t : Tetris} {rusedw wusedw : ℕ}
    (h : v.start t rusedw wusedw = some .write) : v.stage = .idle ∧ 1 ≤ rusedw := by
  unfold View.start at h
  split at h
  · rename_i hfree
    refine ⟨hfree.1, ?_⟩
    by_contra hnone
    rw [if_neg hnone] at h
    split at h <;> cases h
  · cases h

/-- The words of `ws` are on their way to the addresses from `a` on: `j` of them have been
written, and `m` is the memory without them. -/
structure Streaming (a : ADDR) (m : Memory) (ws : List WORD) (j : ℕ) (s : System) (v : View) :
    Prop where
  count : j ≤ ws.length
  address : v.rWrAddr = wordAt a j
  target : v.stage.writes = true → v.mAddr = wordAt a j ∧ j < ws.length
  words : s.wrFifo.words = ws.drop (j + v.stage.passed 5)
  popped : v.stage.passed 5 = 1 → ws[j]? = some s.wrFifo.q
  mem : v.mem = fill (wordAt a) m (ws.take (j + v.stage.passed 6))
  settled : Fifo.Recent (· ≤ s.wrFifo.words.length) v.stage.settled s.wrFifo.rdLag

/-- The counters lag by at most five cycles at the side of the controller. -/
structure Prompt (s : System) : Prop where
  wrFifo : s.wrFifo.rdLag.length ≤ 5
  rdFifo : s.rdFifo.wrLag.length ≤ 5

section Cycle

variable {coincident : Bool} {s : System} {v v' : View} {t' : Tetris}

theorem rdCycle_wrLag_length {t : Tetris} {pushes : Bool} {data : WORD} {f : Fifo WORD} :
    (rdCycle coincident t t' pushes data f).wrLag.length = f.wrLag.length := by
  cases h' : t'.readLd <;> simp [rdCycle, Fifo.clear, Fifo.wrEdge, Fifo.rdEdge, h']

theorem Prompt.drive (h : Prompt s) : Prompt (s.drive coincident t') where
  wrFifo := Nat.le_trans (Nat.le_of_eq wrCycle_rdLag_length) h.wrFifo
  rdFifo := Nat.le_trans (Nat.le_of_eq rdCycle_wrLag_length) h.rdFifo

theorem System.At.wrFifo_drive (hat : s.At v) : (s.drive coincident t').wrFifo =
    wrCycle coincident s.tetris t' (v.stage = .run .write 4) s.wrFifo := by
  rw [← hat.pops]
  rfl

namespace Streaming

variable {a : ADDR} {m : Memory} {ws : List WORD} {j : ℕ}

theorem passed_four_le (h : Streaming a m ws j s v) : j + v.stage.passed 4 ≤ ws.length := by
  have hle := v.stage.passed_le_one 4
  cases hw : v.stage.writes with
  | true =>
    have hj := (h.target hw).2
    omega
  | false =>
    rw [Stage.passed_eq_zero 4 hw]
    exact h.count

theorem afterPop_eq (h : Streaming a m ws j s v) :
    afterPop (v.stage = .run .write 4) s.wrFifo = ws.drop (j + v.stage.passed 4) := by
  have hsucc : v.stage.passed 5 + _ = v.stage.passed 4 := v.stage.passed_succ 4
  rw [afterPop, h.words, ← hsucc]
  by_cases h4 : v.stage = .run .write 4
  · rw [if_pos (by simpa using h4), if_pos h4, List.tail_drop]
    rfl
  · rw [if_neg (by simpa using h4), if_neg h4]
    rfl

variable (hv : v.Next s.tetris (s.wrFifo.rdusedw usedwBits) (s.rdFifo.wrusedw usedwBits) s.wrFifo.q
    v')
  (hat : s.At v) (hld : s.tetris.writeLd = false) (hld' : t'.writeLd = false)

include hat hld hld' in
theorem pushed_eq : s.pushed coincident t' =
    if (hostAt coincident s.tetris t').writeReq = true ∧
        (afterPop (v.stage = .run .write 4) s.wrFifo).length < 2 ^ usedwBits then
      [(hostAt coincident s.tetris t').writedata] else [] := by
  have hhost : (hostAt coincident s.tetris t').writeLd = false :=
    hostAt_field Tetris.writeLd hld hld'
  simp [System.pushed, hhost, hld, hat.pops]

include hat hld hld' in
theorem words_next (h : Streaming a m ws j s v) : (s.drive coincident t').wrFifo.words =
    (ws ++ s.pushed coincident t').drop (j + v.stage.passed 4) := by
  rw [hat.wrFifo_drive, wrCycle_words hld' hld, pushed_eq hat hld hld',
    List.drop_append_of_le_length h.passed_four_le, h.afterPop_eq]
  split
  · rfl
  · rw [List.append_nil]

include hv in
/-- A write is started for a word that is there. -/
theorem of_start (h : Streaming a m ws j s v) (hlag : Prompt s)
    (hstart : v.start s.tetris (s.wrFifo.rdusedw usedwBits) (s.rdFifo.wrusedw usedwBits) =
      some .write) : v'.mAddr = wordAt a j ∧ j < ws.length := by
  obtain ⟨hidle, hone⟩ := View.of_start_write hstart
  have hsettled := h.settled
  rw [hidle] at hsettled
  have hcount : s.wrFifo.count usedwBits ≤ s.wrFifo.words.length := Nat.mod_le _ _
  have hshown : s.wrFifo.rdusedw usedwBits ≤ s.wrFifo.words.length :=
    Fifo.shown_of_all (hsettled.all hlag.wrFifo) hcount
  have hlen : s.wrFifo.words.length = ws.length - j := by
    rw [h.words, hidle]
    exact List.length_drop
  have hmAddr := hv.mAddr
  rw [hstart] at hmAddr
  exact ⟨hmAddr.trans h.address, by omega⟩

include hv in
theorem target_next (h : Streaming a m ws j s v) (hlag : Prompt s) (ys : List WORD)
    (hw : v'.stage.writes = true) :
    v'.mAddr = wordAt a (j + v.stage.wrote) ∧ j + v.stage.wrote < (ws ++ ys).length := by
  rw [List.length_append]
  obtain ⟨hstart, hw0⟩ | ⟨hstart, hwrites, hw0⟩ := hv.stage.of_writes hw
  · obtain ⟨hmAddr, hj⟩ := h.of_start hv hlag hstart
    rw [hw0]
    exact ⟨hmAddr, by omega⟩
  · have hmAddr := hv.mAddr
    rw [hstart] at hmAddr
    obtain ⟨htarget, hj⟩ := h.target hwrites
    rw [hw0]
    exact ⟨hmAddr.trans htarget, by omega⟩

include hv in
theorem address_next (h : Streaming a m ws j s v) (hld : s.tetris.writeLd = false)
    (hend : a.toNat + ws.length ≤ 0x1fffffe) : v'.rWrAddr = wordAt a (j + v.stage.wrote) := by
  rw [hv.rWrAddr, h.address, advance, if_neg (by simp [hld])]
  by_cases h9 : v.stage = .run .write 9
  · have hj := (h.target (Stage.writes_of_run h9)).2
    rw [if_pos h9, if_pos (wordAt_lt (by omega)), Stage.wrote, if_pos h9, wordAt_succ]
  · rw [if_neg h9, Stage.wrote, if_neg h9, Nat.add_zero]

include hv hat hld hld' in
theorem popped_next (h : Streaming a m ws j s v) (ys : List WORD)
    (hp : v'.stage.passed 5 = 1) :
    (ws ++ ys)[j + v.stage.wrote]? = some (s.drive coincident t').wrFifo.q := by
  have hpassed : v'.stage.passed 5 + v.stage.wrote = v.stage.passed 4 :=
    hv.stage.passed_eq (by omega)
  have hsucc : v.stage.passed 5 + _ = v.stage.passed 4 := v.stage.passed_succ 4
  have hle := v.stage.passed_le_one 4
  have hw0 : v.stage.wrote = 0 := by omega
  have hq : ws[j]? = some (s.drive coincident t').wrFifo.q := by
    rw [hat.wrFifo_drive, wrCycle_q hld' hld]
    by_cases h4 : v.stage = .run .write 4
    · -- The word popped is the next one.
      have hj := (h.target (Stage.writes_of_run h4)).2
      rw [if_pos (by simpa using h4), h.words, h4]
      simp [Stage.passed, hj, List.headD_eq_head?_getD]
    · rw [if_neg (by simpa using h4)]
      rw [if_neg h4] at hsucc
      exact h.popped (by omega)
  obtain ⟨hj, -⟩ := List.getElem?_eq_some_iff.mp hq
  rw [hw0, Nat.add_zero, List.getElem?_append_left hj]
  exact hq

include hv in
theorem mem_next (h : Streaming a m ws j s v) (ys : List WORD) :
    v'.mem = fill (wordAt a) m ((ws ++ ys).take (j + v.stage.wrote + v'.stage.passed 6)) := by
  have hpassed : v'.stage.passed 6 + v.stage.wrote = v.stage.passed 5 :=
    hv.stage.passed_eq (by omega)
  have hsucc : v.stage.passed 6 + _ = v.stage.passed 5 := v.stage.passed_succ 5
  have hfive : v.stage.passed 5 + _ = v.stage.passed 4 := v.stage.passed_succ 4
  have hle := h.passed_four_le
  have htake : (ws ++ ys).take (j + v.stage.wrote + v'.stage.passed 6) =
      ws.take (j + v.stage.passed 5) := by
    rw [show j + v.stage.wrote + v'.stage.passed 6 = j + v.stage.passed 5 by omega]
    exact List.take_append_of_le_length (by omega)
  rw [htake]
  by_cases h5 : v.stage = .run .write 5
  · have hp5 : v.stage.passed 5 = 1 := by rw [h5]; rfl
    have hp6 : v.stage.passed 6 = 0 := by rw [h5]; rfl
    have htarget := (h.target (Stage.writes_of_run h5)).1
    rw [hp5, fill_take_succ (h.popped hp5), hv.mem, h.mem, hp6, htarget]
    funext x
    simp [Function.update_apply, h5]
  · rw [if_neg h5] at hsucc
    rw [mem_eq hv h5, h.mem, ← hsucc, Nat.add_zero]

include hv hat hld hld' in
theorem settled_next (h : Streaming a m ws j s v) :
    Fifo.Recent (· ≤ (s.drive coincident t').wrFifo.words.length) v'.stage.settled
      (s.drive coincident t').wrFifo.rdLag := by
  by_cases h4 : v.stage = .run .write 4
  · have hstage := hv.stage
    rw [h4] at hstage
    rw [hstage.run_write (by omega)]
    exact Fifo.recent_zero
  · have hgrow : s.wrFifo.words.length ≤ (s.drive coincident t').wrFifo.words.length := by
      have hsame : afterPop (v.stage = .run .write 4) s.wrFifo = s.wrFifo.words :=
        if_neg (by simpa using h4)
      rw [hat.wrFifo_drive, wrCycle_words hld' hld, hsame]
      split
      · exact (List.length_append ..).symm ▸ Nat.le_add_right _ _
      · exact Nat.le_refl _
    have hlag : (s.drive coincident t').wrFifo.rdLag =
        Fifo.shift s.wrFifo.rdLag (s.wrFifo.words.length % 2 ^ usedwBits) := by
      rw [hat.wrFifo_drive, wrCycle_rdLag hld']
    rw [hlag]
    have hrecent : Fifo.Recent (· ≤ (s.drive coincident t').wrFifo.words.length) v.stage.settled
        s.wrFifo.rdLag := fun c hc => Nat.le_trans (h.settled c hc) hgrow
    exact (hrecent.shift (Nat.le_trans (Nat.mod_le _ _) hgrow)).mono (hv.stage.settled_le h4)

include hv hat hld hld' in
/-- One cycle: a word may be pushed, popped, and written. -/
theorem next (h : Streaming a m ws j s v) (hlag : Prompt s)
    (hend : a.toNat + ws.length ≤ 0x1fffffe) :
    Streaming a m (ws ++ s.pushed coincident t') (j + v.stage.wrote) (s.drive coincident t')
      v' where
  count := by
    have hle := h.passed_four_le
    have hpassed : v'.stage.passed 5 + v.stage.wrote = v.stage.passed 4 :=
      hv.stage.passed_eq (by omega)
    rw [List.length_append]
    omega
  address := h.address_next hv hld hend
  target := h.target_next hv hlag _
  words := by
    have hpassed : v'.stage.passed 5 + v.stage.wrote = v.stage.passed 4 :=
      hv.stage.passed_eq (by omega)
    rw [h.words_next hat hld hld']
    congr 1
    omega
  popped := h.popped_next hv hat hld hld' _
  mem := h.mem_next hv _
  settled := h.settled_next hv hat hld hld'

end Streaming

/-- `WR_LOAD` falls, and no write is under way. -/
theorem Streaming.of_load (hv : v.Next s.tetris (s.wrFifo.rdusedw usedwBits)
      (s.rdFifo.wrusedw usedwBits) s.wrFifo.q v') (hat : s.At v)
    (hld : s.tetris.writeLd = true) (hld' : t'.writeLd = false) (hwords : s.wrFifo.words = [])
    (hlag : ∀ c ∈ s.wrFifo.rdLag, c = 0) (hw : v.stage.writes = false) :
    Streaming s.tetris.writeaddr v.mem (s.pushed coincident t') 0 (s.drive coincident t') v' := by
  have hw' : v'.stage.writes = false :=
    hv.stage.writes_eq_false hw (by rw [View.start_of_load hld]; nofun)
  have h5 : v'.stage.passed 5 = 0 := Stage.passed_eq_zero 5 hw'
  have h6 : v'.stage.passed 6 = 0 := Stage.passed_eq_zero 6 hw'
  refine ⟨Nat.zero_le _, ?_, ?_, ?_, ?_, ?_, ?_⟩
  · rw [hv.rWrAddr, advance, if_pos hld]
    exact (BitVec.add_zero _).symm
  · intro hne
    cases hne.symm.trans hw'
  · rw [h5, hat.wrFifo_drive, wrCycle_words_of_load hld hld' hwords]
    cases coincident <;> simp [System.pushed, hostAt, hld, hld', afterPop, hwords, usedwBits]
  · intro hone
    cases hone.symm.trans h5
  · rw [h6, mem_eq hv (Stage.ne_run hw 5)]
    rfl
  · have hzero : ∀ c ∈ (s.drive coincident t').wrFifo.rdLag, c = 0 := by
      rw [hat.wrFifo_drive, wrCycle_rdLag hld', hwords]
      exact Fifo.shift_all hlag rfl
    intro c hc
    exact Nat.le_trans (Nat.le_of_eq (hzero c (List.mem_of_mem_take hc))) (Nat.zero_le _)

/-- The write FIFO under `WR_LOAD`. -/
theorem wrFifo_of_load (coincident : Bool) (s : System) (h : t'.writeLd = true) :
    (s.drive coincident t').wrFifo.words = [] ∧
      ∀ c ∈ (s.drive coincident t').wrFifo.rdLag, c = 0 := by
  refine ⟨wrCycle_clear h, fun c hc => ?_⟩
  simp only [System.drive, wrCycle, Fifo.clear, h, if_true] at hc
  exact List.eq_of_mem_replicate hc

end Cycle

/-! ## Words on their way to the host -/

namespace Stage

/-- 1 if the word of a read has been pushed, and the read is not over. -/
def fetched (st : Stage) : ℕ := if st = run .read 10 then 1 else 0

theorem Next.fetched_eq {start : Option Op} {st st' : Stage} (h : Next start st st') :
    st'.fetched = if st = run .read 9 then 1 else 0 := by
  cases h with
  | step o k hk =>
    have hk9 : k ≠ 9 := by omega
    have hk10 : k + 1 ≠ 10 := by omega
    simp [fetched, hk9, hk10]
  | start o | wait o | begin o => cases o <;> simp [fetched]
  | _ => simp [fetched]

theorem Next.run_read_succ {start : Option Op} {st : Stage} {i : ℕ}
    (h : Next start st (run .read (i + 1))) (hi : i + 1 < 10) : st = run .read i := by
  generalize hst : run .read (i + 1) = st' at h
  cases h with
  | step o k hk =>
    obtain ⟨rfl, hik⟩ := run.inj hst
    rw [Nat.succ.inj hik]
  | report => obtain ⟨-, hik⟩ := run.inj hst; omega
  | begin o => obtain ⟨-, hik⟩ := run.inj hst; cases hik
  | _ => cases hst

end Stage

theorem View.of_start_read {v : View} {t : Tetris} {rusedw wusedw : ℕ}
    (h : v.start t rusedw wusedw = some .read) : v.stage = .idle ∧ wusedw = 0 := by
  unfold View.start at h
  split at h
  · rename_i hfree
    refine ⟨hfree.1, ?_⟩
    by_contra hsome
    rw [if_neg (by omega : ¬wusedw < 1)] at h
    split at h <;> cases h
  · cases h

/-- The words at `b` and behind it. -/
def wordsFrom (b : ADDR) (m : Memory) (n : ℕ) : List WORD := (List.range n).map (m ∘ wordAt b)

@[simp] theorem wordsFrom_length (b : ADDR) (m : Memory) (n : ℕ) :
    (wordsFrom b m n).length = n := by
  simp [wordsFrom]

theorem wordsFrom_succ (b : ADDR) (m : Memory) (n : ℕ) :
    wordsFrom b m (n + 1) = wordsFrom b m n ++ [m (wordAt b n)] := by
  simp [wordsFrom, List.range_succ]

theorem head?_drop_wordsFrom (b : ADDR) (m : Memory) (n g : ℕ) :
    ((wordsFrom b m n).drop g).head? = if g < n then some (m (wordAt b g)) else none := by
  rw [List.head?_drop]
  split <;> rename_i h <;> simp [wordsFrom, h]

/-- The words at `b` and behind it are on their way to the host: `k` reads are over, and the
host has taken `g` words. -/
structure Delivering (b : ADDR) (m : Memory) (k g : ℕ) (s : System) (v : View) : Prop where
  address : v.rRdAddr = wordAt b k
  target : v.stage.reads = true → v.mAddr = wordAt b k
  count : g ≤ k + v.stage.fetched
  few : k + v.stage.fetched ≤ g + 2
  room : v.stage.reads = true → v.stage ≠ .run .read 10 → k ≤ g + 1
  words : s.rdFifo.words = (wordsFrom b m (k + v.stage.fetched)).drop g
  counted : ∀ c ∈ s.rdFifo.wrLag, s.rdFifo.words.length ≤ c + 1
  steady : ∀ i, v.stage = .run .read i → i < 10 →
    Fifo.Recent (s.rdFifo.words.length ≤ ·) i s.rdFifo.wrLag

section Cycle

variable {coincident : Bool} {s : System} {v v' : View} {t' : Tetris}

theorem rdCycle_wrLag {t : Tetris} {pushes : Bool} {data : WORD} {f : Fifo WORD}
    (h' : t'.readLd = false) : (rdCycle coincident t t' pushes data f).wrLag =
      Fifo.shift f.wrLag (f.words.length % 2 ^ usedwBits) := by
  simp only [rdCycle, Fifo.clear, h']
  rfl

theorem System.At.rdFifo_drive (hat : s.At v) : (s.drive coincident t').rdFifo =
    rdCycle coincident s.tetris t' (v.stage = .run .read 9) (v.mem v.mAddr) s.rdFifo := by
  rw [← hat.pushes]
  by_cases h9 : v.stage = .run .read 9
  · rw [← hat.mDataOut h9]
    rfl
  · -- No word is pushed, whatever the data.
    have hpush : s.ctl.pushes = false := hat.pushes.trans (decide_eq_false h9)
    change rdCycle _ _ _ s.ctl.pushes _ _ = _
    rw [hpush]
    rfl

namespace Delivering

variable {b : ADDR} {m : Memory} {k g : ℕ}
  (hv : v.Next s.tetris (s.wrFifo.rdusedw usedwBits) (s.rdFifo.wrusedw usedwBits) s.wrFifo.q v')
  (hat : s.At v) (hmem : v.mem = m) (hld : s.tetris.readLd = false) (hld' : t'.readLd = false)

theorem words_length (h : Delivering b m k g s v) :
    s.rdFifo.words.length = k + v.stage.fetched - g := by
  rw [h.words, List.length_drop, wordsFrom_length]

include hv hmem in
/-- The word of a read is pushed, and it finds room. -/
theorem afterPush_eq (h : Delivering b m k g s v) :
    afterPush (v.stage = .run .read 9) (v.mem v.mAddr) s.rdFifo =
      (wordsFrom b m (k + v.stage.fetched + v'.stage.fetched)).drop g := by
  rw [hv.stage.fetched_eq]
  by_cases h9 : v.stage = .run .read 9
  · have hreads : v.stage.reads = true := by rw [h9]; rfl
    have hroom := h.room hreads (by simp [h9])
    have hlen := h.words_length
    have hcount := h.count
    have hzero : v.stage.fetched = 0 := by rw [h9]; rfl
    rw [hzero, Nat.add_zero] at hlen hcount
    have hsmall : s.rdFifo.words.length < 2 ^ usedwBits :=
      Nat.lt_of_le_of_lt (by omega : _ ≤ 1) (by decide)
    rw [afterPush, if_pos ⟨decide_eq_true h9, hsmall⟩, if_pos h9, h.words, hzero, Nat.add_zero,
      wordsFrom_succ, List.drop_append_of_le_length (by simpa using hcount), hmem,
      h.target hreads]
  · rw [afterPush, if_neg (by simp [h9]), if_neg h9, h.words, Nat.add_zero]

include hv hat hmem hld hld' in
/-- The word that the host takes is the next one. -/
theorem taken_eq (h : Delivering b m k g s v) : s.taken coincident t' =
    if (hostAt coincident s.tetris t').readReq = true ∧
        g < k + v.stage.fetched + v'.stage.fetched then
      [m (wordAt b g)] else [] := by
  have hhost : (hostAt coincident s.tetris t').readLd = false :=
    hostAt_field Tetris.readLd hld hld'
  have hpush : afterPush (s.ctl.pushes && !s.tetris.readLd) s.ctl.path.mDataOut s.rdFifo =
      afterPush (v.stage = .run .read 9) (v.mem v.mAddr) s.rdFifo := by
    rw [hat.pushes, hld, Bool.not_false, Bool.and_true]
    by_cases h9 : v.stage = .run .read 9
    · rw [hat.mDataOut h9]
    · rw [decide_eq_false h9]
      rfl
  rw [System.taken, hpush, h.afterPush_eq hv hmem, head?_drop_wordsFrom, hhost]
  cases (hostAt coincident s.tetris t').readReq
  · rfl
  · by_cases hg : g < k + v.stage.fetched + v'.stage.fetched
    · simp [hg]
    · simp [hg]

include hv hat hmem hld hld' in
theorem words_next (h : Delivering b m k g s v) : (s.drive coincident t').rdFifo.words =
    (wordsFrom b m (k + v.stage.fetched + v'.stage.fetched)).drop
      (g + (s.taken coincident t').length) := by
  rw [hat.rdFifo_drive, rdCycle_words hld hld', h.afterPush_eq hv hmem,
    h.taken_eq hv hat hmem hld hld']
  cases (hostAt coincident s.tetris t').readReq
  · rfl
  · rw [if_pos rfl, List.tail_drop]
    by_cases hg : g < k + v.stage.fetched + v'.stage.fetched
    · simp [hg]
    · -- There is no word to take.
      have hlen : (wordsFrom b m (k + v.stage.fetched + v'.stage.fetched)).length ≤ g := by
        rw [wordsFrom_length]
        omega
      rw [List.drop_eq_nil_of_le (by omega), List.drop_eq_nil_of_le (by omega)]

include hv hat hmem hld hld' in
theorem taken_le (h : Delivering b m k g s v) :
    g + (s.taken coincident t').length ≤ k + v.stage.fetched + v'.stage.fetched := by
  have hcount := h.count
  rw [h.taken_eq hv hat hmem hld hld']
  split
  · rename_i hg
    simp only [List.length_singleton]
    omega
  · simp only [List.length_nil]
    omega

include hv in
/-- A read is started for a word that has room. -/
theorem of_start (h : Delivering b m k g s v)
    (hstart : v.start s.tetris (s.wrFifo.rdusedw usedwBits) (s.rdFifo.wrusedw usedwBits) =
      some .read) : v.stage = .idle ∧ v'.mAddr = wordAt b k ∧ k ≤ g + 1 := by
  obtain ⟨hidle, hzero⟩ := View.of_start_read hstart
  have hlen := h.words_length
  have hfew := h.few
  rw [hidle, show Stage.idle.fetched = 0 from rfl] at hlen hfew
  have hcount : s.rdFifo.words.length ≤ s.rdFifo.count usedwBits + 1 := by
    have hsmall : s.rdFifo.words.length < 2 ^ usedwBits :=
      Nat.lt_of_le_of_lt (by omega : _ ≤ 2) (by decide)
    rw [Fifo.count, Nat.mod_eq_of_lt hsmall]
    exact Nat.le_succ _
  have hshown : s.rdFifo.words.length ≤ s.rdFifo.wrusedw usedwBits + 1 :=
    Fifo.shown_of_all (P := fun c => s.rdFifo.words.length ≤ c + 1) h.counted hcount
  have hmAddr := hv.mAddr
  rw [hstart] at hmAddr
  exact ⟨hidle, hmAddr.trans h.address, by omega⟩

include hv in
/-- A read in progress is for the next word. -/
theorem target_next (h : Delivering b m k g s v) (hreads : v'.stage.reads = true) :
    v.stage.fetched = 0 ∧ v'.mAddr = wordAt b k ∧ (v'.stage ≠ .run .read 10 → k ≤ g + 1) := by
  have hmAddr := hv.mAddr
  obtain ⟨hstart, -⟩ | ⟨hstart, hbefore, hlast⟩ := hv.stage.of_reads hreads
  · obtain ⟨hidle, haddr, hroom⟩ := h.of_start hv hstart
    rw [hidle]
    exact ⟨rfl, haddr, fun _ => hroom⟩
  · have h10 : v.stage ≠ .run .read 10 := by
      intro h10
      have hstage := hv.stage
      rw [h10] at hstage
      rw [hstage.run_read_last] at hreads
      cases hreads
    rw [hstart] at hmAddr
    exact ⟨if_neg h10, hmAddr.trans (h.target hbefore), fun _ => h.room hbefore h10⟩

include hv in
theorem address_next (h : Delivering b m k g s v) (hld : s.tetris.readLd = false)
    (hend : b.toNat + g + 2 ≤ 0x1fffffe) : v'.rRdAddr = wordAt b (k + v.stage.fetched) := by
  have hfew := h.few
  rw [hv.rRdAddr, h.address, advance, if_neg (by simp [hld])]
  by_cases h10 : v.stage = .run .read 10
  · have hone : v.stage.fetched = 1 := if_pos h10
    rw [if_pos h10, if_pos (wordAt_lt (by omega)), hone, wordAt_succ]
  · rw [if_neg h10, Stage.fetched, if_neg h10, Nat.add_zero]

include hv hat hmem hld hld' in
theorem words_length_next (coincident : Bool) (h : Delivering b m k g s v) :
    (s.drive coincident t').rdFifo.words.length =
      k + v.stage.fetched + v'.stage.fetched - (g + (s.taken coincident t').length) := by
  rw [h.words_next hv hat hmem hld hld', List.length_drop, wordsFrom_length]

include hv hat hmem hld hld' in
theorem counted_next (h : Delivering b m k g s v) (hlag : Prompt s) :
    ∀ c ∈ (s.drive coincident t').rdFifo.wrLag,
      (s.drive coincident t').rdFifo.words.length ≤ c + 1 := by
  have hlen := h.words_length
  have hlen' := h.words_length_next hv hat hmem hld hld' coincident
  have hfew := h.few
  have hone := hv.stage.fetched_eq
  have hsmall : s.rdFifo.words.length < 2 ^ usedwBits :=
    Nat.lt_of_le_of_lt (by omega : _ ≤ 2) (by decide)
  rw [hat.rdFifo_drive, rdCycle_wrLag hld', Nat.mod_eq_of_lt hsmall, ← hat.rdFifo_drive]
  by_cases h9 : v.stage = .run .read 9
  · -- For as long as the counter lags, no other word has been pushed.
    have hsteady := (h.steady 9 h9 (by omega)).all (Nat.le_trans hlag.rdFifo (by omega))
    rw [if_pos h9] at hone
    refine Fifo.shift_all (fun c hc => ?_) (by omega)
    have hc := hsteady c hc
    omega
  · rw [if_neg h9] at hone
    refine Fifo.shift_all (fun c hc => ?_) (by omega)
    have hc := h.counted c hc
    omega

include hv hat hmem hld hld' in
theorem steady_next (h : Delivering b m k g s v) {i : ℕ} (hi : v'.stage = .run .read i)
    (hlt : i < 10) : Fifo.Recent ((s.drive coincident t').rdFifo.words.length ≤ ·) i
      (s.drive coincident t').rdFifo.wrLag := by
  obtain _ | i := i
  · exact Fifo.recent_zero
  · have hbefore : v.stage = .run .read i := (hi ▸ hv.stage).run_read_succ hlt
    have hlen := h.words_length
    have hlen' := h.words_length_next hv hat hmem hld hld' coincident
    have hfew := h.few
    have hsmall : s.rdFifo.words.length < 2 ^ usedwBits :=
      Nat.lt_of_le_of_lt (by omega : _ ≤ 2) (by decide)
    have hone : v'.stage.fetched = 0 := if_neg (by rw [hi]; simp; omega)
    have hless : (s.drive coincident t').rdFifo.words.length ≤ s.rdFifo.words.length := by omega
    have hlag : (s.drive coincident t').rdFifo.wrLag =
        Fifo.shift s.rdFifo.wrLag s.rdFifo.words.length := by
      rw [hat.rdFifo_drive, rdCycle_wrLag hld', Nat.mod_eq_of_lt hsmall]
    rw [hlag]
    have hrecent : Fifo.Recent ((s.drive coincident t').rdFifo.words.length ≤ ·) i
        s.rdFifo.wrLag := fun c hc => Nat.le_trans hless (h.steady i hbefore (by omega) c hc)
    exact hrecent.shift hless

include hv hat hmem hld hld' in
/-- One cycle: a word may be fetched, pushed, and taken. -/
theorem next (h : Delivering b m k g s v) (hlag : Prompt s)
    (hend : b.toNat + g + 2 ≤ 0x1fffffe) :
    Delivering b m (k + v.stage.fetched) (g + (s.taken coincident t').length)
      (s.drive coincident t') v' where
  address := h.address_next hv hld hend
  target := by
    intro hreads
    obtain ⟨hzero, haddr, -⟩ := h.target_next hv hreads
    rw [hzero]
    exact haddr
  count := h.taken_le hv hat hmem hld hld'
  few := by
    have hfew := h.few
    have hone := hv.stage.fetched_eq
    by_cases h9 : v.stage = .run .read 9
    · have hroom := h.room (by rw [h9]; rfl) (by simp [h9])
      have hzero : v.stage.fetched = 0 := by rw [h9]; rfl
      rw [if_pos h9] at hone
      omega
    · rw [if_neg h9] at hone
      omega
  room := by
    intro hreads h10
    obtain ⟨hzero, -, hroom⟩ := h.target_next hv hreads
    have hk := hroom h10
    omega
  words := h.words_next hv hat hmem hld hld'
  counted := h.counted_next hv hat hmem hld hld' hlag
  steady i hi hlt := h.steady_next hv hat hmem hld hld' hi hlt

end Delivering

/-- `RD_LOAD` falls, and no read is under way. -/
theorem Delivering.of_load (coincident : Bool) (hv : v.Next s.tetris (s.wrFifo.rdusedw usedwBits)
      (s.rdFifo.wrusedw usedwBits) s.wrFifo.q v') (hat : s.At v)
    (hld : s.tetris.readLd = true) (hld' : t'.readLd = false) (hwords : s.rdFifo.words = [])
    (hr : v.stage.reads = false) (m : Memory) :
    s.taken coincident t' = [] ∧
      Delivering s.tetris.readaddr m 0 0 (s.drive coincident t') v' := by
  have hr' : v'.stage.reads = false := by
    by_contra hreads
    obtain ⟨hstart, -⟩ | ⟨-, hbefore, -⟩ := hv.stage.of_reads (by simpa using hreads)
    · rw [View.start_of_readLd hld] at hstart
      cases hstart
    · cases hbefore.symm.trans hr
  have hzero : v'.stage.fetched = 0 := by
    refine if_neg fun h10 => ?_
    rw [h10] at hr'
    cases hr'
  have hempty : (s.drive coincident t').rdFifo.words = [] := by
    rw [hat.rdFifo_drive]
    exact (rdCycle_of_load hld hld' hwords).1
  refine ⟨?_, ?_, ?_, Nat.zero_le _, by omega, ?_, ?_, ?_, ?_⟩
  · cases coincident <;> simp [System.taken, hostAt, hld, hld', afterPush, hwords]
  · rw [hv.rRdAddr, advance, if_pos hld]
    exact (BitVec.add_zero _).symm
  · intro hreads
    cases hreads.symm.trans hr'
  · intro hreads
    cases hreads.symm.trans hr'
  · rw [hempty, hzero]
    rfl
  · intro c hc
    rw [hempty]
    exact Nat.zero_le _
  · intro i hi
    rw [hi] at hr'
    cases hr'

end Cycle

end TetrisFpga.Sdram
