import TetrisFpga.Sdram.WritePass

/-!
# One pass of the test machine's reads

`RDx` clears the read FIFO with `read_ld` and waits until one word is in it, and `FRx` takes the
word. The controller reads ahead on its own: a read that is under way when `read_ld` falls
pushes the word of an old address, or moves the new address on. `Reads` says where the pass is
when no such read is under way.
-/

namespace TetrisFpga.Sdram
open Machine

/-! ## Stages of a read -/

/-- A read has been started and is not over. -/
def Stage.reads : Stage → Bool
  | pending .read | run .read _ => true
  | _ => false

namespace Stage.Next

variable {start : Option Op} {s s' : Stage}

/-- A read in progress has been started in this cycle or goes on. -/
theorem of_reads (h : Next start s s') (hs : s'.reads = true) :
    start = some .read ∧ s' = .pending .read ∨
      start = none ∧ s.reads = true ∧ (s' = .run .read 10 → s = .run .read 9) := by
  cases h with
  | start o => cases o <;> simp_all [reads]
  | wait o | begin o => cases o <;> simp_all [reads]
  | step o k hk =>
    cases o <;> simp_all [reads]
  | report => exact .inr ⟨rfl, rfl, fun _ => rfl⟩
  | _ => cases hs

theorem run_read_last (h : Next start (.run .read 10) s') : s' = .idle := by
  cases h with
  | step _ _ hk => omega
  | read => rfl

end Stage.Next

namespace Phase

theorem core_mRd (p : Phase) : p.core.ctl.mRd = p.stage.reads := by
  cases p with
  | rest task => obtain _ | o | o | o := task <;> first | rfl | (cases o <;> rfl)
  | run o k => cases o <;> simp [core, runCore, stage, Stage.reads]
  | readDone => rfl
  | ended o => rfl

theorem core_mRdDone_eq (p : Phase) : p.core.ctl.mRdDone = decide (p.stage = .run .read 10) := by
  cases p with
  | rest task => obtain _ | o | o | o := task <;> rfl
  | run o k =>
    have hk : k.val ≠ 10 := by have := k.isLt; omega
    cases o <;> simp [core, runCore, stage, hk]
  | readDone => rfl
  | ended o => rfl

end Phase

/-! ## The read FIFO in one cycle -/

section RdCycle

variable {coincident pushes : Bool} {t t' : Tetris} {data : WORD} {f : Fifo WORD}

/-- The words after the edge of `CLK`. -/
def afterPush (pushes : Bool) (data : WORD) (f : Fifo WORD) : List WORD :=
  if pushes = true ∧ f.words.length < 2 ^ usedwBits then f.words ++ [data] else f.words

theorem rdCycle_clear (h : t'.readLd = true) :
    (rdCycle coincident t t' pushes data f).words = [] ∧
      ∀ c ∈ (rdCycle coincident t t' pushes data f).rdLag, c = 0 := by
  refine ⟨by simp [rdCycle, Fifo.clear, h], fun c hc => ?_⟩
  simp only [rdCycle, Fifo.clear, h, if_true] at hc
  exact List.eq_of_mem_replicate hc

theorem rdCycle_of_load (h : t.readLd = true) (h' : t'.readLd = false) (hf : f.words = []) :
    (rdCycle coincident t t' pushes data f).words = [] ∧
      (rdCycle coincident t t' pushes data f).rdLag = Fifo.shift f.rdLag 0 := by
  cases coincident <;>
    simp [rdCycle, Fifo.clear, h', h, Fifo.wrEdge, Fifo.rdEdge, hf, Fifo.count]

variable (h : t.readLd = false) (h' : t'.readLd = false)
include h h'

theorem rdCycle_words : (rdCycle coincident t t' pushes data f).words =
    if (hostAt coincident t t').readReq then (afterPush pushes data f).tail
      else afterPush pushes data f := by
  cases coincident <;>
    simp [rdCycle, Fifo.clear, h', h, Fifo.wrEdge, Fifo.rdEdge, afterPush, hostAt]

theorem rdCycle_q : (rdCycle coincident t t' pushes data f).q =
    if (hostAt coincident t t').readReq then (afterPush pushes data f).headD f.q else f.q := by
  cases coincident <;>
    simp [rdCycle, Fifo.clear, h', h, Fifo.wrEdge, Fifo.rdEdge, afterPush, hostAt]

theorem rdCycle_rdLag : (rdCycle coincident t t' pushes data f).rdLag = Fifo.shift f.rdLag
    ((if coincident then f.words else afterPush pushes data f).length % 2 ^ usedwBits) := by
  cases coincident <;>
    simp [rdCycle, Fifo.clear, h', h, Fifo.wrEdge, Fifo.rdEdge, afterPush, Fifo.count]

end RdCycle

theorem head?_afterPush {pushes : Bool} {data w : WORD} {f : Fifo WORD}
    (h : f.words.head? = some w) : (afterPush pushes data f).head? = some w := by
  unfold afterPush
  split
  · simp [List.head?_append, h]
  · exact h

/-! ## The states of a pass -/

/-- No write is left over, but for the end of the last one. -/
structure WritesOver (m : Memory) (s : System) (v : View) : Prop where
  writeLd : s.tetris.writeLd = false
  writeReq : s.tetris.writeReq = false
  left : Quiet m s v ∨ ∃ k, Leaving m s v k ∧ s.wrFifo.rdLag.length ≤ 5

/-- The next word pushed is the one asked for. -/
structure Fetching (x : ReadSlot) (s : System) (v : View) : Prop where
  words : s.rdFifo.words = []
  lag : ∀ c ∈ s.rdFifo.rdLag, c = 0
  address : v.rRdAddr = x.addr
  target : v.stage.reads = true → v.mAddr = x.addr ∧ v.stage ≠ .run .read 10

/-- The next word popped is the one asked for. -/
def Fetched (x : ReadSlot) (m : Memory) (s : System) : Prop :=
  s.rdFifo.words.head? = some (m x.addr)

/-- The first word has been captured before the second read. -/
def Captured (x : ReadSlot) (m : Memory) (s : System) : Prop :=
  x = .b → s.tetris.readReg1 = m ReadSlot.a.addr

/-- Where the pass is. -/
inductive Reads (coincident : Bool) (m : Memory) (s : System) (v : View) : Prop
  | prepare (x : ReadSlot) (hs : s.tetris.state = .pr x) (hld : s.tetris.readLd = false)
      (hreq : s.tetris.readReq = false) (hreg : Captured x m s)
  | load (x : ReadSlot) (hs : s.tetris.state = .r x) (hld : s.tetris.readLd = true)
      (hreq : s.tetris.readReq = false) (hreg : Captured x m s)
      (haddr : s.tetris.readaddr = x.addr) (hwords : s.rdFifo.words = [])
      (hlag : ∀ c ∈ s.rdFifo.rdLag, c = 0)
  | fetch (x : ReadSlot) (hs : s.tetris.state = .r x) (hld : s.tetris.readLd = false)
      (hreq : s.tetris.readReq = false) (hreg : Captured x m s)
      (h : Fetching x s v ∨ Fetched x m s)
  | take (x : ReadSlot) (hs : s.tetris.state = .fr x) (hld : s.tetris.readLd = false)
      (hreq : s.tetris.readReq = true) (hreg : Captured x m s)
      (h : coincident = true ∧ s.half = false ∧ Fetched x m s ∨
        (coincident = true → s.half = true) ∧ s.rdFifo.q = m x.addr)
  | finished (hs : s.tetris.state = .hold1) (h1 : s.tetris.readReg1 = m ReadSlot.a.addr)
      (h2 : s.tetris.readReg2 = m ReadSlot.b.addr)

/-- No read is under way when `read_ld` falls, and the second edge of the read FIFO under
`read_req` finds no word, unless the first word is captured by then. -/
def CleanRead (coincident : Bool) (s : System) (_ : Bool) : Prop :=
  s.tetris.state.inWrites = false ∧
  (s.tetris.readLd = true → s.half = true → s.ctl.core.ctl.mRd = true →
    s.ctl.core.ctl.mRdDone = true) ∧
  (coincident = false → s.tetris.readReq = true → s.half = false →
    s.rdFifo.words = [] ∧ s.ctl.pushes = false)

instance (coincident : Bool) (s : System) (key : Bool) :
    Decidable (CleanRead coincident s key) :=
  inferInstanceAs (Decidable (_ ∧ _ ∧ _))

/-- What the guard says of the view. -/
structure Clean (coincident : Bool) (s : System) (v : View) : Prop where
  load : s.tetris.readLd = true → s.half = true → v.stage.reads = true →
    v.stage = .run .read 10
  single : coincident = false → s.tetris.readReq = true → s.half = false →
    s.rdFifo.words = [] ∧ v.stage ≠ .run .read 9

theorem CleanRead.clean {coincident key : Bool} {s : System} {v : View}
    (h : CleanRead coincident s key) (hat : s.At v) : Clean coincident s v := by
  obtain ⟨p, hp, rfl⟩ := hat
  obtain ⟨-, hload, hsingle⟩ := h
  rw [hp.core, p.core_mRd, p.core_mRdDone_eq] at hload
  rw [hp.pushes_eq] at hsingle
  refine ⟨fun hld hhalf hr => of_decide_eq_true (hload hld hhalf hr), fun hc hreq hhalf => ?_⟩
  obtain ⟨hwords, hpush⟩ := hsingle hc hreq hhalf
  exact ⟨hwords, of_decide_eq_false hpush⟩

/-! ## One cycle -/

theorem View.start_of_readLd {v : View} {t : Tetris} {rusedw wusedw : ℕ} (h : t.readLd = true) :
    v.start t rusedw wusedw = none :=
  if_neg (by simp [h])

/-- The reads leave the lines of the writes alone. -/
theorem nextTetris_lines {s : System} {key : Bool} (h : s.tetris.state.inWrites = false) :
    (s.nextTetris key).writeLd = s.tetris.writeLd ∧
      (s.nextTetris key).writeReq = s.tetris.writeReq := by
  unfold System.nextTetris
  split
  · unfold Tetris.next
    cases hs : s.tetris.state with
    | pr x => dsimp only; split <;> exact ⟨rfl, rfl⟩
    | r x => dsimp only; split <;> exact ⟨rfl, rfl⟩
    | fr x => cases x <;> exact ⟨rfl, rfl⟩
    | _ => rw [hs] at h; cases h
  · exact ⟨rfl, rfl⟩

section Cycle

variable {coincident key : Bool} {m : Memory} {s : System} {v v' : View}
  (hv : v.Next s.tetris (s.wrFifo.rdusedw usedwBits) (s.rdFifo.wrusedw usedwBits) s.wrFifo.q v')

section Writes

include hv

theorem WritesOver.next (hf : (s.next coincident key).wrFifo = wrCycle coincident s.tetris
      (s.nextTetris key) (v.stage = .run .write 4) s.wrFifo)
    (hs : s.tetris.state.inWrites = false) (h : WritesOver m s v) :
    WritesOver m (s.next coincident key) v' := by
  obtain ⟨hld', hreq'⟩ : (s.nextTetris key).writeLd = _ ∧ (s.nextTetris key).writeReq = _ :=
    nextTetris_lines hs
  rw [h.writeLd] at hld'
  rw [h.writeReq] at hreq'
  have hreq : (hostAt coincident s.tetris (s.nextTetris key)).writeReq = false :=
    hostAt_field Tetris.writeReq h.writeReq hreq'
  refine ⟨hld', hreq', ?_⟩
  obtain hq | ⟨k, hk, hlen⟩ := h.left
  · exact .inl (hq.next hv hf h.writeLd hld' hreq)
  · refine (hk.next hv hf h.writeLd hld' (.inr hlen) hreq).imp_right fun ⟨k, hk⟩ => ⟨k, hk, ?_⟩
    rw [hf, wrCycle_rdLag_length]
    exact hlen

end Writes

theorem WritesOver.mem_eq {m : Memory} {s : System} {v : View} (h : WritesOver m s v) :
    v.mem = m := by
  obtain h | ⟨k, h, -⟩ := h.left
  · exact h.mem
  · exact h.mem

/-! ### The states of the test machine -/

section NextTetris

variable {x : ReadSlot}

theorem nextTetris_pr (hs : s.tetris.state = .pr x) (hld : s.tetris.readLd = false)
    (hreq : s.tetris.readReq = false) :
    s.nextTetris key = { s.tetris with
        writeCounter := 0, readLd := true, readaddr := x.addr, state := .r x } ∧
        s.half = true ∨
      (s.nextTetris key).state = .pr x ∧ (s.nextTetris key).readLd = false ∧
        (s.nextTetris key).readReq = false ∧
        (s.nextTetris key).readReg1 = s.tetris.readReg1 := by
  unfold System.nextTetris Tetris.next
  rw [hs]
  cases s.half
  · exact .inr ⟨hs, hld, hreq, rfl⟩
  · dsimp only
    by_cases hcount : s.tetris.writeCounter.getLsbD 2 = true
    · rw [if_pos rfl, if_pos hcount]
      exact .inl ⟨rfl, rfl⟩
    · rw [if_pos rfl, if_neg hcount]
      exact .inr ⟨rfl, hld, hreq, rfl⟩

theorem nextTetris_r (hs : s.tetris.state = .r x) :
    s.half = false ∧ s.nextTetris key = s.tetris ∨
      s.half = true ∧ s.rdFifo.rdusedw usedwBits = 1 ∧
        s.nextTetris key =
          { s.tetris with readLd := false, readReq := true, state := .fr x } ∨
      s.half = true ∧ s.rdFifo.rdusedw usedwBits ≠ 1 ∧
        s.nextTetris key = { s.tetris with readLd := false } := by
  unfold System.nextTetris Tetris.next
  rw [hs]
  cases s.half
  · exact .inl ⟨rfl, rfl⟩
  · by_cases hone : s.rdFifo.rdusedw usedwBits = 1
    · exact .inr (.inl ⟨rfl, hone, by simp [hone]⟩)
    · exact .inr (.inr ⟨rfl, hone, by simp [hone, hs]⟩)

theorem nextTetris_fr (hs : s.tetris.state = .fr x) :
    s.half = false ∧ s.nextTetris key = s.tetris ∨
      s.half = true ∧ s.nextTetris key =
        { (s.tetris.capture x s.rdFifo.q) with readReq := false, state := x.after } := by
  unfold System.nextTetris Tetris.next
  rw [hs]
  cases s.half
  · exact .inl ⟨rfl, rfl⟩
  · exact .inr ⟨rfl, rfl⟩

end NextTetris

section Reading

variable (hr : (s.next coincident key).rdFifo = rdCycle coincident s.tetris (s.nextTetris key)
  (v.stage = .run .read 9) (v.mem v.mAddr) s.rdFifo)
include hr

theorem rdFifo_clear (h : (s.nextTetris key).readLd = true) :
    (s.next coincident key).rdFifo.words = [] ∧
      ∀ c ∈ (s.next coincident key).rdFifo.rdLag, c = 0 := by
  rw [hr]
  exact rdCycle_clear h

include hv in
/-- `read_ld` falls. -/
theorem fetching_of_load {x : ReadSlot} (hclean : Clean coincident s v)
    (hld : s.tetris.readLd = true) (hhalf : s.half = true)
    (hld' : (s.nextTetris key).readLd = false) (haddr : s.tetris.readaddr = x.addr)
    (hwords : s.rdFifo.words = []) (hlag : ∀ c ∈ s.rdFifo.rdLag, c = 0) :
    Fetching x (s.next coincident key) v' := by
  have hload : (s.next coincident key).rdFifo.words = [] ∧
      (s.next coincident key).rdFifo.rdLag = Fifo.shift s.rdFifo.rdLag 0 := by
    rw [hr]
    exact rdCycle_of_load hld hld' hwords
  refine ⟨hload.1, ?_, ?_, fun hreads => ?_⟩
  · rw [hload.2]
    exact Fifo.shift_all hlag rfl
  · rw [hv.rRdAddr, advance, if_pos hld, haddr]
  · -- A read in this cycle would have been under way.
    have hnext := hv.stage
    rw [View.start_of_readLd hld] at hnext
    obtain ⟨hstart, -⟩ | ⟨-, hreads', -⟩ := hnext.of_reads hreads
    · cases hstart
    · rw [hclean.load hld hhalf hreads'] at hnext
      rw [hnext.run_read_last] at hreads
      cases hreads

section NoLoad

variable (hld : s.tetris.readLd = false) (hld' : (s.nextTetris key).readLd = false)
include hld hld'

/-- Nothing is popped. -/
theorem Fetched.next {x : ReadSlot} (h : Fetched x m s)
    (hreq : (hostAt coincident s.tetris (s.nextTetris key)).readReq = false) :
    Fetched x m (s.next coincident key) := by
  rw [Fetched, hr, rdCycle_words hld hld', hreq]
  exact head?_afterPush h

include hv in
theorem Fetching.next {x : ReadSlot} (h : Fetching x s v) (hmem : v.mem = m)
    (hreq : (hostAt coincident s.tetris (s.nextTetris key)).readReq = false) :
    Fetching x (s.next coincident key) v' ∨ Fetched x m (s.next coincident key) := by
  by_cases hpush : v.stage = .run .read 9
  · right
    obtain ⟨haddr, -⟩ := h.target (by rw [hpush]; rfl)
    have hafter : afterPush (v.stage = .run .read 9) (v.mem v.mAddr) s.rdFifo = [m x.addr] := by
      rw [afterPush, decide_eq_true hpush, h.words, hmem, haddr]
      exact if_pos ⟨rfl, by decide⟩
    rw [Fetched, hr, rdCycle_words hld hld', hreq, hafter]
    rfl
  · have hafter : afterPush (v.stage = .run .read 9) (v.mem v.mAddr) s.rdFifo = [] := by
      rw [afterPush, decide_eq_false hpush, h.words]
      rfl
    refine .inl ⟨?_, ?_, ?_, fun hreads => ?_⟩
    · rw [hr, rdCycle_words hld hld', hreq, hafter]
      rfl
    · rw [hr, rdCycle_rdLag hld hld', hafter, h.words, ite_self]
      exact Fifo.shift_all h.lag rfl
    · have hdone : v.stage ≠ .run .read 10 := fun hdone =>
        (h.target (by rw [hdone]; rfl)).2 hdone
      rw [hv.rRdAddr, advance, if_neg (by simp [hld]), if_neg hdone, h.address]
    · have hmAddr := hv.mAddr
      obtain ⟨hstart, hstage⟩ | ⟨hstart, hreads', hlast⟩ := hv.stage.of_reads hreads
      · rw [hstart] at hmAddr
        exact ⟨hmAddr.trans h.address, by simp [hstage]⟩
      · rw [hstart] at hmAddr
        exact ⟨hmAddr.trans (h.target hreads').1, fun h10 => hpush (hlast h10)⟩

end NoLoad

theorem Reads.prepare_next {x : ReadSlot} (hs : s.tetris.state = .pr x)
    (hld : s.tetris.readLd = false) (hreq : s.tetris.readReq = false) (hreg : Captured x m s) :
    Reads coincident m (s.next coincident key) v' := by
  obtain ⟨ht, -⟩ | ⟨hs', hld', hreq', hreg'⟩ : _ ∨ (s.nextTetris key).state = .pr x ∧ _ :=
    nextTetris_pr hs hld hreq
  · obtain ⟨hwords, hlag⟩ := rdFifo_clear hr (congrArg Tetris.readLd ht)
    exact .load x (congrArg Tetris.state ht) (congrArg Tetris.readLd ht)
      ((congrArg Tetris.readReq ht).trans hreq)
      (fun hx => (congrArg Tetris.readReg1 ht).trans (hreg hx)) (congrArg Tetris.readaddr ht)
      hwords hlag
  · exact .prepare x hs' hld' hreq' fun hx => hreg'.trans (hreg hx)

include hv

theorem Reads.load_next {x : ReadSlot} (hclean : Clean coincident s v)
    (hs : s.tetris.state = .r x) (hld : s.tetris.readLd = true)
    (hreq : s.tetris.readReq = false) (hreg : Captured x m s)
    (haddr : s.tetris.readaddr = x.addr) (hwords : s.rdFifo.words = [])
    (hlag : ∀ c ∈ s.rdFifo.rdLag, c = 0) : Reads coincident m (s.next coincident key) v' := by
  obtain ⟨-, ht⟩ | ⟨-, hone, -⟩ | ⟨hhalf, -, ht⟩ :
      _ ∧ s.nextTetris key = _ ∨ _ ∧ _ ∧ s.nextTetris key = _ ∨ _ ∧ _ ∧ s.nextTetris key = _ :=
    nextTetris_r hs
  · obtain ⟨hwords', hlag'⟩ := rdFifo_clear hr (by rwa [ht])
    exact .load x (by rwa [← ht] at hs) (by rwa [← ht] at hld) (by rwa [← ht] at hreq)
      (fun hx => (congrArg Tetris.readReg1 ht).trans (hreg hx)) (by rwa [← ht] at haddr)
      hwords' hlag'
  · rw [rdusedw_eq_zero hwords hlag] at hone
    cases hone
  · exact .fetch x ((congrArg Tetris.state ht).trans hs) (congrArg Tetris.readLd ht)
      ((congrArg Tetris.readReq ht).trans hreq)
      (fun hx => (congrArg Tetris.readReg1 ht).trans (hreg hx))
      (.inl (fetching_of_load hv hr hclean hld hhalf (congrArg Tetris.readLd ht) haddr hwords
        hlag))

theorem Reads.fetch_next {x : ReadSlot} (hmem : v.mem = m) (hs : s.tetris.state = .r x)
    (hld : s.tetris.readLd = false) (hreq : s.tetris.readReq = false) (hreg : Captured x m s)
    (h : Fetching x s v ∨ Fetched x m s) : Reads coincident m (s.next coincident key) v' := by
  -- Without a word the test machine waits, and so it does between its clocks.
  have hstay (ht : s.nextTetris key = s.tetris) :
      Reads coincident m (s.next coincident key) v' := by
    have hld' : (s.nextTetris key).readLd = false := by rwa [ht]
    have hreq' : (hostAt coincident s.tetris (s.nextTetris key)).readReq = false := by
      rwa [ht, hostAt_self]
    refine .fetch x (by rwa [← ht] at hs) hld' (by rwa [← ht] at hreq)
      (fun hx => (congrArg Tetris.readReg1 ht).trans (hreg hx)) ?_
    obtain h | h := h
    · exact h.next hv hr hld hld' hmem hreq'
    · exact .inr (h.next hr hld hld' hreq')
  obtain ⟨-, ht⟩ | ⟨hhalf, hone, ht⟩ | ⟨-, -, ht⟩ :
      _ ∧ s.nextTetris key = _ ∨ _ ∧ _ ∧ s.nextTetris key = _ ∨ _ ∧ _ ∧ s.nextTetris key = _ :=
    nextTetris_r hs
  · exact hstay ht
  · have hfetched : Fetched x m s := by
      refine h.resolve_left fun h => ?_
      rw [rdusedw_eq_zero h.words h.lag] at hone
      cases hone
    have hld' : (s.nextTetris key).readLd = false := congrArg Tetris.readLd ht
    have hhalf' : (s.next coincident key).half = false := by
      rw [System.next_half, hhalf, Bool.not_true]
    refine .take x (congrArg Tetris.state ht) hld' (congrArg Tetris.readReq ht)
      (fun hx => (congrArg Tetris.readReg1 ht).trans (hreg hx)) ?_
    cases coincident with
    | true => exact .inl ⟨rfl, hhalf', hfetched.next hr hld hld' hreq⟩
    | false =>
      have hpop : (hostAt false s.tetris (s.nextTetris key)).readReq = true :=
        congrArg Tetris.readReq ht
      refine .inr ⟨nofun, ?_⟩
      rw [hr, rdCycle_q hld hld', hpop, if_pos rfl, List.headD_eq_head?_getD,
        head?_afterPush hfetched]
      rfl
  · refine hstay (ht.trans ?_)
    rw [← hld]

omit hv in
theorem Reads.take_next {x : ReadSlot} (hclean : Clean coincident s v)
    (hs : s.tetris.state = .fr x) (hld : s.tetris.readLd = false)
    (hreq : s.tetris.readReq = true) (hreg : Captured x m s)
    (h : coincident = true ∧ s.half = false ∧ Fetched x m s ∨
      (coincident = true → s.half = true) ∧ s.rdFifo.q = m x.addr) :
    Reads coincident m (s.next coincident key) v' := by
  obtain ⟨hhalf, ht⟩ | ⟨hhalf, ht⟩ : _ ∧ s.nextTetris key = _ ∨ _ ∧ s.nextTetris key = _ :=
    nextTetris_fr hs
  · have hhalf' : (s.next coincident key).half = true := by
      rw [System.next_half, hhalf, Bool.not_false]
    have hld' : (s.nextTetris key).readLd = false := by rwa [ht]
    have hpop : (hostAt coincident s.tetris (s.nextTetris key)).readReq = true := by
      rwa [ht, hostAt_self]
    refine .take x (by rwa [← ht] at hs) hld' (by rwa [← ht] at hreq)
      (fun hx => (congrArg Tetris.readReg1 ht).trans (hreg hx)) (.inr ⟨fun _ => hhalf', ?_⟩)
    rw [hr, rdCycle_q hld hld', hpop, if_pos rfl]
    obtain ⟨-, -, hfetched⟩ | ⟨hc, hq⟩ := h
    · rw [List.headD_eq_head?_getD, head?_afterPush hfetched]
      rfl
    · -- The second edge pops nothing.
      have hbetween : coincident = false := by
        cases coincident
        · rfl
        · cases hhalf.symm.trans (hc rfl)
      obtain ⟨hwords, hpush⟩ := hclean.single hbetween hreq hhalf
      rw [afterPush, decide_eq_false hpush, hwords]
      exact hq
  -- the edge of the test machine: the word is there
  · have hq : s.rdFifo.q = m x.addr := by
      obtain ⟨-, hhalf', -⟩ | ⟨-, hq⟩ := h
      · cases hhalf.symm.trans hhalf'
      · exact hq
    cases x with
    | a =>
      exact .prepare .b (congrArg Tetris.state ht) ((congrArg Tetris.readLd ht).trans hld)
        (congrArg Tetris.readReq ht) fun _ => (congrArg Tetris.readReg1 ht).trans hq
    | b =>
      exact .finished (congrArg Tetris.state ht) ((congrArg Tetris.readReg1 ht).trans (hreg rfl))
        ((congrArg Tetris.readReg2 ht).trans hq)

end Reading

end Cycle

/-! ## The whole pass -/

/-- The system in `PRA`, when nothing is left to be written. The read FIFO, the read address
and a read under way are whatever reading ahead has made of them. -/
structure AtReads (s : System) : Prop where
  state : s.tetris.state = .pr .a
  readLd : s.tetris.readLd = false
  readReq : s.tetris.readReq = false
  phase : ∃ p, Follows s.ctl s.device p ∧
    WritesOver s.device.mem s (viewOf s.ctl s.device p)

/-- The invariant of a pass. -/
def ReadsInv (coincident : Bool) (m : Memory) (s : System) : Prop :=
  ∃ v, s.At v ∧ WritesOver m s v ∧ Reads coincident m s v

theorem AtReads.readsInv {s : System} (hs : AtReads s) (coincident : Bool) :
    ReadsInv coincident s.device.mem s := by
  obtain ⟨p, hp, hwrites⟩ := hs.phase
  exact ⟨_, ⟨p, hp, rfl⟩, hwrites, .prepare .a hs.state hs.readLd hs.readReq nofun⟩

theorem ReadsInv.next {coincident : Bool} {m : Memory} {s : System} (key : Bool)
    (h : ReadsInv coincident m s) (hs : CleanRead coincident s key) :
    ReadsInv coincident m (s.next coincident key) := by
  obtain ⟨v, hat, hwrites, h⟩ := h
  have hclean := hs.clean hat
  have hr := hat.rdFifo coincident key
  have hf := hat.wrFifo coincident key
  obtain ⟨v', hat', hv⟩ := hat.next coincident key
  refine ⟨v', hat', hwrites.next hv hf hs.1, ?_⟩
  cases h with
  | prepare x hs hld hreq hreg => exact Reads.prepare_next hr hs hld hreq hreg
  | load x hs hld hreq hreg haddr hwords hlag =>
    exact Reads.load_next hv hr hclean hs hld hreq hreg haddr hwords hlag
  | fetch x hs hld hreq hreg h =>
    exact Reads.fetch_next hv hr hwrites.mem_eq hs hld hreq hreg h
  | take x hs hld hreq hreg h => exact Reads.take_next hr hclean hs hld hreq hreg h
  | finished hs' =>
    have hreads := hs.1
    rw [hs'] at hreads
    cases hreads

/-- Back in `Hold1`, both words have been read, and the memory is as it was. -/
theorem regs_of_cleanRead {coincident : Bool} {s : System} (hs : AtReads s) {keys : List Bool}
    (hkeys : Along (System.next coincident) (CleanRead coincident) s keys)
    (hend : (run (System.next coincident) s keys).tetris.state = .hold1) :
    (run (System.next coincident) s keys).tetris.readReg1 = s.device.mem 0x0E08 ∧
      (run (System.next coincident) s keys).tetris.readReg2 = s.device.mem 0x81DE ∧
      (run (System.next coincident) s keys).device.mem = s.device.mem := by
  obtain ⟨v, ⟨p, hp, rfl⟩, hwrites, h⟩ := Along.invariant_self
    (fun _ key h hg => ReadsInv.next key h hg) (hs.readsInv coincident) hkeys
  cases h with
  | finished _ h1 h2 => exact ⟨h1, h2, hwrites.mem_eq⟩
  | _ x hs' => rw [hs'] at hend; cases hend

/-! ### After the writes -/

/-- The reads follow a pass of the writes, if the controller has seen the last word go. -/
theorem atReads_of_pass {coincident : Bool} {s : System} (hs : AtRest s) {keys : List Bool}
    (h : let s' := run (System.next coincident) s keys
      (Counted coincident s.wrFifo ∧ Along (System.next coincident) InWrites s keys) ∧
        s'.tetris.state = .pr .a ∧ s'.tetris.readLd = false ∧ s'.tetris.readReq = false ∧
        s'.tetris.writeLd = false ∧ s'.tetris.writeReq = false ∧ s'.wrFifo.rdLag.length ≤ 5) :
    AtReads (run (System.next coincident) s keys) := by
  obtain ⟨⟨hc, hkeys⟩, hstate, hld, hreq, hwld, hwreq, hlag⟩ := h
  obtain ⟨p, hp, k, hleaving⟩ := leaving_of_pass hs hc hkeys hstate
  have hmem : (run (System.next coincident) s keys).device.mem = _ := hleaving.mem
  refine ⟨hstate, hld, hreq, p, hp, hwld, hwreq, .inr ⟨k, ?_, hlag⟩⟩
  rw [hmem]
  exact hleaving

/-- With counters that lag by two clocks at either side, and coincident clocks, the reads that
follow the writes are clean. -/
theorem regs_of_cleanRead_powered :
    let s := run (System.next true) (.powered (fun _ => 0) 2 2) (pressed 157)
    let s' := run (System.next true) s (List.replicate 64 false)
    s'.tetris.readReg1 = s.device.mem 0x0E08 ∧ s'.tetris.readReg2 = s.device.mem 0x81DE ∧
      s'.device.mem = s.device.mem :=
  regs_of_cleanRead
    (atReads_of_pass (powered_atRest _ 2 2) (by decide +kernel)) (by decide +kernel)
    (by decide +kernel)

/-- With a lag of one clock at the controller, the second read captures the word after the one
of the first, which was read ahead. -/
theorem second_read_stale :
    let s := run (System.next false) (.powered (fun _ => 0) 2 1) (pressed 147)
    let s' := run (System.next false) s (List.replicate 48 false)
    AtReads s ∧ s'.tetris.state = .hold1 ∧ s'.tetris.readReg2 = s.device.mem 0x0E09 ∧
      s'.tetris.readReg2 ≠ s.device.mem 0x81DE :=
  ⟨atReads_of_pass (powered_atRest _ 2 1) (by decide +kernel), by decide +kernel⟩

end TetrisFpga.Sdram
