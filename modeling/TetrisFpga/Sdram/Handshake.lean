import Mathlib.Data.List.Induction
import TetrisFpga.Machine.Run
import TetrisFpga.Sdram.Tetris

/-!
# The handshake of the test machine

The four request lines are registered: a line is high in the state behind the one that raises it,
and the next edge of the clock lowers it again. So the lines take turns, and the pulses up to a
state of the machine are a prefix of one script.
-/

namespace TetrisFpga.Sdram
open Machine

/-- What the test machine samples at an edge of its clock. -/
structure Sample where
  key : Bool
  wrBuffer : ℕ
  rdBuffer : ℕ
  readdata : WORD

/-- An edge of the clock with `reset` low; or a rising `reset`, or an edge of the clock while it
is high. -/
inductive Stimulus
  | clk (i : Sample)
  | reset

/-- `write_ld`, `write_req`, `read_ld` and `read_req`. -/
inductive Line
  | writeLd
  | writeReq
  | readLd
  | readReq
  deriving DecidableEq

/-- A pulse on a line, with the address and the word that go with it. -/
inductive LinePulse
  | writeLd (addr : ADDR)
  | writeReq (addr : ADDR) (data : WORD)
  | readLd (addr : ADDR)
  | readReq (addr : ADDR)
  deriving DecidableEq

/-- The line that is high in the first cycle of a state. -/
def FsmState.line? : FsmState → Option Line
  | .w _ => some .writeLd
  | .fw _ => some .writeReq
  | .r _ => some .readLd
  | .fr _ => some .readReq
  | _ => none

theorem WriteSlot.line?_after (x : WriteSlot) : x.after.line? = none := by
  cases x <;> rfl

theorem ReadSlot.line?_after (x : ReadSlot) : x.after.line? = none := by
  cases x <;> rfl

/-- The pulses between two entries into `Hold1`. -/
def script : List LinePulse :=
  [.writeLd 0x5653, .writeReq 0x5653 0x6293, .writeLd 0x81DE, .writeReq 0x81DE 0x460F,
    .writeLd 0xC0A9, .writeReq 0xC0A9 0x12C4, .writeLd 0x0E08, .writeReq 0x0E08 0x7D59,
    .readLd 0x0E08, .readReq 0x0E08, .readLd 0x81DE, .readReq 0x81DE]

/-- The number of pulses before a slot. -/
def WriteSlot.pulsesBefore : WriteSlot → ℕ
  | a => 0
  | b => 2
  | c => 4
  | d => 6

def ReadSlot.pulsesBefore : ReadSlot → ℕ
  | a => 8
  | b => 10

/-- The number of pulses up to the end of the first cycle of a state. -/
def FsmState.progress : FsmState → ℕ
  | .hold1 | .hold2 => 0
  | .pw x => x.pulsesBefore
  | .w x => x.pulsesBefore + 1
  | .fw x => x.pulsesBefore + 2
  | .pr x => x.pulsesBefore
  | .r x => x.pulsesBefore + 1
  | .fr x => x.pulsesBefore + 2

theorem WriteSlot.progress_after (x : WriteSlot) : x.after.progress = x.pulsesBefore + 2 := by
  cases x <;> rfl

namespace Tetris

def clk (t : Tetris) (i : Sample) : Tetris := t.next i.key i.wrBuffer i.rdBuffer i.readdata

def step (t : Tetris) : Stimulus → Tetris
  | .clk i => t.clk i
  | .reset => t.reset

def line (t : Tetris) : Line → Bool
  | .writeLd => t.writeLd
  | .writeReq => t.writeReq
  | .readLd => t.readLd
  | .readReq => t.readReq

/-- The pulse that a line starts. -/
def pulseOf (t : Tetris) : Line → LinePulse
  | .writeLd => .writeLd t.writeaddr
  | .writeReq => .writeReq t.writeaddr t.writedata
  | .readLd => .readLd t.readaddr
  | .readReq => .readReq t.readaddr

/-- The pulses that start with an edge of the clock. -/
def rising (t t' : Tetris) : List LinePulse :=
  ([.writeLd, .writeReq, .readLd, .readReq].filter fun l => !t.line l && t'.line l).map t'.pulseOf

/-- The pulses of a run without a reset, the oldest first. -/
def pulses (t : Tetris) : List Sample → List LinePulse
  | [] => []
  | i :: is => rising t (t.clk i) ++ pulses (t.clk i) is

/-- The state machine in `Hold1` and the outputs 0. -/
structure Fresh (t : Tetris) : Prop where
  state : t.state = .hold1
  lines : ∀ l, t.line l = false
  writeaddr : t.writeaddr = 0
  readaddr : t.readaddr = 0
  writedata : t.writedata = 0

/-! ## What a step does -/

/-- What an edge of the clock does, and where. -/
inductive Step (t : Tetris) (i : Sample) : Tetris → Prop
  | idle : t.state = .hold1 → i.key = false → Step t i t
  | press : t.state = .hold1 → i.key = true → Step t i { t with state := .hold2 }
  | held : t.state = .hold2 → i.key = true → Step t i t
  | release : t.state = .hold2 → i.key = false → Step t i { t with state := .pw .a }
  | loadWrite (x : WriteSlot) : t.state = .pw x →
    Step t i { t with writeLd := true, writeaddr := x.addr, state := .w x }
  | requestWrite (x : WriteSlot) : t.state = .w x →
    Step t i { t with writeLd := false, writeReq := true, writedata := x.data, state := .fw x }
  | awaitWrite (x : WriteSlot) : t.state = .fw x → ¬(i.wrBuffer = 0 ∧ t.writeReq = false) →
    Step t i { t with writeReq := false }
  | finishWrite (x : WriteSlot) : t.state = .fw x → i.wrBuffer = 0 → t.writeReq = false →
    Step t i { t with writeReq := false, state := x.after }
  | count (x : ReadSlot) : t.state = .pr x → t.writeCounter.getLsbD 2 = false →
    Step t i { t with writeCounter := t.writeCounter + 1 }
  | loadRead (x : ReadSlot) : t.state = .pr x → t.writeCounter.getLsbD 2 = true →
    Step t i { t with writeCounter := 0, readLd := true, readaddr := x.addr, state := .r x }
  | awaitRead (x : ReadSlot) : t.state = .r x → i.rdBuffer ≠ 1 →
    Step t i { t with readLd := false }
  | requestRead (x : ReadSlot) : t.state = .r x → i.rdBuffer = 1 →
    Step t i { t with readLd := false, readReq := true, state := .fr x }
  | finishRead (x : ReadSlot) : t.state = .fr x →
    Step t i { t.capture x i.readdata with readReq := false, state := x.after }

theorem clk_step (t : Tetris) (i : Sample) : Step t i (t.clk i) := by
  unfold clk next
  cases hs : t.state with
  | hold1 =>
    cases hkey : i.key with
    | true => exact .press hs hkey
    | false => exact .idle hs hkey
  | hold2 =>
    cases hkey : i.key with
    | true => exact .held hs hkey
    | false => exact .release hs hkey
  | pw x => exact .loadWrite x hs
  | w x => exact .requestWrite x hs
  | fw x =>
    dsimp only
    split
    · rename_i hdone
      exact .finishWrite x hs hdone.1 hdone.2
    · rename_i hwait
      have h := Step.awaitWrite (i := i) x hs hwait
      rwa [hs] at h
  | pr x =>
    cases hcount : t.writeCounter.getLsbD 2 with
    | true => exact .loadRead x hs hcount
    | false =>
      have h := Step.count (i := i) x hs hcount
      rwa [hs] at h
  | r x =>
    dsimp only
    split
    · exact .requestRead x hs ‹_›
    · have h := Step.awaitRead (i := i) x hs ‹_›
      rwa [hs] at h
  | fr x => exact .finishRead x hs

/-! ## The lines -/

/-- A line is high in its states only. -/
def Lit (t : Tetris) : Prop := ∀ l, t.line l = true → t.state.line? = some l

variable {t t' : Tetris} {i : Sample}

theorem Lit.low (h : Lit t) {l : Line} (hl : t.state.line? ≠ some l) : t.line l = false :=
  Bool.eq_false_iff.mpr fun hhigh => hl (h l hhigh)

/-- A line that is high after an edge was low before it, and the new state is one of its own. -/
theorem Step.line_high (h : Step t i t') (ht : Lit t) {l : Line} (hl : t'.line l = true) :
    t.line l = false ∧ t'.state.line? = some l := by
  have hlow := ht.low (l := l)
  cases h with
  | finishRead x hs =>
    rw [hs] at hlow
    cases x <;> cases l <;> simp_all [line, FsmState.line?, capture]
  | _ => cases l <;> simp_all [line, FsmState.line?]

theorem Step.lit (h : Step t i t') (ht : Lit t) : Lit t' := fun _ hl => (h.line_high ht hl).2

theorem line_reset (t : Tetris) (l : Line) : t.reset.line l = false := by
  cases l <;> rfl

theorem Fresh.lit (h : Fresh t) : Lit t := fun l hl =>
  absurd ((h.lines l).symm.trans hl) (by decide)

theorem Lit.run (h : Lit t) (es : List Stimulus) : Lit (run step t es) := by
  refine run_invariant (fun t e ht => ?_) h es
  cases e with
  | clk i => exact (clk_step t i).lit ht
  | reset => exact fun l hl => absurd ((line_reset t l).symm.trans hl) (by decide)

theorem run_reset (t : Tetris) (n : ℕ) :
    Machine.run step t (List.replicate (n + 1) .reset) = t.reset := by
  induction n with
  | zero => rfl
  | succ n ih => rw [List.replicate_succ', run_append, ih]; rfl

/-- A line that is high is low after the next edge, whether a reset comes first or not. -/
theorem Lit.low_after (h : Lit t) {l : Line} (hl : t.line l = true) (n : ℕ) (i : Sample) :
    ((Machine.run step t (List.replicate n .reset)).clk i).line l = false := by
  refine Bool.eq_false_iff.mpr fun hhigh => ?_
  cases n with
  | zero =>
    have hlow := ((clk_step t i).line_high h hhigh).1
    exact absurd (hlow.symm.trans hl) (by decide)
  | succ n =>
    have hclk : t.reset.clk i = if i.key then { t.reset with state := .hold2 } else t.reset := rfl
    have hlow : (t.reset.clk i).line l = false := by
      rw [hclk]
      split <;> exact line_reset t l
    rw [run_reset] at hhigh
    exact absurd (hlow.symm.trans hhigh) (by decide)

/-! ## The registers behind the lines -/

/-- The addresses and the word change with a pulse on their line only. -/
structure ChangesWithPulse (t t' : Tetris) : Prop where
  writeaddr : t'.writeaddr ≠ t.writeaddr → t.writeLd = false ∧ t'.writeLd = true
  writedata : t'.writedata ≠ t.writedata → t.writeReq = false ∧ t'.writeReq = true
  readaddr : t'.readaddr ≠ t.readaddr → t.readLd = false ∧ t'.readLd = true

theorem changes_of_eq (hw : t'.writeaddr = t.writeaddr) (hd : t'.writedata = t.writedata)
    (hr : t'.readaddr = t.readaddr) : ChangesWithPulse t t' :=
  ⟨fun h => absurd hw h, fun h => absurd hd h, fun h => absurd hr h⟩

theorem Step.changes (h : Step t i t') (ht : Lit t) : ChangesWithPulse t t' := by
  cases h with
  | loadWrite x hs =>
    have hlow : t.writeLd = false := ht.low (l := .writeLd) (by simp [hs, FsmState.line?])
    exact ⟨fun _ => ⟨hlow, rfl⟩, fun h => absurd rfl h, fun h => absurd rfl h⟩
  | requestWrite x hs =>
    have hlow : t.writeReq = false := ht.low (l := .writeReq) (by simp [hs, FsmState.line?])
    exact ⟨fun h => absurd rfl h, fun _ => ⟨hlow, rfl⟩, fun h => absurd rfl h⟩
  | loadRead x hs =>
    have hlow : t.readLd = false := ht.low (l := .readLd) (by simp [hs, FsmState.line?])
    exact ⟨fun h => absurd rfl h, fun h => absurd rfl h, fun _ => ⟨hlow, rfl⟩⟩
  | finishRead x hs => cases x <;> exact changes_of_eq rfl rfl rfl
  | _ => exact changes_of_eq rfl rfl rfl

/-- While a load is high the address is that of its slot. -/
structure Loaded (t : Tetris) : Prop where
  write : ∀ x, t.state = .w x → t.writeaddr = x.addr
  read : ∀ x, t.state = .r x → t.readaddr = x.addr

theorem loaded_of_line? (hw : t.state.line? ≠ some .writeLd) (hr : t.state.line? ≠ some .readLd) :
    Loaded t :=
  ⟨fun _ hs => absurd (hs ▸ rfl) hw, fun _ hs => absurd (hs ▸ rfl) hr⟩

theorem Step.loaded (h : Step t i t') (ht : Loaded t) : Loaded t' := by
  cases h with
  | idle => exact ht
  | held => exact ht
  | loadWrite x =>
    refine ⟨fun y hy => ?_, fun y hy => ?_⟩
    · cases hy
      rfl
    · cases hy
  | loadRead x =>
    refine ⟨fun y hy => ?_, fun y hy => ?_⟩
    · cases hy
    · cases hy
      rfl
  | awaitWrite x => exact ⟨ht.write, ht.read⟩
  | count x => exact ⟨ht.write, ht.read⟩
  | awaitRead x => exact ⟨ht.write, ht.read⟩
  | finishWrite x => exact loaded_of_line? (by simp [x.line?_after]) (by simp [x.line?_after])
  | finishRead x => exact loaded_of_line? (by simp [x.line?_after]) (by simp [x.line?_after])
  | press => exact loaded_of_line? (by simp [FsmState.line?]) (by simp [FsmState.line?])
  | release => exact loaded_of_line? (by simp [FsmState.line?]) (by simp [FsmState.line?])
  | requestWrite x => exact loaded_of_line? (by simp [FsmState.line?]) (by simp [FsmState.line?])
  | requestRead x => exact loaded_of_line? (by simp [FsmState.line?]) (by simp [FsmState.line?])

/-! ## The pulses -/

/-- A new pulse on the line that is high. -/
theorem rising_of_line (ht' : Lit t') {l : Line} (hlow : t.line l = false)
    (hhigh : t'.line l = true) : rising t t' = [t'.pulseOf l] := by
  have hother (l' : Line) (hne : l' ≠ l) : t'.line l' = false := by
    refine ht'.low fun hl' => hne ?_
    exact Option.some.inj (hl'.symm.trans (ht' l hhigh))
  unfold rising
  cases l <;> simp_all

/-- No pulse, where the lines of the new state are low. -/
theorem rising_of_low (ht' : Lit t') (h : ∀ l, t'.state.line? = some l → t'.line l = false) :
    rising t t' = [] := by
  have hlow (l : Line) : t'.line l = false := Bool.eq_false_iff.mpr fun hl =>
    absurd ((h l (ht' l hl)).symm.trans hl) (by decide)
  rw [rising, List.filter_eq_nil_iff.mpr fun l _ => by simp [hlow l], List.map_nil]

/-- A step that raises a line goes on in the script. -/
theorem script_of_line (ht' : Lit t') {l : Line} (hlow : t.line l = false)
    (hhigh : t'.line l = true) {n : ℕ} (hn : script[n]? = some (t'.pulseOf l)) :
    script.take n ++ rising t t' = script.take (n + 1) := by
  rw [rising_of_line ht' hlow hhigh, List.take_add_one, hn]
  rfl

/-- A step that raises none stays where it is. -/
theorem script_of_low (ht' : Lit t') (h : ∀ l, t'.state.line? = some l → t'.line l = false)
    {n m : ℕ} (hn : n = m) : script.take n ++ rising t t' = script.take m := by
  rw [rising_of_low ht' h, List.append_nil, hn]

/-- A step goes on in the script; the script ends with the return to `Hold1`. -/
theorem Step.script_take (h : Step t i t') (ht : Lit t) (hl : Loaded t)
    (hend : t.state ≠ .fr .b) :
    script.take t.state.progress ++ rising t t' = script.take t'.state.progress := by
  have ht' := h.lit ht
  cases h with
  | idle hs => exact script_of_low ht' (by simp [hs, FsmState.line?]) rfl
  | held hs => exact script_of_low ht' (by simp [hs, FsmState.line?]) rfl
  | press hs => exact script_of_low ht' (by simp [FsmState.line?]) (by rw [hs]; rfl)
  | release hs => exact script_of_low ht' (by simp [FsmState.line?]) (by rw [hs]; rfl)
  -- only the steps that raise a line go on in the script
  | loadWrite x hs =>
    have hlow : t.line .writeLd = false := ht.low (by simp [hs, FsmState.line?])
    rw [hs]
    refine script_of_line ht' hlow rfl ?_
    cases x <;> rfl
  | requestWrite x hs =>
    have hlow : t.line .writeReq = false := ht.low (by simp [hs, FsmState.line?])
    have haddr := hl.write x hs
    rw [hs]
    refine script_of_line ht' hlow rfl ?_
    simp only [pulseOf, haddr]
    cases x <;> rfl
  | awaitWrite x hs => exact script_of_low ht' (by simp [hs, FsmState.line?, line]) rfl
  | finishWrite x hs =>
    refine script_of_low ht' (by simp [x.line?_after]) ?_
    rw [hs]
    exact x.progress_after.symm
  | count x hs => exact script_of_low ht' (by simp [hs, FsmState.line?]) rfl
  | loadRead x hs =>
    have hlow : t.line .readLd = false := ht.low (by simp [hs, FsmState.line?])
    rw [hs]
    refine script_of_line ht' hlow rfl ?_
    cases x <;> rfl
  | awaitRead x hs => exact script_of_low ht' (by simp [hs, FsmState.line?, line]) rfl
  | requestRead x hs =>
    have hlow : t.line .readReq = false := ht.low (by simp [hs, FsmState.line?])
    have haddr := hl.read x hs
    rw [hs]
    refine script_of_line ht' hlow rfl ?_
    simp only [pulseOf, haddr]
    cases x <;> rfl
  | finishRead x hs =>
    refine script_of_low ht' (by simp [x.line?_after]) ?_
    rw [hs]
    cases x with
    | a => rfl
    | b => exact absurd hs hend

/-! ## From one entry into `Hold1` to the next -/

/-- The edge of the clock enters `Hold1`. -/
def Enters (t : Tetris) (i : Sample) : Prop := t.state ≠ .hold1 ∧ (t.clk i).state = .hold1

instance (t : Tetris) (i : Sample) : Decidable (t.Enters i) :=
  inferInstanceAs (Decidable (_ ∧ _))

/-- `key` was sampled high, and later low, and no pulse came before that. -/
def Keyed (t : Tetris) (is : List Sample) : Prop :=
  ∃ before high between low after, is = before ++ high :: between ++ low :: after ∧
    high.key = true ∧ low.key = false ∧ pulses t (before ++ high :: between ++ [low]) = []

theorem pulses_concat (t : Tetris) (is : List Sample) (i : Sample) :
    pulses t (is ++ [i]) =
      pulses t is ++ rising (Machine.run clk t is) ((Machine.run clk t is).clk i) := by
  induction is generalizing t with
  | nil => exact List.append_nil _
  | cons j is ih =>
    rw [List.cons_append, pulses, pulses, ih, List.append_assoc]
    rfl

theorem Keyed.concat {is : List Sample} (h : Keyed t is) (i : Sample) : Keyed t (is ++ [i]) := by
  obtain ⟨before, high, between, low, after, rfl, hhigh, hlow, hnone⟩ := h
  exact ⟨before, high, between, low, after ++ [i], by simp, hhigh, hlow, hnone⟩

/-- The edge leaves `FRB`. -/
theorem Enters.state (h : Enters t i) : t.state = .fr .b := by
  obtain ⟨hne, hend⟩ := h
  have hstep := clk_step t i
  generalize t.clk i = t' at hstep hend
  cases hstep with
  | idle hs => exact absurd hs hne
  | press hs => exact absurd hs hne
  | held hs => exact absurd hend hne
  | finishWrite x hs => cases x <;> cases hend
  | finishRead x hs =>
    cases x with
    | a => cases hend
    | b => exact hs
  | awaitWrite x hs => cases hs.symm.trans hend
  | count x hs => cases hs.symm.trans hend
  | awaitRead x hs => cases hs.symm.trans hend
  | _ => cases hend

/-- What a run from `Hold1` has done while it has not entered `Hold1` again. -/
structure Segment (t₀ : Tetris) (is : List Sample) (t : Tetris) : Prop where
  lit : Lit t
  loaded : Loaded t
  script : pulses t₀ is = script.take t.state.progress
  pressed : t.state = .hold2 →
    ∃ before high between, is = before ++ high :: between ∧ high.key = true
  keyed : t.state ≠ .hold1 → t.state ≠ .hold2 → Keyed t₀ is

/-- `Hold2` is reached with `key` high. -/
theorem Step.reaches_hold2 (h : Step t i t') (hs' : t'.state = .hold2) :
    t.state = .hold2 ∨ i.key = true := by
  cases h with
  | press hs hkey => exact .inr hkey
  | finishWrite x hs => cases x <;> cases hs'
  | finishRead x hs => cases x <;> cases hs'
  | idle => exact .inl hs'
  | held => exact .inl hs'
  | awaitWrite => exact .inl hs'
  | count => exact .inl hs'
  | awaitRead => exact .inl hs'
  | _ => cases hs'

/-- The two states are left with `key` low after `Hold2`. -/
theorem Step.leaves_hold (h : Step t i t') (hs : t.state = .hold1 ∨ t.state = .hold2)
    (h1 : t'.state ≠ .hold1) (h2 : t'.state ≠ .hold2) : t.state = .hold2 ∧ i.key = false := by
  cases h with
  | idle hs => exact absurd hs h1
  | press => exact absurd rfl h2
  | held hs => exact absurd hs h2
  | release hs hkey => exact ⟨hs, hkey⟩
  | _ => simp_all

theorem Segment.start (hs : t.state = .hold1) (ht : Lit t) : Segment t [] t where
  lit := ht
  loaded := loaded_of_line? (by simp [hs, FsmState.line?]) (by simp [hs, FsmState.line?])
  script := by rw [hs]; rfl
  pressed h := absurd (hs.symm.trans h) (by simp)
  keyed h := absurd hs h

theorem Segment.concat {t₀ : Tetris} {is : List Sample}
    (h : Segment t₀ is (Machine.run clk t₀ is)) (hno : ¬Enters (Machine.run clk t₀ is) i) :
    Segment t₀ (is ++ [i]) (Machine.run clk t₀ (is ++ [i])) := by
  have hend : (Machine.run clk t₀ is).state ≠ .fr .b := by
    intro hs
    refine hno ⟨by simp [hs], ?_⟩
    rw [clk, next, hs]
    rfl
  have hstep := clk_step (Machine.run clk t₀ is) i
  have hpulses : pulses t₀ (is ++ [i]) =
      Sdram.script.take ((Machine.run clk t₀ is).clk i).state.progress := by
    rw [pulses_concat, h.script]
    exact hstep.script_take h.lit h.loaded hend
  rw [run_append]
  refine ⟨hstep.lit h.lit, hstep.loaded h.loaded, hpulses, fun hs' => ?_, fun h1 h2 => ?_⟩
  · obtain hs | hkey := hstep.reaches_hold2 hs'
    · obtain ⟨before, high, between, rfl, hhigh⟩ := h.pressed hs
      exact ⟨before, high, between ++ [i], by simp, hhigh⟩
    · exact ⟨is, i, [], rfl, hkey⟩
  · by_cases hs : (Machine.run clk t₀ is).state = .hold1 ∨ (Machine.run clk t₀ is).state = .hold2
    · -- the first write begins: `key` is low after it was high
      obtain ⟨hs2, hlow⟩ := hstep.leaves_hold hs h1 h2
      obtain ⟨before, high, between, heq, hhigh⟩ := h.pressed hs2
      have hstate : ((Machine.run clk t₀ is).clk i).state = .pw .a := by
        rw [clk, next, hs2, hlow]
        rfl
      rw [hstate, heq] at hpulses
      exact ⟨before, high, between, i, [], by rw [heq], hhigh, hlow, hpulses⟩
    · exact (h.keyed (fun h1 => hs (.inl h1)) fun h2 => hs (.inr h2)).concat i

theorem Segment.run {t₀ : Tetris} (hs : t₀.state = .hold1) (ht : Lit t₀) (is : List Sample)
    (hno : Along clk (fun t i => ¬Enters t i) t₀ is) : Segment t₀ is (Machine.run clk t₀ is) := by
  induction is using List.reverseRecOn with
  | nil => exact .start hs ht
  | append_singleton is i ih =>
    obtain ⟨hbefore, hlast, -⟩ := along_append.mp hno
    exact (ih hbefore).concat hlast

/-- The laws of the handshake in a state of a run. -/
structure Handshake (t : Tetris) : Prop where
  /-- At most one line is high. -/
  one : ∀ l l', t.line l = true → t.line l' = true → l = l'
  /-- None is high in two cycles running, whether there is a reset between them or not. -/
  apart : ∀ l n i, t.line l = true →
    ((Machine.run step t (List.replicate n .reset)).clk i).line l = false
  /-- The addresses and the word change with the pulses. -/
  changes : ∀ i, ChangesWithPulse t (t.clk i)
  /-- A write is left when the write FIFO is empty and the request is over. -/
  leaves : ∀ i x, t.state = .fw x → (t.clk i).state ≠ .fw x →
    i.wrBuffer = 0 ∧ t.writeReq = false
  /-- A reset clears the outputs and returns to `Hold1`. -/
  resets : t.reset.state = .hold1 ∧ (∀ l, t.reset.line l = false) ∧ t.reset.writeaddr = 0 ∧
    t.reset.writedata = 0 ∧ t.reset.readaddr = 0
  /-- Between two entries into `Hold1` the script is played, after a press of the key. -/
  pass : t.state = .hold1 → ∀ is i, Along clk (fun t i => ¬Enters t i) t is →
    Enters (Machine.run clk t is) i → pulses t (is ++ [i]) = script ∧ Keyed t (is ++ [i])

theorem Step.leaves_write (h : Step t i t') {x : WriteSlot} (hs : t.state = .fw x)
    (hne : t'.state ≠ .fw x) : i.wrBuffer = 0 ∧ t.writeReq = false := by
  cases h with
  | finishWrite y hs' hempty hlow => exact ⟨hempty, hlow⟩
  | awaitWrite y hs' => exact absurd hs hne
  | _ => simp_all

/-- The handshake holds in every run, however `reset`, the key and the FIFOs behave. -/
theorem handshake_run {t₀ : Tetris} (h : t₀.Fresh) (es : List Stimulus) :
    Handshake (Machine.run step t₀ es) := by
  have ht := h.lit.run es
  generalize Machine.run step t₀ es = t at ht
  refine ⟨fun l l' hl hl' => ?_, fun l n i hl => ht.low_after hl n i,
    fun i => (clk_step t i).changes ht, fun i x => (clk_step t i).leaves_write,
    ⟨rfl, line_reset t, rfl, rfl, rfl⟩, fun hs is i hno henters => ?_⟩
  · exact Option.some.inj ((ht l hl).symm.trans (ht l' hl'))
  · have hsegment := Segment.run hs ht is hno
    have hstate := henters.state
    have hclk : rising (Machine.run clk t is) ((Machine.run clk t is).clk i) = [] :=
      rising_of_low ((clk_step _ i).lit hsegment.lit) (by simp [henters.2, FsmState.line?])
    have hscript := hsegment.script
    rw [hstate] at hscript
    refine ⟨?_, (hsegment.keyed (by simp [hstate]) (by simp [hstate])).concat i⟩
    rw [pulses_concat, hclk, List.append_nil, hscript]
    rfl

theorem fresh_powerUp : Fresh {} where
  state := rfl
  lines l := by cases l <;> rfl
  writeaddr := rfl
  readaddr := rfl
  writedata := rfl

/-- The first pass after power-up, with FIFOs that are ready at once. -/
theorem handshake_firstPass :
    pulses {} (⟨true, 0, 1, 0⟩ :: List.replicate 31 ⟨false, 0, 1, 0⟩) = script :=
  ((handshake_run fresh_powerUp []).pass rfl (⟨true, 0, 1, 0⟩ :: List.replicate 30 ⟨false, 0, 1, 0⟩)
    ⟨false, 0, 1, 0⟩ (by decide) (by decide)).1

/-- `key` pressed and released, and two edges more: the machine is in `FWA`. -/
def firstRequest : List Stimulus :=
  [.clk ⟨true, 0, 0, 0⟩, .clk ⟨false, 0, 0, 0⟩, .clk ⟨false, 0, 0, 0⟩, .clk ⟨false, 0, 0, 0⟩]

/-- A reset leaves `FWA` with `write_req` high, and changes an address without a pulse. -/
theorem reset_leaves_fwa :
    (Machine.run step {} firstRequest).state = .fw .a ∧
      (step (Machine.run step {} firstRequest) .reset).state ≠ .fw .a ∧
      (Machine.run step {} firstRequest).writeReq = true ∧
      ¬ChangesWithPulse (Machine.run step {} firstRequest)
        (step (Machine.run step {} firstRequest) .reset) := by
  refine ⟨rfl, by decide, rfl, fun h => ?_⟩
  exact absurd (h.writeaddr (by decide)).2 (by decide)

end Tetris

end TetrisFpga.Sdram
