import TetrisFpga.Machine.Trace
import TetrisFpga.Sdram.PowerUp

/-!
# Loading a new address

A pulse of `RD_LOAD` or `WR_LOAD` sets `rRD_ADDR` or `rWR_ADDR`, and lets no transaction start.
A transaction that runs goes on: a read delivers the words of its own address after the pulse,
and either steps the loaded address when it ends.
-/

namespace TetrisFpga.Sdram
open Machine

/-- Where the address register `r` goes when a transaction ends at this edge. -/
def Edge.stepRdAddr (e : Edge) (r : ADDR) : ADDR :=
  nextAddr false true e.ports.rdAddr e.ports.rdMaxAddr e.ports.rdLength r

def Edge.stepWrAddr (e : Edge) (r : ADDR) : ADDR :=
  nextAddr false true e.ports.wrAddr e.ports.wrMaxAddr e.ports.wrLength r

namespace Controller

variable {c : Controller} {m : Motion} {a : ADDR} {e : Edge} {is : List Edge}

theorem rRdAddr_edge (hload : e.ports.rdLoad = false) : (c.edge e).path.rRdAddr =
    if c.core.ctl.mRdDone && c.core.ctl.rdMask then e.stepRdAddr c.path.rRdAddr
    else c.path.rRdAddr := by
  show nextAddr e.ports.rdLoad _ _ _ _ _ = _
  rw [hload]
  cases c.core.ctl.mRdDone && c.core.ctl.rdMask <;> rfl

theorem rWrAddr_edge (hload : e.ports.wrLoad = false) : (c.edge e).path.rWrAddr =
    if c.core.ctl.mWrDone && c.core.ctl.wrMask then e.stepWrAddr c.path.rWrAddr
    else c.path.rWrAddr := by
  show nextAddr e.ports.wrLoad _ _ _ _ _ = _
  rw [hload]
  cases c.core.ctl.mWrDone && c.core.ctl.wrMask <;> rfl

/-! ## Reads -/

/-- The controller from the end of a pulse on until it pushes the first word. -/
structure FirstPush (c : Controller) (is : List Edge) : Prop where
  load : ∀ e ∈ is, e.ports.rdLoad = false
  quiet : ∀ d ∈ states edge c is, d.pushes = false
  pushes : (run edge c is).pushes = true

/-- A read that runs at the end of the pulse already fetches from `a`; or it has delivered its
words, and its end leaves `a` as it is. -/
def ReadSettled (a : ADDR) (c : Controller) (is : List Edge) : Prop :=
  c.core.ctl.rdMask = true →
    if c.core.ctl.mRdDone then ∀ e ∈ is.head?, e.stepRdAddr a = a else c.path.mAddr = a

/-- The next word that is pushed comes from `x`: of the read that runs, or of the next one. -/
structure Fetches (x : ADDR) (c : Controller) (m : Motion) : Prop where
  at_ : c.At m
  fresh : m ≠ .reported
  running : m.op = some .read → c.path.mAddr = x
  next : m.op = some .read ∨ c.path.rRdAddr = x

theorem At.pushes (h : c.At m) :
    c.pushes = true ↔ ∃ st, m = .moving .read st ∧ 8 ≤ st := by
  rw [Controller.pushes, h.rdMask, h.ctl]
  obtain _ | _ | _ | ⟨o, st⟩ | _ := m
  all_goals simp [Motion.ctl, Motion.op]
  all_goals grind

/-- A transaction goes on, or a write ends, while the controller does not push. -/
theorem At.goes_on (h : c.At m) (hidle : m ≠ .idle) (hfresh : m ≠ .reported)
    (hquiet : c.pushes = false) (e : Edge) :
    ∃ n, (c.edge e).At n ∧ n ≠ .reported ∧ (n.op = m.op ∨ n = .idle ∧ m.op = some .write) := by
  have hnext := h.edge e
  rw [h.starts_eq_none hidle e] at hnext
  cases m with
  | idle => exact absurd rfl hidle
  | asked o => exact ⟨_, hnext, by simp [Motion.next], .inl rfl⟩
  | waiting o =>
    cases hack : c.core.ci.cmdAck <;> rw [hack] at hnext
    all_goals exact ⟨_, hnext, by simp [Motion.next], .inl rfl⟩
  | moving o st =>
    by_cases hlt : st < c.path.mLength.toNat + 7
    · rw [Motion.next_moving hlt] at hnext
      exact ⟨_, hnext, by simp, .inl rfl⟩
    · simp only [Motion.next, if_neg hlt] at hnext
      cases o with
      | write => exact ⟨_, hnext, by simp, .inr ⟨rfl, rfl⟩⟩
      | read =>
        -- With the last of its words a read pushes.
        have hlen := h.within.1
        have hpush := h.pushes.mpr ⟨st, rfl, by omega⟩
        rw [hquiet] at hpush
        cases hpush
  | reported => exact absurd rfl hfresh

/-- While the controller does not push. -/
theorem Fetches.edge {x : ADDR} (h : Fetches x c m) (hload : e.ports.rdLoad = false)
    (hquiet : c.pushes = false) : ∃ n, Fetches x (c.edge e) n := by
  have hrd : (c.edge e).path.rRdAddr = c.path.rRdAddr := by
    rw [rRdAddr_edge hload, h.at_.mRdDone, decide_eq_false h.fresh]
    rfl
  by_cases hm : m = .idle
  · subst hm
    have hx : c.path.rRdAddr = x := h.next.resolve_left (by simp [Motion.op])
    have hnext := h.at_.edge e
    refine ⟨_, hnext, ?_, ?_, .inr (hrd.trans hx)⟩
    · cases c.starts e <;> rintro ⟨⟩
    · intro hop
      have hs : c.starts e = some .read := by
        generalize c.starts e = s at hop
        rcases s with _ | _ | _
        · cases hop
        · cases hop
        · rfl
      exact (mAddr_of_starts hs).trans hx
  · have haddr := mAddr_edge (h.at_.starts_eq_none hm e)
    obtain ⟨n, hn, hfresh, hop | ⟨rfl, hop⟩⟩ := h.at_.goes_on hm h.fresh hquiet e
    · exact ⟨n, hn, hfresh, fun ho => haddr.trans (h.running (hop ▸ ho)),
        h.next.imp hop.trans hrd.trans⟩
    · have hx : c.path.rRdAddr = x := h.next.resolve_left (by simp [hop])
      exact ⟨_, hn, by simp, by simp [Motion.op], .inr (hrd.trans hx)⟩

/-- The first word that is pushed. -/
theorem Fetches.first_push {x : ADDR} (h : Fetches x c m) (hp : FirstPush c is) :
    (run Controller.edge c is).path.mAddr = x := by
  induction is generalizing c m with
  | nil =>
    obtain ⟨st, rfl, -⟩ := h.at_.pushes.mp hp.pushes
    exact h.running rfl
  | cons e is ih =>
    obtain ⟨hload, hrest⟩ := List.forall_mem_cons.mp hp.load
    obtain ⟨hquiet, hquiets⟩ := List.forall_mem_cons.mp hp.quiet
    obtain ⟨n, hn⟩ := h.edge hload hquiet
    exact ih hn ⟨hrest, hquiets, hp.pushes⟩

/-- After a pulse that has loaded `a`. -/
theorem At.read_settled_iff (h : c.At m) (ha : c.path.rRdAddr = a) (hp : FirstPush c is) :
    (run Controller.edge c is).path.mAddr = a ↔ ReadSettled a c is := by
  rw [ReadSettled, h.rdMask, h.mRdDone]
  by_cases hm : m = .reported
  · subst hm
    obtain _ | ⟨e, is⟩ := is
    · obtain ⟨_, ⟨⟩, -⟩ := h.pushes.mp hp.pushes
    · have hload := (List.forall_mem_cons.mp hp.load).1
      have hfetch : Fetches (e.stepRdAddr a) (c.edge e) .idle :=
        ⟨h.edge e, nofun, nofun, .inr (by
          rw [rRdAddr_edge hload, h.mRdDone, h.rdMask, ha]
          rfl)⟩
      have hpush : FirstPush (c.edge e) is := ⟨(List.forall_mem_cons.mp hp.load).2,
        (List.forall_mem_cons.mp hp.quiet).2, hp.pushes⟩
      have hfirst := hfetch.first_push hpush
      rw [run_cons, hfirst]
      simp [Motion.op]
  · by_cases hop : m.op = some .read
    · have hfirst := Fetches.first_push ⟨h, hm, fun _ => rfl, .inl hop⟩ hp
      simp [hfirst, hm, hop]
    · have hfirst := Fetches.first_push ⟨h, hm, fun ho => absurd ho hop, .inr ha⟩ hp
      simp [hfirst, hop]

/-! ## Writes -/

/-- The controller from the end of a pulse on until it starts a write. -/
structure FirstWrite (c : Controller) (is : List Edge) (e : Edge) : Prop where
  load : ∀ e ∈ is, e.ports.wrLoad = false
  quiet : Along edge (fun d e => d.starts e ≠ some .write) c is
  starts : (run edge c is).starts e = some .write

/-- At this edge no write ends, or its end leaves `a` as it is. -/
def KeepsWrAddr (a : ADDR) (c : Controller) (e : Edge) : Prop :=
  c.core.ctl.mWrDone = true → c.core.ctl.wrMask = true → e.stepWrAddr a = a

/-- The end of a write that runs at the end of the pulse leaves `a` as it is. -/
def WriteSettled (a : ADDR) (c : Controller) (is : List Edge) : Prop :=
  c.core.ctl.wrMask = true → Along edge (KeepsWrAddr a) c is

/-- Without a write the address stays. -/
theorem At.rWrAddr_kept (h : c.At m) (hop : m.op ≠ some .write)
    (hload : ∀ e ∈ is, e.ports.wrLoad = false)
    (hquiet : Along Controller.edge (fun d e => d.starts e ≠ some .write) c is) :
    (run Controller.edge c is).path.rWrAddr = c.path.rWrAddr ∧
      Along Controller.edge (KeepsWrAddr a) c is := by
  induction is generalizing c m with
  | nil => exact ⟨rfl, trivial⟩
  | cons e is ih =>
    obtain ⟨hload, hloads⟩ := List.forall_mem_cons.mp hload
    have hmask : c.core.ctl.wrMask = false := h.wrMask.trans (decide_eq_false hop)
    obtain ⟨haddr, hkeeps⟩ := ih (h.edge e) (Motion.op_next_ne hop hquiet.1) hloads hquiet.2
    refine ⟨haddr.trans ?_, fun _ hm => ?_, hkeeps⟩
    · rw [rWrAddr_edge hload, hmask, Bool.and_false]
      rfl
    · rw [hmask] at hm
      cases hm

/-- The address that the next write uses. -/
theorem At.rWrAddr_iff (h : c.At m) (ha : c.path.rWrAddr = a)
    (hload : ∀ e ∈ is, e.ports.wrLoad = false)
    (hquiet : Along Controller.edge (fun d e => d.starts e ≠ some .write) c is) :
    (run Controller.edge c is).path.rWrAddr = a ↔ Along Controller.edge (KeepsWrAddr a) c is := by
  induction is generalizing c m with
  | nil => exact iff_of_true ha trivial
  | cons e is ih =>
    obtain ⟨hload, hloads⟩ := List.forall_mem_cons.mp hload
    have hnext := h.edge e
    have haddr := rWrAddr_edge (c := c) hload
    by_cases hdone : c.core.ctl.mWrDone = true
    · -- The write ends here, and no other begins.
      obtain rfl := h.mWrDone.mp hdone
      have hidle : (Motion.moving .write (c.path.mLength.toNat + 7)).next c.path.mLength.toNat
          c.core.ci.cmdAck (c.starts e) = .idle := if_neg (Nat.lt_irrefl _)
      rw [hidle] at hnext
      have hmask : c.core.ctl.wrMask = true := h.wrMask
      rw [hdone, hmask, ha] at haddr
      obtain ⟨hkept, hkeeps⟩ := hnext.rWrAddr_kept (a := a) nofun hloads hquiet.2
      rw [run_cons, hkept, haddr, along_cons, and_iff_left hkeeps]
      exact ⟨fun hs _ _ => hs, fun hk => hk hdone hmask⟩
    · rw [Bool.not_eq_true] at hdone
      rw [hdone, Bool.false_and] at haddr
      rw [run_cons, ih hnext (haddr.trans ha) hloads hquiet.2, along_cons, and_iff_right]
      intro hd
      rw [hdone] at hd
      cases hd

/-- After a pulse that has loaded `a`. -/
theorem At.write_settled_iff (h : c.At m) (ha : c.path.rWrAddr = a) (hw : FirstWrite c is e) :
    ((run Controller.edge c is).edge e).path.mAddr = a ↔ WriteSettled a c is := by
  have haddr : ((run Controller.edge c is).edge e).path.mAddr =
      (run Controller.edge c is).path.rWrAddr := mAddr_of_starts hw.starts
  rw [haddr, h.rWrAddr_iff ha hw.load hw.quiet]
  refine ⟨fun hk _ => hk, fun hk => ?_⟩
  by_cases hop : m.op = some .write
  · exact hk (h.wrMask.trans (decide_eq_true hop))
  · exact (h.rWrAddr_kept hop hw.load hw.quiet).2

/-! ## Pulses -/

/-- `RD_LOAD` is 1 for one edge or more, with `RD_ADDR = a`. -/
def ReadPulse (a : ADDR) (pulse : List Edge) : Prop :=
  pulse ≠ [] ∧ ∀ e ∈ pulse, e.ports.rdLoad = true ∧ e.ports.rdAddr = a

def WritePulse (a : ADDR) (pulse : List Edge) : Prop :=
  pulse ≠ [] ∧ ∀ e ∈ pulse, e.ports.wrLoad = true ∧ e.ports.wrAddr = a

theorem run_eq_edge_getLast {pulse : List Edge} (hne : pulse ≠ []) :
    run edge c pulse = (run edge c pulse.dropLast).edge (pulse.getLast hne) := by
  conv_lhs => rw [← List.dropLast_concat_getLast hne, run_append]
  rfl

theorem ReadPulse.rRdAddr {pulse : List Edge} (h : ReadPulse a pulse) :
    (run edge c pulse).path.rRdAddr = a := by
  obtain ⟨hne, hall⟩ := h
  obtain ⟨hload, haddr⟩ := hall _ (pulse.getLast_mem hne)
  rw [run_eq_edge_getLast hne]
  exact (if_pos hload).trans haddr

theorem WritePulse.rWrAddr {pulse : List Edge} (h : WritePulse a pulse) :
    (run edge c pulse).path.rWrAddr = a := by
  obtain ⟨hne, hall⟩ := h
  obtain ⟨hload, haddr⟩ := hall _ (pulse.getLast_mem hne)
  rw [run_eq_edge_getLast hne]
  exact (if_pos hload).trans haddr

theorem exists_at_edge (is : List Edge) : ∃ m, (run edge {} is).At m :=
  have hstep : ∀ (c : Controller) e, (∃ m, c.At m) → ∃ m, (c.edge e).At m :=
    fun _ e ⟨_, h⟩ => ⟨_, h.edge e⟩
  run_invariant hstep ⟨_, at_powerUp⟩ is

/-- When a loaded address is the one that is used next: in every run, after a pulse of
`RD_LOAD` for the first word that is pushed, and after a pulse of `WR_LOAD` for the first write
that is started. -/
theorem reload_iff (before pulse : List Edge) (a : ADDR) :
    (ReadPulse a pulse → ∀ is, FirstPush (run edge {} (before ++ pulse)) is →
      ((run edge {} (before ++ pulse ++ is)).path.mAddr = a ↔
        ReadSettled a (run edge {} (before ++ pulse)) is)) ∧
      (WritePulse a pulse → ∀ is e, FirstWrite (run edge {} (before ++ pulse)) is e →
        (((run edge {} (before ++ pulse ++ is)).edge e).path.mAddr = a ↔
          WriteSettled a (run edge {} (before ++ pulse)) is)) := by
  obtain ⟨m, h⟩ := exists_at_edge (before ++ pulse)
  refine ⟨fun hp is hfirst => ?_, fun hp is e hfirst => ?_⟩
  · rw [run_append]
    exact h.read_settled_iff (run_append edge {} before pulse ▸ hp.rRdAddr) hfirst
  · rw [run_append]
    exact h.write_settled_iff (run_append edge {} before pulse ▸ hp.rWrAddr) hfirst

/-! ### A read that runs -/

/-- The write FIFO is empty, and the read FIFO holds a word. -/
def resting : Edge :=
  { loading with ports := { loading.ports with wrLoad := false }, wusedw := 1 }

/-- A word has come for the write FIFO, and the read FIFO has run empty. -/
def draining : List Edge := [{ resting with rusedw := 1 }, { resting with wusedw := 0 }]

def loadingFive : Edge :=
  { resting with ports := { resting.ports with rdLoad := true, rdAddr := 5 } }

/-- `RD_LOAD` comes while a read of address 0 runs, and the word of address 0 is pushed. -/
theorem stale_push :
    let before := List.replicate 24221 loading ++ (draining ++ List.replicate 8 resting)
    ReadPulse 5 [loadingFive] ∧
      FirstPush (run edge {} (before ++ [loadingFive])) (List.replicate 3 resting) ∧
      (run edge {} (before ++ [loadingFive] ++ List.replicate 3 resting)).path.mAddr ≠ 5 := by
  intro before
  have hbefore : run edge {} (before ++ [loadingFive]) =
      run edge ready (draining ++ List.replicate 8 resting ++ [loadingFive]) := by
    rw [List.append_assoc, run_append, run_loading_ready, List.append_assoc]
  rw [run_append edge {} (before ++ [loadingFive]), hbefore]
  exact ⟨⟨nofun, by decide⟩, ⟨by decide, by decide +kernel, by decide +kernel⟩, by decide +kernel⟩

/-! ### Pulses while nothing runs -/

def loadingNine : Edge :=
  { resting with ports := { resting.ports with wrLoad := true, wrAddr := 9 } }

/-- The first word that is pushed comes from the loaded address, and the first write goes to it. -/
theorem fresh_loads :
    let before := List.replicate 24221 loading
    let reads := draining ++ List.replicate 12 resting
    (FirstPush (run edge {} (before ++ [loadingFive])) reads ∧
        (run edge {} (before ++ [loadingFive] ++ reads)).path.mAddr = 5) ∧
      (FirstWrite (run edge {} (before ++ [loadingNine])) [offering] offering ∧
        ((run edge {} (before ++ [loadingNine] ++ [offering])).edge offering).path.mAddr = 9) := by
  intro before reads
  have hread : run edge {} (before ++ [loadingFive]) = run edge ready [loadingFive] := by
    rw [run_append, run_loading_ready]
  have hwrite : run edge {} (before ++ [loadingNine]) = run edge ready [loadingNine] := by
    rw [run_append, run_loading_ready]
  have hpush : FirstPush (run edge {} (before ++ [loadingFive])) reads := by
    rw [hread]
    exact ⟨by decide, by decide +kernel, by decide +kernel⟩
  have hstart : FirstWrite (run edge {} (before ++ [loadingNine])) [offering] offering := by
    rw [hwrite]
    exact ⟨by decide, ⟨by decide +kernel, trivial⟩, by decide +kernel⟩
  have hfive := (reload_iff before [loadingFive] 5).1 ⟨nofun, by decide⟩ reads hpush
  have hnine := (reload_iff before [loadingNine] 9).2 ⟨nofun, by decide⟩ [offering] offering hstart
  refine ⟨⟨hpush, hfive.mpr ?_⟩, ⟨hstart, hnine.mpr ?_⟩⟩
  -- neither a read nor a write runs when the pulse ends
  · rw [hread]
    intro hmask
    exact absurd hmask (by decide +kernel)
  · rw [hwrite]
    intro hmask
    exact absurd hmask (by decide +kernel)

end Controller

end TetrisFpga.Sdram
