import TetrisFpga.Sdram.Streams

/-!
# A block is read back

A host that loads the write address, pushes a block, waits until it is written, and loads the
same address for reading takes the words of the block in their order.

## Main results

- `block_read_back`: what was written is what is read
-/

namespace TetrisFpga.Sdram
open Machine

variable {coincident : Bool} {s : System}

/-! ## The block is written -/

/-- The words `ws` have been pushed since the load of `a`, when the memory was `m`. -/
def Writing (a : ADDR) (m : Memory) (ws : List WORD) (s : System) : Prop :=
  s.tetris.writeLd = false ∧ Prompt s ∧
    (a.toNat + ws.length ≤ 0x1fffffe → ∃ v j, s.At v ∧ Streaming a m ws j s v)

theorem Writing.drive {a : ADDR} {m : Memory} {ws : List WORD} {t' : Tetris}
    (h : Writing a m ws s) (hld' : t'.writeLd = false) :
    Writing a m (ws ++ s.pushed coincident t') (s.drive coincident t') := by
  obtain ⟨hld, hlag, hstream⟩ := h
  refine ⟨hld', hlag.drive, fun hend => ?_⟩
  rw [List.length_append] at hend
  obtain ⟨v, j, hat, hs⟩ := hstream (by omega)
  obtain ⟨v', hat', hv⟩ := hat.drive coincident t'
  exact ⟨v', _, hat', hs.next hv hat hld hld' hlag (by omega)⟩

theorem Writing.hosted {a : ADDR} {m : Memory} {ws : List WORD} (h : Writing a m ws s)
    {hosts : List Tetris} (hld : ∀ x ∈ hosts, x.writeLd = false) :
    Writing a m (ws ++ s.sent coincident hosts) (run (System.drive coincident) s hosts) := by
  have hlow : Along (System.drive coincident) (fun _ x => x.writeLd = false) s hosts :=
    along_of_forall_mem (fun x hx _ => hld x hx) s
  exact hlow.invariant_collect (fun _ _ _ h hx => h.drive hx) h

/-- The run from the cycle in which `WR_LOAD` is high for the last time. -/
theorem Writing.of_load {v : View} {t : Tetris} (hat : s.At v) (hlag : Prompt s)
    (ht : t.writeLd = true) (hw : (s.drive coincident t).ctl.core.ctl.mWr = false)
    {hosts : List Tetris} (hne : hosts ≠ []) (hld : ∀ x ∈ hosts, x.writeLd = false) :
    Writing t.writeaddr (s.drive coincident t).device.mem
      ((s.drive coincident t).sent coincident hosts)
      (run (System.drive coincident) (s.drive coincident t) hosts) := by
  obtain _ | ⟨x, hosts⟩ := hosts
  · cases hne rfl
  obtain ⟨hx, hrest⟩ := List.forall_mem_cons.mp hld
  obtain ⟨v₁, hat₁, -⟩ := hat.drive coincident t
  obtain ⟨v₂, hat₂, hv⟩ := hat₁.drive coincident x
  obtain ⟨hwords, hzero⟩ := wrFifo_of_load coincident s ht
  rw [hat₁.mWr] at hw
  have hfirst : Writing t.writeaddr (s.drive coincident t).device.mem
      ((s.drive coincident t).pushed coincident x)
      ((s.drive coincident t).drive coincident x) := by
    refine ⟨hx, hlag.drive.drive, fun _ => ⟨v₂, 0, hat₂, ?_⟩⟩
    rw [hat₁.mem]
    exact Streaming.of_load hv hat₁ ht hx hwords hzero hw
  exact hfirst.hosted hrest

/-- When the FIFO is empty and no write is under way, all words have been written. -/
theorem Streaming.length_eq {a : ADDR} {m : Memory} {ws : List WORD} {j : ℕ} {v : View}
    (h : Streaming a m ws j s v) (hwords : s.wrFifo.words = []) (hw : v.stage.writes = false) :
    j = ws.length := by
  have hcount := h.count
  have hdrop := h.words
  rw [hwords, Stage.passed_eq_zero 5 hw, Nat.add_zero] at hdrop
  have hle := List.drop_eq_nil_iff.mp hdrop.symm
  omega

/-! ## The block is read -/

/-- Nothing is written while the block is read. -/
theorem Streaming.stays {a : ADDR} {m : Memory} {ws : List WORD} {v v' : View} {t' : Tetris}
    (coincident : Bool) (h : Streaming a m ws ws.length s v)
    (hv : v.Next s.tetris (s.wrFifo.rdusedw usedwBits) (s.rdFifo.wrusedw usedwBits) s.wrFifo.q v')
    (hat : s.At v) (hlag : Prompt s) (hend : a.toNat + ws.length ≤ 0x1fffffe)
    (hld : s.tetris.writeLd = false) (hld' : t'.writeLd = false)
    (hreq : s.tetris.writeReq = false) (hreq' : t'.writeReq = false) :
    v.mem = fill (wordAt a) m ws ∧ Streaming a m ws ws.length (s.drive coincident t') v' := by
  have hmem : v.mem = fill (wordAt a) m ws := by
    rw [h.mem, List.take_of_length_le (Nat.le_add_right _ _)]
  have hhost : (hostAt coincident s.tetris t').writeReq = false :=
    hostAt_field Tetris.writeReq hreq hreq'
  have hpushed : s.pushed coincident t' = [] := by
    rw [Streaming.pushed_eq hat hld hld', hhost]
    rfl
  have hnext : Streaming a m (ws ++ s.pushed coincident t') (ws.length + v.stage.wrote)
      (s.drive coincident t') v' := h.next hv hat hld hld' hlag hend
  rw [hpushed, List.append_nil] at hnext
  have hzero : v.stage.wrote = 0 := by
    have hcount := hnext.count
    omega
  rw [hzero] at hnext
  exact ⟨hmem, hnext⟩

/-- The block `ws` is in the memory from `a` on, and the host has taken the words `done`. -/
structure Reading (a : ADDR) (m : Memory) (ws done : List WORD) (s : System) : Prop where
  writeLd : s.tetris.writeLd = false
  writeReq : s.tetris.writeReq = false
  readLd : s.tetris.readLd = false
  prompt : Prompt s
  words : a.toNat + done.length + 2 ≤ 0x1fffffe → ∃ v k, s.At v ∧ Streaming a m ws ws.length s v ∧
    Delivering a (fill (wordAt a) m ws) k done.length s v ∧
    done = wordsFrom a (fill (wordAt a) m ws) done.length

/-- The signals of a host that reads. -/
def Takes (t : Tetris) : Prop :=
  t.writeLd = false ∧ t.writeReq = false ∧ t.readLd = false

/-- The words taken so far and the one taken now. -/
theorem Delivering.wordsFrom_append {b : ADDR} {m : Memory} {k g : ℕ} {v v' : View} {t' : Tetris}
    (h : Delivering b m k g s v)
    (hv : v.Next s.tetris (s.wrFifo.rdusedw usedwBits) (s.rdFifo.wrusedw usedwBits) s.wrFifo.q v')
    (hat : s.At v) (hmem : v.mem = m) (hld : s.tetris.readLd = false) (hld' : t'.readLd = false) :
    wordsFrom b m g ++ s.taken coincident t' =
      wordsFrom b m (g + (s.taken coincident t').length) := by
  rw [h.taken_eq hv hat hmem hld hld']
  split
  · exact (wordsFrom_succ b m g).symm
  · exact List.append_nil _

theorem Reading.drive {a : ADDR} {m : Memory} {ws done : List WORD} {t' : Tetris}
    (h : Reading a m ws done s) (hend : a.toNat + ws.length ≤ 0x1fffffe) (ht : Takes t') :
    Reading a m ws (done ++ s.taken coincident t') (s.drive coincident t') := by
  obtain ⟨hwld', hreq', hrld'⟩ := ht
  refine ⟨hwld', hreq', hrld', h.prompt.drive, fun hroom => ?_⟩
  rw [List.length_append] at hroom ⊢
  obtain ⟨v, k, hat, hs, hd, hdone⟩ := h.words (by omega)
  obtain ⟨v', hat', hv⟩ := hat.drive coincident t'
  obtain ⟨hmem, hs'⟩ :=
    hs.stays coincident hv hat h.prompt hend h.writeLd hwld' h.writeReq hreq'
  refine ⟨v', _, hat', hs', hd.next hv hat hmem h.readLd hrld' h.prompt (by omega), ?_⟩
  rw [← hd.wordsFrom_append hv hat hmem h.readLd hrld', ← hdone]

/-- The words of the block, as they are taken. -/
theorem wordsFrom_fill_prefix {a : ADDR} {m : Memory} {ws : List WORD} {g : ℕ}
    (hend : a.toNat + ws.length ≤ 0x1fffffe) (hg : g ≤ ws.length) :
    wordsFrom a (fill (wordAt a) m ws) g <+: ws := by
  have htake : wordsFrom a (fill (wordAt a) m ws) g = ws.take g := by
    refine List.ext_getElem? fun k => ?_
    by_cases hk : k < g
    · have hget : ws[k]? = some ws[k] := List.getElem?_eq_getElem (by omega)
      have hfill : fill (wordAt a) m ws (wordAt a k) = ws[k] :=
        fill_addr (fun i hi j hj => wordAt_inj hend hi hj) hget
      rw [List.getElem?_take_of_lt hk, hget, ← hfill]
      simp [wordsFrom, hk]
    · rw [List.getElem?_eq_none (by rw [wordsFrom_length]; omega),
        List.getElem?_eq_none (by rw [List.length_take]; omega)]
  rw [htake]
  exact List.take_prefix g ws

/-! ## A session -/

/-- A host loads a write address with `t`, pushes words with `writes`, loads the same address
for reading with `u`, when everything is written, and takes words with `reads`. -/
structure Session (coincident : Bool) (s : System) (t u : Tetris) (writes reads : List Tetris) :
    Prop where
  settled : ∃ v, s.At v
  prompt : Prompt s
  load : t.writeLd = true
  idle : (s.drive coincident t).ctl.core.ctl.mWr = false
  fills : ∀ x ∈ writes, x.writeLd = false
  reload : u.writeLd = false ∧ u.writeReq = false ∧ u.readLd = true ∧ u.readaddr = t.writeaddr
  written :
    let s' := run (System.drive coincident) (s.drive coincident t) (writes ++ [u])
    s'.wrFifo.words = [] ∧ s'.ctl.core.ctl.mWr = false ∧ s'.ctl.core.ctl.mRd = false
  takes : ∀ x ∈ reads, Takes x

/-- The block that is pushed in a session. -/
def block (coincident : Bool) (s : System) (t u : Tetris) (writes : List Tetris) : List WORD :=
  (s.drive coincident t).sent coincident (writes ++ [u])

/-- The words taken in a session. -/
def readBack (coincident : Bool) (s : System) (t u : Tetris) (writes reads : List Tetris) :
    List WORD :=
  (run (System.drive coincident) (s.drive coincident t) (writes ++ [u])).received coincident reads

/-- The run of the reads, from the cycle in which `RD_LOAD` is high for the last time. -/
theorem Reading.of_load (coincident : Bool) {a : ADDR} {m : Memory} {ws : List WORD} {v : View}
    (hat : s.At v) (hstream : Streaming a m ws ws.length s v) (hprompt : Prompt s)
    (hend : a.toNat + ws.length ≤ 0x1fffffe) (hwld : s.tetris.writeLd = false)
    (hreq : s.tetris.writeReq = false) (hrld : s.tetris.readLd = true)
    (haddr : s.tetris.readaddr = a) (hempty : s.rdFifo.words = []) (hr : v.stage.reads = false)
    {x : Tetris} {reads : List Tetris} (htakes : ∀ y ∈ x :: reads, Takes y) :
    Reading a m ws (s.received coincident (x :: reads))
      (run (System.drive coincident) s (x :: reads)) := by
  obtain ⟨hx, hrest⟩ := List.forall_mem_cons.mp htakes
  obtain ⟨v', hat', hv⟩ := hat.drive coincident x
  obtain ⟨-, hstream'⟩ := hstream.stays coincident hv hat hprompt hend hwld hx.1 hreq hx.2.1
  obtain ⟨hnone, hdeliver⟩ := Delivering.of_load coincident hv hat hrld hx.2.2 hempty hr
    (fill (wordAt a) m ws)
  rw [haddr] at hdeliver
  have hfirst : Reading a m ws (s.taken coincident x) (s.drive coincident x) := by
    rw [hnone]
    exact ⟨hx.1, hx.2.1, hx.2.2, hprompt.drive, fun _ => ⟨v', 0, hat', hstream', hdeliver, rfl⟩⟩
  have htakes' : Along (System.drive coincident) (fun _ y => Takes y) (s.drive coincident x)
      reads := along_of_forall_mem (fun y hy _ => hrest y hy) _
  exact htakes'.invariant_collect (fun _ _ _ h hy => h.drive hend hy) hfirst

/-- In every session the block is stored from the address on, no other word is changed, and the
words that the host takes are those of the block, from the first on. -/
theorem block_read_back {t u : Tetris} {writes reads : List Tetris}
    (h : Session coincident s t u writes reads)
    (hend : t.writeaddr.toNat + (block coincident s t u writes).length + 2 ≤ 0x1fffffe)
    (htake : (readBack coincident s t u writes reads).length ≤
      (block coincident s t u writes).length) :
    (run (System.drive coincident) (s.drive coincident t) (writes ++ [u])).device.mem =
        fill (wordAt t.writeaddr) (s.drive coincident t).device.mem
          (block coincident s t u writes) ∧
      readBack coincident s t u writes reads <+: block coincident s t u writes := by
  obtain ⟨v₀, hat₀⟩ := h.settled
  obtain ⟨hwld, hwreq, hrld, haddr⟩ := h.reload
  have hloads : ∀ x ∈ writes ++ [u], x.writeLd = false := by
    intro x hx
    obtain hx | hx := List.mem_append.mp hx
    · exact h.fills x hx
    · obtain rfl := List.mem_singleton.mp hx
      exact hwld
  have hlast : (run (System.drive coincident) (s.drive coincident t) (writes ++ [u])).tetris =
      u := by
    rw [run_append]
    rfl
  have hclear : (run (System.drive coincident) (s.drive coincident t)
      (writes ++ [u])).rdFifo.words = [] := by
    rw [run_append]
    exact (rdCycle_clear hrld).1
  obtain ⟨hempty, hw, hr⟩ := h.written
  obtain ⟨-, hprompt, hstream⟩ := Writing.of_load hat₀ h.prompt h.load h.idle (by simp) hloads
  obtain ⟨v, j, hat, hs⟩ := hstream (by show _ + (block coincident s t u writes).length ≤ _; omega)
  rw [hat.mWr] at hw
  rw [hat.mRd] at hr
  obtain rfl := hs.length_eq hempty hw
  -- the write stream is complete: it stands behind the block, and nothing is under way
  refine ⟨?_, ?_⟩
  · rw [hat.mem, hs.mem, List.take_of_length_le (Nat.le_add_right _ _)]
    rfl
  · obtain _ | ⟨x, reads⟩ := reads
    · exact List.nil_prefix
    · have hread := Reading.of_load coincident hat hs hprompt
        (by show _ + (block coincident s t u writes).length ≤ _; omega) (by rwa [hlast])
        (by rwa [hlast]) (by rwa [hlast]) (by rw [hlast, haddr]) hclear hr h.takes
      obtain ⟨-, -, -, -, -, hdone⟩ := hread.words (by
        show _ + (readBack coincident s t u writes (x :: reads)).length + 2 ≤ _
        omega)
      show (readBack coincident s t u writes (x :: reads)) <+: _
      rw [readBack, hdone]
      exact wordsFrom_fill_prefix (by show _ + (block coincident s t u writes).length ≤ _; omega)
        htake

theorem session_two : Session false (.powered (fun _ => 0) 2 1) (.loading 0x1234) (.asking 0x1234)
    Tetris.pushesTwo Tetris.takesTwo where
  settled := System.powered_at _ 2 1
  prompt := ⟨by decide, by decide⟩
  load := rfl
  idle := by decide +kernel
  fills := by decide
  reload := ⟨rfl, rfl, rfl, rfl⟩
  written := by decide +kernel
  takes := by simp [Tetris.takesTwo, Tetris.taking, Tetris.quiet, Takes]

theorem block_read_back_two :
    let s : System := .powered (fun _ => 0) 2 1
    let words := block false s (.loading 0x1234) (.asking 0x1234) Tetris.pushesTwo
    (run (System.drive false) (s.drive false (.loading 0x1234))
        (Tetris.pushesTwo ++ [.asking 0x1234])).device.mem =
        fill (wordAt 0x1234) (s.drive false (.loading 0x1234)).device.mem words ∧
      readBack false s (.loading 0x1234) (.asking 0x1234) Tetris.pushesTwo Tetris.takesTwo <+:
        words :=
  block_read_back session_two (by decide +kernel) (by decide +kernel)

example : readBack false (.powered (fun _ => 0) 2 1) (.loading 0x1234) (.asking 0x1234)
    Tetris.pushesTwo Tetris.takesTwo = [7, 9] := by
  decide +kernel

end TetrisFpga.Sdram
