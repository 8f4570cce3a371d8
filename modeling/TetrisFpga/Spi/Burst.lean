import TetrisFpga.Spi.Exchange

/-!
# Registers and bursts over SPI

`MAXreg_wr`, `MAXbytes_wr`, `MAXreg_rd` and `MAXbytes_rd` of `MAX3421E.c`, over the driver. The
last byte of a burst goes out after the loop, with flags that release the chip select.
-/

namespace TetrisFpga.Spi
open Program
open Usb (BYTE WORD DWORD)

section Burst

variable {σ ω : Type} [Board σ] [DecidableEq ω]

/-- `NULL` -/
def null : Pointer (Cell ω) := Cell.null.ptr

/-- `MAXreg_wr`. -/
def maxRegWr (fuel : ℕ) (reg val : BYTE) : Prog σ ω Unit := do
  store Cell.reg.ptr reg
  store Cell.val.ptr val
  store Cell.regPlusTwo.ptr (reg + 2)
  let _ ← altAvalonSpiCommand fuel 0 1 Cell.regPlusTwo.ptr 0 null commandMerge
  let returnCode ← altAvalonSpiCommand fuel 0 1 Cell.val.ptr 0 null 0
  when (returnCode < 0) (printf "write error 1")

/-- `MAXbytes_wr`. -/
def maxBytesWr (fuel : ℕ) (reg nbytes : BYTE) (data : Pointer ω) : Prog σ ω (Pointer ω) := do
  store Cell.reg.ptr reg
  store Cell.regPlusTwo.ptr (reg + 2)
  let _ ← altAvalonSpiCommand fuel 0 1 Cell.regPlusTwo.ptr 0 null commandMerge
  (List.range (nbytes.toNat - 1)).forM fun i => do
    let _ ← altAvalonSpiCommand fuel 0 1 (data.add i).cell 0 null
      (commandMerge ||| commandToggleSsN)
  let returnCode ← altAvalonSpiCommand fuel 0 1 (data.add (nbytes.toNat - 1)).cell 0 null 0
  when (returnCode < 0) (printf "write error 2")
  return data.add nbytes.toNat

/-- `MAXreg_rd`. -/
def maxRegRd (fuel : ℕ) (reg : BYTE) : Prog σ ω BYTE := do
  store Cell.reg.ptr reg
  let _ ← altAvalonSpiCommand fuel 0 1 Cell.reg.ptr 0 null commandMerge
  store Cell.val.ptr 0
  let returnCode ← altAvalonSpiCommand fuel 0 0 null 1 Cell.val.ptr 0
  if returnCode < 0 then
    printf "read error 1"
    return 0
  else
    load Cell.val.ptr

/-- `MAXbytes_rd`. -/
def maxBytesRd (fuel : ℕ) (reg nbytes : BYTE) (data : Pointer ω) : Prog σ ω (Pointer ω) := do
  store Cell.reg.ptr reg
  let _ ← altAvalonSpiCommand fuel 0 1 Cell.reg.ptr 0 null commandMerge
  (List.range (nbytes.toNat - 1)).forM fun i => do
    let _ ← altAvalonSpiCommand fuel 0 0 null 1 (data.add i).cell
      (commandMerge ||| commandToggleSsN)
  let _ ← altAvalonSpiCommand fuel 0 0 null 1 (data.add (nbytes.toNat - 1)).cell 0
  return data.add nbytes.toNat

/-! ## Single bytes -/

variable {fuel : ℕ} {r : Record ω}

theorem wire_append (as bs : List (BYTE × BYTE)) : wire (as ++ bs) = wire as ++ wire bs :=
  List.flatMap_append

theorem wire_singleton (sent got : BYTE) : wire [(sent, got)] = word sent got :=
  List.flatMap_singleton _ _

theorem length_wire (bytes : List (BYTE × BYTE)) : (wire bytes).length = 8 * bytes.length := by
  induction bytes with
  | nil => rfl
  | cons b bytes ih =>
    rw [← List.singleton_append, wire_append, List.length_append, ih, wire_singleton, length_word,
      List.length_append, Nat.mul_add]
    rfl

/-- A command that writes one byte. -/
theorem write_run (flags : DWORD) (hfuel : 91 < fuel) (p : Pointer (Cell ω)) :
    Succeeds (Before flags r) (altAvalonSpiCommand fuel 0 1 p 0 null flags : Prog σ ω ℤ)
      fun returnCode w => returnCode = 0 ∧ ∃ got,
        After flags { r with bits := r.bits ++ word (r.mem p.obj p.off) got } w := by
  have hrounds : 2 * ((1 : DWORD).toNat + (0 : DWORD).toNat) ≤ fuel := by
    show 2 * (1 + 0) ≤ fuel
    omega
  refine (command_run hfuel hrounds (by decide)).conseq (fun _ h => h) ?_
  rintro _ w ⟨rfl, got, hlen, hw⟩
  obtain ⟨b, rfl⟩ := List.length_eq_one_iff.mp hlen
  refine ⟨rfl, b, ?_⟩
  simpa [outgoing, wire, Memory.bytes] using hw

/-- A command that reads one byte. -/
theorem read_run (flags : DWORD) (hfuel : 91 < fuel) (q : Pointer (Cell ω)) :
    Succeeds (Before flags r) (altAvalonSpiCommand fuel 0 0 null 1 q flags : Prog σ ω ℤ)
      fun returnCode w => returnCode = 1 ∧ ∃ got,
        After flags { r with bits := r.bits ++ word 0 got, mem := r.mem.set q got } w := by
  have hrounds : 2 * ((0 : DWORD).toNat + (1 : DWORD).toNat) ≤ fuel := by
    show 2 * (0 + 1) ≤ fuel
    omega
  refine (command_run hfuel hrounds (by decide)).conseq (fun _ h => h) ?_
  rintro _ w ⟨rfl, got, hlen, hw⟩
  obtain ⟨b, rfl⟩ := List.length_eq_one_iff.mp hlen
  refine ⟨rfl, b, ?_⟩
  rw [← Memory.put_singleton]
  simpa [outgoing, wire, Memory.bytes] using hw

omit [Board σ] [DecidableEq ω] in
theorem before_merge {w : World σ ω} (h : Idle r w) :
    Before commandMerge { r with bits := [] } w :=
  .inr ⟨by decide, rfl, r.bits, h⟩

omit [Board σ] [DecidableEq ω] in
theorem after_merge {flags : DWORD} (hflags : flags &&& commandMerge ≠ 0) {w : World σ ω}
    (h : After flags r w) : Open r w := by
  rwa [After, if_neg hflags] at h

omit [Board σ] [DecidableEq ω] in
theorem after_release {w : World σ ω} (h : After 0 r w) :
    Idle { r with frames := r.frames ++ [r.bits] } w := by
  rwa [After, if_pos (by decide)] at h

/-- The command byte opens a frame. -/
theorem first_run (hfuel : 91 < fuel) (p : Pointer (Cell ω)) : Succeeds (Idle r)
    (altAvalonSpiCommand fuel 0 1 p 0 null commandMerge : Prog σ ω ℤ) fun _ w => ∃ status,
      Open { r with bits := wire [(r.mem p.obj p.off, status)] } w := by
  refine (write_run _ hfuel p).conseq (fun _ => before_merge) ?_
  rintro - w ⟨-, status, hw⟩
  rw [← wire_singleton] at hw
  exact ⟨status, after_merge (by decide) hw⟩

/-! ## Bursts -/

/-- The loop of `MAXbytes_wr`. -/
theorem writes_run (hfuel : 91 < fuel) (data : Pointer ω) (n : ℕ) : Succeeds (Open r)
    ((List.range n).forM fun i => do
      let _ ← altAvalonSpiCommand fuel 0 1 (data.add i).cell 0 null
        (commandMerge ||| commandToggleSsN) : Prog σ ω Unit)
    fun _ w => ∃ got : List BYTE, got.length = n ∧
      Open { r with bits := r.bits ++ wire ((r.mem.bytes data.cell n).zip got) } w := by
  refine (succeeds_range (P := fun n w => ∃ got : List BYTE, got.length = n ∧
    Open { r with bits := r.bits ++ wire ((r.mem.bytes data.cell n).zip got) } w) ?_ n).conseq
    (fun w h => ⟨[], rfl, ?_⟩) fun _ _ h => h
  · rintro i w ⟨got, hlen, hw⟩
    obtain ⟨returnCode, w', hrun, -, b, hw'⟩ :=
      write_run (commandMerge ||| commandToggleSsN) hfuel (data.add i).cell w (.inl hw)
    have hopen := after_merge (by decide) hw'
    have hlengths : (r.mem.bytes data.cell i).length = got.length := by
      rw [Memory.length_bytes, hlen]
    refine ⟨(), w', bind_of_ok hrun _, got ++ [b], by simp [hlen], ?_⟩
    rw [Memory.bytes_succ, List.zip_append hlengths, List.zip_cons_cons, List.zip_nil_left,
      wire_append, wire_singleton, ← List.append_assoc]
    exact hopen
  · simpa [wire] using h

/-- The loop of `MAXbytes_rd`. -/
theorem reads_run (hfuel : 91 < fuel) (data : Pointer ω) (n : ℕ) : Succeeds (Open r)
    ((List.range n).forM fun i => do
      let _ ← altAvalonSpiCommand fuel 0 0 null 1 (data.add i).cell
        (commandMerge ||| commandToggleSsN) : Prog σ ω Unit)
    fun _ w => ∃ got : List BYTE, got.length = n ∧ Open { r with
      bits := r.bits ++ wire (got.map (Prod.mk 0))
      mem := r.mem.put data.cell got } w := by
  refine (succeeds_range (P := fun n w => ∃ got : List BYTE, got.length = n ∧ Open { r with
    bits := r.bits ++ wire (got.map (Prod.mk 0))
    mem := r.mem.put data.cell got } w) ?_ n).conseq (fun w h => ⟨[], rfl, ?_⟩) fun _ _ h => h
  · rintro _ w ⟨got, rfl, hw⟩
    obtain ⟨returnCode, w', hrun, -, b, hw'⟩ :=
      read_run (commandMerge ||| commandToggleSsN) hfuel (data.add got.length).cell w (.inl hw)
    have hopen := after_merge (by decide) hw'
    refine ⟨(), w', bind_of_ok hrun _, got ++ [b], by simp, ?_⟩
    rw [List.map_append, List.map_singleton, wire_append, wire_singleton, ← List.append_assoc,
      ← Memory.put_concat]
    exact hopen
  · simpa [wire] using h

/-! ## The functions -/

/-- `MAXreg_wr` makes a frame of `reg + 2` and `val`. -/
theorem maxRegWr_run (hfuel : 91 < fuel) (reg val : BYTE) :
    Succeeds (Idle r) (maxRegWr fuel reg val : Prog σ ω Unit) fun _ w =>
      ∃ status got bits, Idle { r with
        bits := bits
        frames := r.frames ++ [wire [(reg + 2, status), (val, got)]]
        mem := ((r.mem.set Cell.reg.ptr reg).set Cell.val.ptr val).set Cell.regPlusTwo.ptr
          (reg + 2) } w := by
  refine succeeds_bind (idle_store _ _) fun _ => ?_
  refine succeeds_bind (idle_store _ _) fun _ => ?_
  refine succeeds_bind (idle_store _ _) fun _ => ?_
  refine succeeds_bind (first_run hfuel _) fun _ => ?_
  rintro w ⟨status, hw⟩
  obtain ⟨_, w', hrun, rfl, got, hw'⟩ :=
    write_run 0 hfuel (Cell.val : Cell ω).ptr w (.inl hw)
  have hval : (Cell.val : Cell ω).ptr.obj ≠ (Cell.regPlusTwo : Cell ω).ptr.obj := by
    simp [Cell.ptr]
  have hidle := after_release hw'
  simp only [Memory.set_self, Memory.set_apart hval] at hidle
  rw [← wire_singleton, ← wire_append] at hidle
  exact ⟨_, w', bind_of_ok hrun _, status, got, _, hidle⟩

/-- `MAXreg_rd` makes a frame of `reg` and a byte, which it returns. -/
theorem maxRegRd_run (hfuel : 91 < fuel) (reg : BYTE) :
    Succeeds (Idle r) (maxRegRd fuel reg : Prog σ ω BYTE) fun val w =>
      ∃ status bits, Idle { r with
        bits := bits
        frames := r.frames ++ [wire [(reg, status), (0, val)]]
        mem := ((r.mem.set Cell.reg.ptr reg).set Cell.val.ptr 0).set Cell.val.ptr val } w := by
  refine succeeds_bind (idle_store _ _) fun _ => ?_
  refine succeeds_bind (first_run hfuel _) fun _ => ?_
  rintro w ⟨status, hw⟩
  obtain ⟨u, w₁, hstore, hw₁⟩ := open_store (Cell.val : Cell ω).ptr 0 w hw
  obtain ⟨_, w₂, hrun, rfl, got, hw₂⟩ :=
    read_run 0 hfuel (Cell.val : Cell ω).ptr w₁ (.inl hw₁)
  have hidle := after_release hw₂
  simp only [Memory.set_self] at hidle
  rw [← wire_singleton, ← wire_append] at hidle
  obtain ⟨val, w₃, hload, hval, hw₃⟩ := idle_load (Cell.val : Cell ω).ptr w₂ hidle
  simp only [Memory.set_self] at hval
  subst hval
  refine ⟨val, w₃, ?_, status, _, hw₃⟩
  exact (bind_of_ok hstore _).trans ((bind_of_ok hrun _).trans hload)

/-- `MAXbytes_rd` makes one frame, whose last byte comes after the loop. -/
theorem maxBytesRd_run (hfuel : 91 < fuel) (reg nbytes : BYTE) (data : Pointer ω) :
    Succeeds (Idle r) (maxBytesRd fuel reg nbytes data : Prog σ ω (Pointer ω)) fun p w =>
      p = data.add nbytes.toNat ∧ ∃ (status : BYTE) (got : List BYTE) (last : BYTE),
        got.length = nbytes.toNat - 1 ∧ ∃ bits, Idle { r with
          bits := bits
          frames := r.frames ++ [wire ((reg, status) :: got.map (Prod.mk 0) ++ [(0, last)])]
          mem := ((r.mem.set Cell.reg.ptr reg).put data.cell got).set
            (data.add (nbytes.toNat - 1)).cell last } w := by
  refine succeeds_bind (idle_store _ _) fun _ => ?_
  refine succeeds_bind (first_run hfuel _) fun _ => ?_
  rintro w ⟨status, hw⟩
  -- The loop keeps the frame open, the last command releases the chip.
  obtain ⟨u, w₁, hloop, got, hlen, hw₁⟩ := reads_run hfuel data (nbytes.toNat - 1) w hw
  obtain ⟨returnCode, w₂, hlast, -, last, hw₂⟩ :=
    read_run 0 hfuel (data.add (nbytes.toNat - 1)).cell w₁ (.inl hw₁)
  have hidle := after_release hw₂
  simp only [Memory.set_self] at hidle
  rw [← wire_singleton, ← wire_append, ← wire_append] at hidle
  exact ⟨_, w₂, (bind_of_ok hloop _).trans (bind_of_ok hlast _), rfl, status, got, last, hlen, _,
    hidle⟩

/-- `MAXbytes_wr` likewise. -/
theorem maxBytesWr_run (hfuel : 91 < fuel) (reg nbytes : BYTE) (data : Pointer ω) :
    Succeeds (Idle r) (maxBytesWr fuel reg nbytes data : Prog σ ω (Pointer ω)) fun p w =>
      p = data.add nbytes.toNat ∧ ∃ (status : BYTE) (got : List BYTE) (last : BYTE),
        got.length = nbytes.toNat - 1 ∧ ∃ bits, Idle { r with
          bits := bits
          frames := r.frames ++ [wire ((reg + 2, status) ::
            (r.mem.bytes data.cell (nbytes.toNat - 1)).zip got ++
            [(r.mem data.cell.obj (data.off + (nbytes.toNat - 1)), last)])]
          mem := (r.mem.set Cell.reg.ptr reg).set Cell.regPlusTwo.ptr (reg + 2) } w := by
  refine succeeds_bind (idle_store _ _) fun _ => ?_
  refine succeeds_bind (idle_store _ _) fun _ => ?_
  refine succeeds_bind (first_run hfuel _) fun _ => ?_
  rintro w ⟨status, hw⟩
  obtain ⟨u, w₁, hloop, got, hlen, hw₁⟩ := writes_run hfuel data (nbytes.toNat - 1) w hw
  obtain ⟨_, w₂, hlast, rfl, last, hw₂⟩ :=
    write_run 0 hfuel (data.add (nbytes.toNat - 1)).cell w₁ (.inl hw₁)
  have hreg : data.cell.obj ≠ (Cell.reg : Cell ω).ptr.obj := by simp [Pointer.cell, Cell.ptr]
  have hregPlusTwo : data.cell.obj ≠ (Cell.regPlusTwo : Cell ω).ptr.obj := by
    simp [Pointer.cell, Cell.ptr]
  have hidle := after_release hw₂
  simp only [Memory.set_self, Memory.bytes_set_apart hreg, Memory.bytes_set_apart hregPlusTwo,
    Pointer.cell_add, Pointer.add_obj, Memory.set_apart hreg, Memory.set_apart hregPlusTwo] at hidle
  rw [← wire_singleton, ← wire_append, ← wire_append] at hidle
  exact ⟨_, w₂, (bind_of_ok hloop _).trans (bind_of_ok hlast _), rfl, status, got, last, hlen, _,
    hidle⟩

end Burst

end TetrisFpga.Spi
