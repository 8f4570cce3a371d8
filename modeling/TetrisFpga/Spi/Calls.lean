import TetrisFpga.Spi.Burst

/-!
# What a burst is to do

A burst of `nbytes` bytes is to make one frame of a command byte and the bytes
`data[n]`, "where n goes from 0 to nbytes-1". It does so unless `nbytes` is 0: the byte after
the loop is then one too many, and it is `data[-1]`. `XferInTransfer` passes the packet length
that the chip reports, which may be 0.

## Main results

- `calls_idle`: the port is idle after any calls from power-up on
- `bursts_iff`: which bursts are right, after any calls
-/

namespace TetrisFpga.Spi
open Program
open Usb (BYTE rRCVFIFO rSUDFIFO)

section Calls

variable {σ ω : Type} [Board σ] [DecidableEq ω]

/-! ## The calls -/

/-- What the program does with the port and with its own memory. -/
inductive Call (ω : Type)
  | regWr (reg val : BYTE)
  | bytesWr (reg nbytes : BYTE) (data : Pointer ω)
  | regRd (reg : BYTE)
  | bytesRd (reg nbytes : BYTE) (data : Pointer ω)
  | assign (p : Pointer ω) (val : BYTE)

def Call.perform (fuel : ℕ) : Call ω → Prog σ ω Unit
  | .regWr reg val => maxRegWr fuel reg val
  | .bytesWr reg nbytes data => do let _ ← maxBytesWr fuel reg nbytes data
  | .regRd reg => do let _ ← maxRegRd fuel reg
  | .bytesRd reg nbytes data => do let _ ← maxBytesRd fuel reg nbytes data
  | .assign p val => store p.cell val

/-- The port after its reset. -/
def powerUp (chip : σ) (mem : Memory ω) : World σ ω where
  bus := { line := { chip } }
  mem := mem

/-- Fuel for a command of one byte: a byte takes 181 cycles, and a poll two at least. -/
def enough : ℕ := 92

/-- What any calls leave behind. -/
def afterCalls (chip : σ) (mem : Memory ω) (calls : List (Call ω)) : World σ ω :=
  final (calls.forM (Call.perform enough) (powerUp chip mem))

omit [Board σ] [DecidableEq ω] in
theorem idle_powerUp (chip : σ) (mem : Memory ω) :
    ∃ r, Idle r (powerUp chip mem : World σ ω) :=
  ⟨_, ⟨rfl, rfl, rfl, rfl⟩, ⟨rfl, rfl, rfl, rfl, rfl, rfl⟩, rfl, rfl⟩

theorem perform_idle {fuel : ℕ} (hfuel : 91 < fuel) (call : Call ω) :
    Succeeds (fun w => ∃ r, Idle r w) (call.perform fuel : Prog σ ω Unit)
      fun _ w => ∃ r, Idle r w := by
  rintro w ⟨r, h⟩
  cases call with
  | regWr reg val =>
    obtain ⟨u, w', hrun, status, got, bits, hw'⟩ := maxRegWr_run hfuel reg val w h
    exact ⟨u, w', hrun, _, hw'⟩
  | bytesWr reg nbytes data =>
    obtain ⟨p, w', hrun, -, status, got, last, -, bits, hw'⟩ :=
      maxBytesWr_run hfuel reg nbytes data w h
    exact ⟨(), w', bind_of_ok hrun _, _, hw'⟩
  | regRd reg =>
    obtain ⟨val, w', hrun, status, bits, hw'⟩ := maxRegRd_run hfuel reg w h
    exact ⟨(), w', bind_of_ok hrun _, _, hw'⟩
  | bytesRd reg nbytes data =>
    obtain ⟨p, w', hrun, -, status, got, last, -, bits, hw'⟩ :=
      maxBytesRd_run hfuel reg nbytes data w h
    exact ⟨(), w', bind_of_ok hrun _, _, hw'⟩
  | assign p val =>
    obtain ⟨u, w', hrun, hw'⟩ := idle_store p.cell val w h
    exact ⟨u, w', hrun, _, hw'⟩

/-- Every call finds the port idle and leaves it so. -/
theorem calls_idle (chip : σ) (mem : Memory ω) (calls : List (Call ω)) :
    ∃ r, Idle r (afterCalls chip mem calls) := by
  obtain ⟨u, w, hrun, hw⟩ := succeeds_forM (perform_idle (by decide : 91 < enough)) calls
    (powerUp chip mem) (idle_powerUp chip mem)
  rw [afterCalls, hrun]
  exact hw

/-! ## Bursts -/

/-- `MAXbytes_rd` makes one frame of `reg` and of `nbytes` bytes that it reads, stores them at
`data[0..nbytes-1]` and nothing elsewhere, returns `data+nbytes` and leaves the chip released. -/
def ReadsBurst (reg nbytes : BYTE) (data : Pointer ω) (w : World σ ω) : Prop :=
  ∀ fuel, enough ≤ fuel → ∃ (w' : World σ ω) (status : BYTE) (bytes : List BYTE),
    bytes.length = nbytes.toNat ∧
    maxBytesRd fuel reg nbytes data w = .ok (data.add nbytes.toNat) w' ∧
    w'.bus.line.frames = w.bus.line.frames ++ [wire ((reg, status) :: bytes.map (Prod.mk 0))] ∧
    (∀ o k, w'.mem (.caller o) k = w.mem.put data.cell bytes (.caller o) k) ∧
    w'.bus.line.serial.pins.ssN = true

/-- `MAXbytes_wr` makes one frame of `reg + 2` and of `data[0..nbytes-1]`, returns `data+nbytes`
and leaves the chip released. -/
def WritesBurst (reg nbytes : BYTE) (data : Pointer ω) (w : World σ ω) : Prop :=
  ∀ fuel, enough ≤ fuel → ∃ (w' : World σ ω) (replies : List BYTE),
    replies.length = nbytes.toNat + 1 ∧
    maxBytesWr fuel reg nbytes data w = .ok (data.add nbytes.toNat) w' ∧
    w'.bus.line.frames = w.bus.line.frames ++
      [wire (((reg + 2) :: w.mem.bytes data.cell nbytes.toNat).zip replies)] ∧
    w'.bus.line.serial.pins.ssN = true

variable {r : Record ω} {w : World σ ω}

omit [Board σ] [DecidableEq ω] in
theorem Idle.ssN (h : Idle r w) : w.bus.line.serial.pins.ssN = true := h.rest.ssN h.ssoReg

omit [Board σ] [DecidableEq ω] in
theorem Idle.frames (h : Idle r w) : w.bus.line.frames = r.frames :=
  congrArg Record.frames h.record

omit [Board σ] [DecidableEq ω] in
theorem Idle.mem (h : Idle r w) : w.mem = r.mem := congrArg Record.mem h.record

theorem length_eq_of_frames {frames : List (List WireBit)} {as bs : List (BYTE × BYTE)}
    (h : frames ++ [wire as] = frames ++ [wire bs]) : as.length = bs.length := by
  have hwire : wire as = wire bs := by simpa using h
  have hlength := congrArg List.length hwire
  rw [length_wire, length_wire] at hlength
  exact Nat.eq_of_mul_eq_mul_left (by decide) hlength

theorem toNat_pos {nbytes : BYTE} (h : nbytes ≠ 0) : 0 < nbytes.toNat :=
  Nat.pos_of_ne_zero fun hzero => h (BitVec.eq_of_toNat_eq hzero)

theorem readsBurst_iff (h : Idle r w) (reg nbytes : BYTE) (data : Pointer ω) :
    ReadsBurst reg nbytes data w ↔ nbytes ≠ 0 := by
  constructor
  · rintro hburst rfl
    obtain ⟨w₁, status, bytes, hlen, hrun, hframes, -⟩ := hburst enough (Nat.le_refl _)
    obtain ⟨p, w₂, hrun', -, status', got, last, hlen', bits, hw₂⟩ :=
      maxBytesRd_run (by decide : 91 < enough) reg 0 data w h
    cases hrun.symm.trans hrun'
    -- The frame of the run has a byte after the command byte.
    rw [h.frames, hw₂.frames] at hframes
    have hlengths := length_eq_of_frames hframes
    simp [hlen, hlen'] at hlengths
  · intro hne fuel hfuel
    obtain ⟨p, w', hrun, rfl, status, got, last, hlen, bits, hw'⟩ :=
      maxBytesRd_run (Nat.lt_of_succ_le hfuel) reg nbytes data w h
    have hpos := toNat_pos hne
    refine ⟨w', status, got ++ [last], ?_, hrun, ?_, ?_, hw'.ssN⟩
    · rw [List.length_append, hlen]
      exact Nat.sub_add_cancel hpos
    · rw [hw'.frames, h.frames, List.map_append]
      rfl
    · intro o k
      have hreg : Cell.caller o ≠ (Cell.reg : Cell ω).ptr.obj := by simp [Cell.ptr]
      -- The last byte lies behind those of the loop only where `nbytes` is not 0.
      have hlast : (data.add (nbytes.toNat - 1)).cell = data.cell.add got.length := by
        rw [Pointer.cell_add, hlen]
        congr 1
        omega
      simp only [hw'.mem, h.mem, hlast, Memory.put_concat, Memory.put_set_apart hreg]

theorem writesBurst_iff (h : Idle r w) (reg nbytes : BYTE) (data : Pointer ω) :
    WritesBurst reg nbytes data w ↔ nbytes ≠ 0 := by
  constructor
  · rintro hburst rfl
    obtain ⟨w₁, replies, hlen, hrun, hframes, -⟩ := hburst enough (Nat.le_refl _)
    obtain ⟨p, w₂, hrun', -, status, got, last, hlen', bits, hw₂⟩ :=
      maxBytesWr_run (by decide : 91 < enough) reg 0 data w h
    cases hrun.symm.trans hrun'
    rw [h.frames, hw₂.frames] at hframes
    have hlengths := length_eq_of_frames hframes
    simp [hlen, hlen'] at hlengths
  · intro hne fuel hfuel
    obtain ⟨p, w', hrun, rfl, status, got, last, hlen, bits, hw'⟩ :=
      maxBytesWr_run (Nat.lt_of_succ_le hfuel) reg nbytes data w h
    have hpos := toNat_pos hne
    refine ⟨w', status :: (got ++ [last]), ?_, hrun, ?_, hw'.ssN⟩
    · rw [List.length_cons, List.length_append, hlen]
      congr 1
      exact Nat.sub_add_cancel hpos
    · have hlengths : (r.mem.bytes data.cell (nbytes.toNat - 1)).length = got.length := by
        rw [Memory.length_bytes, hlen]
      have hbytes : r.mem.bytes data.cell nbytes.toNat =
          r.mem.bytes data.cell (nbytes.toNat - 1) ++
            [r.mem data.cell.obj (data.off + (nbytes.toNat - 1))] := by
        obtain ⟨n, hn⟩ := Nat.exists_eq_add_one.mpr hpos
        rw [hn, Memory.bytes_succ, Nat.add_sub_cancel, Int.natCast_add, Int.natCast_one,
          Int.add_sub_cancel]
        rfl
      rw [hw'.frames, h.frames, h.mem, hbytes, List.zip_cons_cons, List.zip_append hlengths]
      rfl

/-- Whatever was done with the port before, a burst is right if and only if it has a byte. -/
theorem bursts_iff (chip : σ) (mem : Memory ω) (calls : List (Call ω)) (reg nbytes : BYTE)
    (data : Pointer ω) :
    (ReadsBurst reg nbytes data (afterCalls chip mem calls) ↔ nbytes ≠ 0) ∧
      (WritesBurst reg nbytes data (afterCalls chip mem calls) ↔ nbytes ≠ 0) := by
  obtain ⟨r, h⟩ := calls_idle chip mem calls
  exact ⟨readsBurst_iff h reg nbytes data, writesBurst_iff h reg nbytes data⟩

end Calls

/-! ## A packet of no bytes -/

/-- A chip that does not drive `MISO`, which is pulled up. -/
inductive PulledUp
  | chip

instance : Board PulledUp where
  miso _ := true
  next c _ := c
  delay _ := 0

/-- Power-up with a memory of zeros. -/
def zeros : World PulledUp Unit := powerUp .chip fun _ _ => 0

/-- A byte is read all the same, and it is stored at `data[-1]`. -/
theorem bursts_empty :
    (final (maxBytesRd enough rRCVFIFO 0 ⟨(), 0⟩ zeros)).bus.line.frames =
        [wire [(rRCVFIFO, 0xFF), (0, 0xFF)]] ∧
      (final (maxBytesRd enough rRCVFIFO 0 ⟨(), 0⟩ zeros)).mem (.caller ()) (-1) = 0xFF ∧
      ¬ReadsBurst rRCVFIFO 0 ⟨(), 0⟩ zeros ∧ ¬WritesBurst rSUDFIFO 0 ⟨(), 0⟩ zeros := by
  obtain ⟨r, h⟩ := idle_powerUp PulledUp.chip fun (_ : Cell Unit) (_ : ℤ) => (0 : BYTE)
  refine ⟨by decide +kernel, by decide +kernel, fun hreads => ?_, fun hwrites => ?_⟩
  · exact (readsBurst_iff h rRCVFIFO 0 ⟨(), 0⟩).mp hreads rfl
  · exact (writesBurst_iff h rSUDFIFO 0 ⟨(), 0⟩).mp hwrites rfl

end TetrisFpga.Spi
