import TetrisFpga.Spi.Polling

/-!
# What a command of the driver does

Whatever the chip sends and however long the CPU takes, a command sends its bytes and as many
zeros as it is to read, one byte at a time, and stores what comes back for the zeros.

## Main results

- `exchange_next`: the two rounds of the loop for a byte
- `command_run`: the bytes on the wires and in memory after a command
-/

namespace TetrisFpga.Spi
open Program Machine
open Usb (BYTE WORD DWORD)

/-! ## Memory -/

theorem Pointer.add_add {ι : Type} (p : Pointer ι) (a b : ℤ) : (p.add a).add b = p.add (a + b) := by
  simp only [Pointer.add, Int.add_assoc]

@[simp] theorem Pointer.add_obj {ι : Type} (p : Pointer ι) (n : ℤ) : (p.add n).obj = p.obj := rfl

theorem Pointer.cell_add {ω : Type} (p : Pointer ω) (n : ℤ) : (p.add n).cell = p.cell.add n := rfl

theorem Pointer.add_inj {ι : Type} {p : Pointer ι} {a b : ℤ} : p.add a = p.add b ↔ a = b := by
  simp [Pointer.add]

section Memory

variable {σ ω : Type} [DecidableEq ω]

@[simp] theorem Memory.set_self (m : Memory ω) (p : Pointer (Cell ω)) (b : BYTE) :
    m.set p b p.obj p.off = b :=
  if_pos ⟨rfl, rfl⟩

/-- A store to another object. -/
theorem Memory.set_apart {p : Pointer (Cell ω)} {o : Cell ω} (ho : o ≠ p.obj) (m : Memory ω)
    (b : BYTE) (k : ℤ) : m.set p b o k = m o k :=
  if_neg fun h => ho h.1

/-- The memory with the bytes `bs` from `p` on. -/
def Memory.put (m : Memory ω) (p : Pointer (Cell ω)) (bs : List BYTE) : Memory ω := fun o k =>
  if o = p.obj ∧ p.off ≤ k then bs.getD (k - p.off).toNat (m o k) else m o k

theorem Memory.put_set_apart {p : Pointer (Cell ω)} {o : Cell ω} (ho : o ≠ p.obj) (m : Memory ω)
    (b : BYTE) (q : Pointer (Cell ω)) (bs : List BYTE) (k : ℤ) :
    (m.set p b).put q bs o k = m.put q bs o k := by
  simp only [put, set_apart ho]

@[simp] theorem Memory.put_nil (m : Memory ω) (p : Pointer (Cell ω)) : m.put p [] = m := by
  funext o k
  simp [put]

theorem Memory.put_concat (m : Memory ω) (p : Pointer (Cell ω)) (bs : List BYTE) (b : BYTE) :
    (m.put p bs).set (p.add bs.length) b = m.put p (bs ++ [b]) := by
  funext o k
  show (if o = p.obj ∧ k = p.off + bs.length then b else m.put p bs o k) = m.put p (bs ++ [b]) o k
  unfold put
  by_cases ho : o = p.obj ∧ p.off ≤ k
  · obtain ⟨n, rfl⟩ : ∃ n : ℕ, k = p.off + n := ⟨(k - p.off).toNat, by omega⟩
    have hn : (p.off + (n : ℤ) - p.off).toNat = n := by omega
    rw [if_pos ho, if_pos ho, hn]
    obtain hlt | rfl | hgt := Nat.lt_trichotomy n bs.length
    · rw [if_neg (by omega), List.getD_append _ _ _ _ hlt]
    · rw [if_pos ⟨ho.1, rfl⟩]
      simp
    · have hlen : (bs ++ [b]).length ≤ n := by
        rw [List.length_append]
        exact hgt
      rw [if_neg (by omega), List.getD_eq_default _ _ (Nat.le_of_lt hgt),
         List.getD_eq_default _ _ hlen]
  · have hne : ¬(o = p.obj ∧ k = p.off + bs.length) := fun h => ho ⟨h.1, by omega⟩
    rw [if_neg hne, if_neg ho, if_neg ho]

theorem Memory.put_singleton (m : Memory ω) (p : Pointer (Cell ω)) (b : BYTE) :
    m.put p [b] = m.set p b := by
  have hconcat := m.put_concat p [] b
  rw [put_nil, List.nil_append] at hconcat
  rw [← hconcat]
  simp [Pointer.add]

/-! ### Loads and stores -/

variable {r : Record ω}

omit [DecidableEq ω] in
theorem idle_load (p : Pointer (Cell ω)) : Succeeds (Idle r) (load p : Prog σ ω BYTE)
    fun b w => b = r.mem p.obj p.off ∧ Idle r w :=
  fun w h => ⟨_, w, rfl, congrArg (fun g : Record ω => g.mem p.obj p.off) h.record, h⟩

theorem record_store {w : World σ ω} (h : w.record = r) (p : Pointer (Cell ω)) (b : BYTE) :
    ({ w with mem := w.mem.set p b } : World σ ω).record = { r with mem := r.mem.set p b } :=
  congrArg (fun g : Record ω => { g with mem := g.mem.set p b }) h

theorem idle_store (p : Pointer (Cell ω)) (b : BYTE) : Succeeds (Idle r)
    (store p b : Prog σ ω Unit) fun _ => Idle { r with mem := r.mem.set p b } :=
  fun _ h => ⟨(), _, rfl, h.low, h.rest, h.ssoReg, record_store h.record p b⟩

theorem open_store (p : Pointer (Cell ω)) (b : BYTE) : Succeeds (Open r)
    (store p b : Prog σ ω Unit) fun _ => Open { r with mem := r.mem.set p b } :=
  fun _ h => ⟨(), _, rfl, h.low, h.rest, h.selected, record_store h.record p b⟩

theorem clear_store (p : Pointer (Cell ω)) (b : BYTE) : Succeeds (Clear r)
    (store p b : Prog σ ω Unit) fun _ => Clear { r with mem := r.mem.set p b } :=
  fun _ h => ⟨(), _, rfl, ⟨h.low, h.rest, h.selected, record_store h.record p b⟩, h.rrdy⟩

end Memory

/-! ## The loop -/

section Loop

variable {σ ω : Type}

/-- The `n` bytes from `p` on. -/
def Memory.bytes (m : Memory ω) (p : Pointer (Cell ω)) (n : ℕ) : List BYTE :=
  (List.range n).map fun i : ℕ => m p.obj (p.off + i)

@[simp] theorem Memory.length_bytes (m : Memory ω) (p : Pointer (Cell ω)) (n : ℕ) :
    (m.bytes p n).length = n := by
  simp [bytes]

theorem Memory.getElem?_bytes (m : Memory ω) (p : Pointer (Cell ω)) {n i : ℕ} (hi : i < n) :
    (m.bytes p n)[i]? = some (m p.obj (p.off + i)) := by
  simp [bytes, hi]

theorem Memory.bytes_succ (m : Memory ω) (p : Pointer (Cell ω)) (n : ℕ) :
    m.bytes p (n + 1) = m.bytes p n ++ [m p.obj (p.off + n)] := by
  simp [bytes, List.range_succ]

theorem Memory.bytes_set_apart [DecidableEq ω] {p q : Pointer (Cell ω)} (hq : q.obj ≠ p.obj)
    (m : Memory ω) (b : BYTE) (n : ℕ) : (m.set p b).bytes q n = m.bytes q n :=
  List.map_congr_left fun _ _ => set_apart hq m b _

/-- The bytes that a command sends: those of its write, and a zero for each that it reads. -/
def outgoing (m : Memory ω) (p : Pointer (Cell ω)) (writeLength readLength : ℕ) : List BYTE :=
  m.bytes p writeLength ++ List.replicate readLength 0

/-- The variables of the loop after `i` bytes. -/
def Transfer.after (p q : Pointer (Cell ω)) (writeLength readLength i : ℕ) : Transfer ω where
  writeData := p.add (min i writeLength : ℕ)
  writeZeros := readLength - (i - writeLength)
  readIgnore := writeLength - i
  readData := q.add (i - writeLength : ℕ)
  credits := 1

/-- The variables while the next byte is on its way. -/
def Transfer.during (p q : Pointer (Cell ω)) (writeLength readLength i : ℕ) : Transfer ω :=
  { after p q writeLength readLength (i + 1) with
    readIgnore := writeLength - i
    readData := q.add (i - writeLength : ℕ)
    credits := 0 }

/-! ### Bytes that go out -/

variable [Board σ] {r : Record ω} {p q : Pointer (Cell ω)} {writeLength readLength i : ℕ}

theorem send_write {writeEnd : Pointer (Cell ω)} {v : Transfer ω}
    (h : v.writeData.off < writeEnd.off) :
    (send writeEnd v : Prog σ ω (Transfer ω)) = (do
      let byte ← load v.writeData
      iowr (.wrTxdata (byte.setWidth 16))
      return { v with writeData := v.writeData.add 1, credits := v.credits - 1 }) :=
  if_pos h

theorem send_zero {writeEnd : Pointer (Cell ω)} {v : Transfer ω}
    (h : ¬v.writeData.off < writeEnd.off) (hzeros : v.writeZeros > 0) :
    (send writeEnd v : Prog σ ω (Transfer ω)) = (do
      iowr (.wrTxdata 0)
      return { v with writeZeros := v.writeZeros - 1, credits := v.credits - 1 }) :=
  (if_neg h).trans (if_pos hzeros)

/-- The next byte goes out. -/
theorem send_after (hi : i < writeLength + readLength) {m : Memory ω}
    (hmem : i < writeLength → r.mem = m) {b : BYTE}
    (hb : (outgoing m p writeLength readLength)[i]? = some b) :
    Succeeds (Clear r) (send (p.add writeLength) (.after p q writeLength readLength i) :
      Prog σ ω (Transfer ω))
      fun v w => v = .during p q writeLength readLength i ∧ Busy r b 181 w := by
  intro w h
  have hw : w.mem = r.mem := congrArg Record.mem h.record
  by_cases hwrites : i < writeLength
  · have hoff : p.off + (min i writeLength : ℕ) < p.off + writeLength := by omega
    have hbyte : m p.obj (p.off + i) = b := by
      rw [outgoing, List.getElem?_append_left (by simpa using hwrites),
        m.getElem?_bytes p hwrites] at hb
      exact Option.some.inj hb
    have hload : (load (Transfer.after p q writeLength readLength i).writeData : Prog σ ω BYTE) w =
        .ok b w := by
      show EStateM.Result.ok (w.mem p.obj (p.off + (min i writeLength : ℕ))) w = _
      rw [hw, hmem hwrites, Nat.min_eq_left (by omega), hbyte]
    obtain ⟨u, w', hrun, hw'⟩ := clear_txdata (b.setWidth 16) w h
    refine ⟨.during p q writeLength readLength i, w', ?_, rfl, ?_⟩
    · rw [send_write hoff, bind_of_ok hload, bind_of_ok hrun, pure_apply]
      simp [Transfer.after, Transfer.during, Pointer.add_add, Pointer.add_inj]
      omega
    · simpa using hw'
  -- all is written: a zero goes out for each byte that is to be read
  · have hoff : ¬p.off + (min i writeLength : ℕ) < p.off + writeLength := by omega
    have hzeros : readLength - (i - writeLength) > 0 := by omega
    have hbyte : 0 = b := by
      rw [outgoing, List.getElem?_append_right (by simpa using hwrites)] at hb
      have hzero : i - writeLength < readLength ∧ 0 = b := by
        simpa [List.getElem?_replicate] using hb
      exact hzero.2
    obtain ⟨u, w', hrun, hw'⟩ := clear_txdata 0 w h
    refine ⟨.during p q writeLength readLength i, w', ?_, rfl, ?_⟩
    · rw [send_zero hoff hzeros, bind_of_ok hrun, pure_apply]
      simp [Transfer.after, Transfer.during, Pointer.add_inj]
      omega
    · rw [← hbyte]
      exact hw'

/-! ### Bytes that come in -/

variable [DecidableEq ω]

variable (p q writeLength readLength i) in
/-- The answer to the byte with the number `i` comes in: it is dropped while the command writes, and
stored after that. -/
theorem receive_during {b : BYTE} :
    Succeeds (Busy r b 0) (receive (.during p q writeLength readLength i) : Prog σ ω (Transfer ω))
      fun v w => v = .after p q writeLength readLength (i + 1) ∧ ∃ got,
        Clear { r with
          bits := r.bits ++ word b got
          mem := if i < writeLength then r.mem
            else r.mem.set (q.add (i - writeLength : ℕ)) got } w := by
  intro w h
  obtain ⟨rxdata, w', hrun, hw'⟩ := busy_rxdata b w h
  by_cases hwrites : i < writeLength
  · have hignore : (Transfer.during p q writeLength readLength i).readIgnore > 0 :=
      Nat.sub_pos_of_lt hwrites
    refine ⟨.after p q writeLength readLength (i + 1), w', ?_, rfl, rxdata.setWidth 8, ?_⟩
    · rw [receive, bind_of_ok hrun, if_pos hignore, pure_apply]
      simp [Transfer.after, Transfer.during, Pointer.add_inj]
      omega
    · rw [if_pos hwrites]
      exact hw'
  · have hignore : ¬(Transfer.during p q writeLength readLength i).readIgnore > 0 :=
      Nat.not_lt.mpr (Nat.le_of_eq (Nat.sub_eq_zero_of_le (Nat.not_lt.mp hwrites)))
    obtain ⟨u, w'', hstore, hw''⟩ := clear_store (q.add (i - writeLength : ℕ))
      (rxdata.setWidth 8) w' hw'
    refine ⟨.after p q writeLength readLength (i + 1), w'', ?_, rfl, rxdata.setWidth 8, ?_⟩
    · rw [receive, bind_of_ok hrun, if_neg hignore]
      refine (bind_of_ok hstore _).trans ?_
      simp [pure_apply, Transfer.after, Transfer.during, Pointer.add_add, Pointer.add_inj]
      omega
    · rw [if_neg hwrites]
      exact hw''

/-- The pairs of bytes on the wires. -/
def wire (bytes : List (BYTE × BYTE)) : List WireBit := bytes.flatMap fun b => word b.1 b.2

/-- `i` bytes have gone out, and as many have come in. -/
def Exchanged (r : Record ω) (p q : Pointer (Cell ω)) (writeLength readLength i : ℕ)
    (w : World σ ω) : Prop :=
  ∃ got : List BYTE, got.length = i ∧ Clear { r with
    bits := r.bits ++ wire ((outgoing r.mem p writeLength readLength).zip got)
    mem := r.mem.put q (got.drop writeLength) } w

/-- The round in which a byte goes out. -/
theorem round_out {fuel : ℕ} (hfuel : 0 < fuel) (hi : i < writeLength + readLength) {m : Memory ω}
    (hmem : i < writeLength → r.mem = m) {b : BYTE}
    (hb : (outgoing m p writeLength readLength)[i]? = some b) :
    Succeeds (Clear r) (commandRound fuel (p.add writeLength) (q.add readLength)
        (.after p q writeLength readLength i) : Prog σ ω (Transfer ω ⊕ Unit))
      fun v w => v = .inl (.during p q writeLength readLength i) ∧ Busy r b 181 w := by
  intro w h
  obtain ⟨status, w₁, hwait, hw₁, hrrdy, htrdy⟩ := clear_waitReady hfuel w h
  obtain ⟨v, w₂, hsend, rfl, hw₂⟩ := send_after (q := q) hi hmem hb w₁ hw₁
  refine ⟨_, w₂, ?_, rfl, hw₂⟩
  have hgo : status &&& statusTrdyMsk ≠ 0 ∧
      (Transfer.after p q writeLength readLength i).credits > 0 := ⟨htrdy, Int.one_pos⟩
  rw [commandRound]
  refine (bind_of_ok hwait _).trans ?_
  rw [if_pos hgo]
  refine (bind_of_ok hsend _).trans ?_
  exact congrFun (if_neg (not_not_intro hrrdy)) w₂

variable (p q writeLength readLength i) in
/-- The round in which the answer comes in. -/
theorem round_in {fuel : ℕ} (hfuel : 91 < fuel) {b : BYTE} :
    Succeeds (Busy r b 181) (commandRound fuel (p.add writeLength) (q.add readLength)
        (.during p q writeLength readLength i) : Prog σ ω (Transfer ω ⊕ Unit))
      fun v w => v = (if i + 1 = writeLength + readLength then .inr ()
          else .inl (.after p q writeLength readLength (i + 1))) ∧ ∃ got,
        Clear { r with
          bits := r.bits ++ word b got
          mem := if i < writeLength then r.mem
            else r.mem.set (q.add (i - writeLength : ℕ)) got } w := by
  intro w h
  obtain ⟨status, w₁, hwait, hrrdy, hw₁⟩ := busy_waitReady hfuel w h
  obtain ⟨v, w₂, hreceive, rfl, hw₂⟩ :=
    receive_during p q writeLength readLength i w₁ hw₁
  -- The credit is spent, so nothing more is sent although there is room.
  have hstop : ¬(status &&& statusTrdyMsk ≠ 0 ∧
      (Transfer.during p q writeLength readLength i).credits > 0) := fun hgo =>
    absurd hgo.2 (Int.lt_irrefl 0)
  have hdone : ((Transfer.after p q writeLength readLength (i + 1)).readIgnore = 0 ∧
      (Transfer.after p q writeLength readLength (i + 1)).readData = q.add readLength) ↔
      i + 1 = writeLength + readLength := by
    simp only [Transfer.after, Pointer.add_inj]
    omega
  refine ⟨_, w₂, ?_, rfl, hw₂⟩
  rw [commandRound]
  refine (bind_of_ok hwait _).trans ?_
  rw [if_neg hstop]
  refine (bind_of_ok (pure_apply _ _) _).trans ((congrFun (if_pos hrrdy) w₁).trans ?_)
  refine (bind_of_ok hreceive _).trans ?_
  by_cases hlast : i + 1 = writeLength + readLength
  · rw [if_pos hlast]
    exact congrFun (if_pos (hdone.mpr hlast)) w₂
  · rw [if_neg hlast]
    exact congrFun (if_neg fun h => hlast (hdone.mp h)) w₂

/-- The memory after one more answer. -/
theorem put_answer (m : Memory ω) (q : Pointer (Cell ω)) (writeLength : ℕ) (got : List BYTE)
    (b : BYTE) :
    (if got.length < writeLength then m.put q (got.drop writeLength)
      else (m.put q (got.drop writeLength)).set (q.add (got.length - writeLength : ℕ)) b) =
      m.put q ((got ++ [b]).drop writeLength) := by
  by_cases h : got.length < writeLength
  · have hlen : (got ++ [b]).length ≤ writeLength := by
      rw [List.length_append]
      exact h
    rw [if_pos h, List.drop_eq_nil_of_le (Nat.le_of_lt h), List.drop_eq_nil_of_le hlen]
  · rw [if_neg h, List.drop_append_of_le_length (Nat.not_lt.mp h), ← Memory.put_concat,
      List.length_drop]

/-- The two rounds of a byte. -/
theorem exchange_next {fuel : ℕ} (hfuel : 91 < fuel) (hi : i < writeLength + readLength)
    {w : World σ ω} (h : Exchanged r p q writeLength readLength i w) (n : ℕ) :
    ∃ w', Exchanged r p q writeLength readLength (i + 1) w' ∧
      (forever .rounds (commandRound fuel (p.add writeLength) (q.add readLength)) (n + 2)
        (.after p q writeLength readLength i) : Prog σ ω Unit) w =
      if i + 1 = writeLength + readLength then .ok () w'
      else forever .rounds (commandRound fuel (p.add writeLength) (q.add readLength)) n
        (.after p q writeLength readLength (i + 1)) w' := by
  obtain ⟨got, rfl, hw⟩ := h
  have hlen : got.length < (outgoing r.mem p writeLength readLength).length := by
    simpa [outgoing] using hi
  obtain ⟨b, hb⟩ : ∃ b, (outgoing r.mem p writeLength readLength)[got.length]? = some b :=
    ⟨_, List.getElem?_eq_getElem hlen⟩
  have hmem (hwrites : got.length < writeLength) :
      r.mem.put q (got.drop writeLength) = r.mem := by
    rw [List.drop_eq_nil_of_le (Nat.le_of_lt hwrites), Memory.put_nil]
  obtain ⟨-, w₁, hout, rfl, hw₁⟩ := round_out (q := q) (Nat.zero_lt_of_lt hfuel) hi
    hmem hb w hw
  obtain ⟨-, w₂, hin, rfl, answer, hw₂⟩ :=
    round_in p q writeLength readLength got.length hfuel w₁ hw₁
  refine ⟨w₂, ⟨got ++ [answer], by rw [List.length_append]; rfl, ?_⟩, ?_⟩
  · rw [put_answer, List.append_assoc] at hw₂
    rw [zip_concat hb, wire, List.flatMap_append, List.flatMap_singleton]
    exact hw₂
  · -- The first round leaves the loop no way out: nothing has come in.
    rw [forever_succ, bind_of_ok hout]
    show (forever .rounds _ (n + 1) _ : Prog σ ω Unit) w₁ = _
    rw [forever_succ, bind_of_ok hin]
    by_cases hlast : got.length + 1 = writeLength + readLength
    · rw [if_pos hlast, if_pos hlast]
      rfl
    · rw [if_neg hlast, if_neg hlast]

/-- The loop exchanges the bytes that remain. -/
theorem exchange_run {fuel : ℕ} (hfuel : 91 < fuel) {n : ℕ} (hi : i < writeLength + readLength)
    (hn : 2 * (writeLength + readLength - i) ≤ n) :
    Succeeds (Exchanged r p q writeLength readLength i)
      (forever .rounds (commandRound fuel (p.add writeLength) (q.add readLength)) n
        (.after p q writeLength readLength i) : Prog σ ω Unit)
      fun _ => Exchanged r p q writeLength readLength (writeLength + readLength) := by
  induction hd : writeLength + readLength - i generalizing i n with
  | zero => omega
  | succ d ih =>
    intro w h
    obtain ⟨n, rfl⟩ : ∃ m, n = m + 2 := ⟨n - 2, by omega⟩
    obtain ⟨w', hw', hrun⟩ := exchange_next hfuel hi h n
    rw [hrun]
    by_cases hlast : i + 1 = writeLength + readLength
    · rw [if_pos hlast]
      exact ⟨(), w', rfl, hlast ▸ hw'⟩
    · rw [if_neg hlast]
      exact ih (by omega) (by omega) (by omega) w' hw'

/-! ## The command -/

/-- A command that moves a byte at least. -/
theorem command_run {fuel : ℕ} {writeLength readLength flags : DWORD}
    (hpolls : 91 < fuel) (hrounds : 2 * (writeLength.toNat + readLength.toNat) ≤ fuel)
    (hlen : 0 < writeLength.toNat + readLength.toNat) :
    Succeeds (Before flags r)
      (altAvalonSpiCommand fuel 0 writeLength p readLength q flags : Prog σ ω ℤ)
      fun returnCode w => returnCode = readLength.toInt ∧ ∃ got : List BYTE,
        got.length = writeLength.toNat + readLength.toNat ∧
        After flags { r with
          bits := r.bits ++
            wire ((outgoing r.mem p writeLength.toNat readLength.toNat).zip got)
          mem := r.mem.put q (got.drop writeLength.toNat) } w := by
  refine succeeds_bind (before_slaveSel flags) fun _ => ?_
  refine succeeds_bind (before_control flags) fun _ => ?_
  refine succeeds_bind (Q := fun _ => Exchanged r p q writeLength.toNat readLength.toNat 0) ?_
    fun _ => ?_
  · intro w h
    obtain ⟨rxdata, w', hrun, -, hw'⟩ := open_rxdata _ w ⟨h, rfl⟩
    refine ⟨rxdata, w', hrun, [], rfl, ?_⟩
    simpa [wire] using hw'
  · have hvars : (⟨p, readLength.toNat, writeLength.toNat, q, 1⟩ : Transfer ω) =
        .after p q writeLength.toNat readLength.toNat 0 := by
      simp [Transfer.after, Pointer.add]
    rw [hvars]
    refine succeeds_bind (exchange_run hpolls hlen (by omega)) fun _ => ?_
    rintro w ⟨got, hgot, hw⟩
    obtain ⟨u, w₁, hwait, hw₁⟩ := clear_waitTransmitted (Nat.zero_lt_of_lt hpolls) w hw
    obtain ⟨u', w₂, hcontrol, hw₂⟩ := after_control flags w₁ hw₁.toOpen
    refine ⟨readLength.toInt, w₂, ?_, rfl, got, hgot, hw₂⟩
    rw [bind_of_ok hwait, bind_of_ok hcontrol]
    rfl

end Loop

end TetrisFpga.Spi
