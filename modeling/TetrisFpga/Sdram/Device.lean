import TetrisFpga.Sdram.Controller

/-!
# The SDRAM

An ideal memory behind the command pins, initialised to CAS latency 3 and bursts of a full
page: a write or a read goes on with the next column in every cycle until it is stopped.
-/

namespace TetrisFpga.Sdram

/-- The word that a burst accesses next. -/
structure Burst where
  writes : Bool
  bank : BitVec 2
  col : BitVec 10

/-- The words read are three cycles on their way to the pins; pins that nobody drives read
as 0. -/
structure Device where
  mem : ADDR → WORD
  row : BitVec 2 → BitVec 13 := fun _ => 0
  burst : Option Burst := none
  q1 : WORD := 0
  q2 : WORD := 0
  q3 : WORD := 0

namespace Device

/-- The word accessed at an edge with these pins. A precharge stops the burst of its bank. -/
def access (d : Device) (pins : Strobes) (ba : BitVec 2) (sa : BitVec 13) : Option Burst :=
  if pins = .read then some ⟨false, ba, sa.setWidth 10⟩
  else if pins = .write then some ⟨true, ba, sa.setWidth 10⟩
  else if pins = .burstStop then none
  else if pins = .prechargeBank then
    d.burst.filter fun b => !(sa.getLsbD 10 || b.bank == ba)
  else d.burst

/-- The address of a column in the open row of a bank. -/
def word (d : Device) (b : Burst) : ADDR := b.bank ++ d.row b.bank ++ b.col

/-- An edge of `SDR_CLK`. `DQM` masks writes; the controller sets both of its bits or none. -/
def next (d : Device) (pins : Strobes) (ba : BitVec 2) (sa : BitVec 13) (dqm : BitVec 2)
    (dq : WORD) : Device :=
  let acc := d.access pins ba sa
  { mem := match acc with
      | some ⟨true, bank, col⟩ => fun a =>
        if a = d.word ⟨true, bank, col⟩ ∧ dqm = 0 then dq else d.mem a
      | _ => d.mem
    row := fun b => if pins = .activate ∧ b = ba then sa else d.row b
    burst := acc.map fun b => { b with col := b.col + 1 }
    q1 := match acc with
      | some ⟨false, bank, col⟩ => d.mem (d.word ⟨false, bank, col⟩)
      | _ => 0
    q2 := d.q1
    q3 := d.q2 }

/-! ### The commands of the controller -/

section Access

variable {d : Device} {ba : BitVec 2} {sa : BitVec 13}

theorem access_quiet {pins : Strobes} (hb : d.burst = none)
    (h : pins = .nop ∨ pins = .activate ∨ pins = .autoRefresh) : d.access pins ba sa = none := by
  obtain rfl | rfl | rfl := h <;> exact hb

theorem access_precharge {b : Burst} (hb : d.burst = some b) (hba : b.bank = ba) :
    d.access .prechargeBank ba sa = none := by
  simp [access, hb, hba, Strobes.prechargeBank, Strobes.read, Strobes.write, Strobes.burstStop]

end Access

section Next

variable {d : Device} {pins : Strobes} {ba : BitVec 2} {sa : BitVec 13} {dqm : BitVec 2}
  {dq : WORD}

theorem next_of_quiet (h : d.access pins ba sa = none) :
    (d.next pins ba sa dqm dq).mem = d.mem ∧ (d.next pins ba sa dqm dq).burst = none := by
  simp [next, h]

theorem next_row (h : pins ≠ .activate) : (d.next pins ba sa dqm dq).row = d.row := by
  simp [next, h]

end Next

end Device

end TetrisFpga.Sdram
