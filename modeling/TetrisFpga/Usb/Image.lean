import TetrisFpga.Machine.History
import TetrisFpga.Usb.InTransfer
import TetrisFpga.Usb.Invariant
import TetrisFpga.Usb.Requests

/-!
# What lies behind `bigbuf`

The linker puts `devtable` right behind the 256 bytes of `bigbuf`. So a byte of the table in memory
is the last one that was stored there, through the table or through a pointer into `bigbuf`. As
long as the packets of every transfer fit the object they go to, no store leaves `bigbuf` and the
memory holds what the variables say.
-/

namespace TetrisFpga.Usb
open History

/-! ## The table in memory -/

/-- The variables after the last assignment, or `h₀` if there was none. -/
def lastHost (h₀ : Host) (log : List Event) : Host := (snapshots log).head?.getD h₀

/-- The address of an array of endpoint records in the image. -/
def EpTable.address : EpTable → DWORD
  | .dev0ep => 0x0801630c
  | .hidEp => 0x08016358

def epTables : List EpTable := [.dev0ep, .hidEp]

namespace DevRecord

/-- `epinfo` as a pointer. -/
def pointer (r : DevRecord) : DWORD := (r.epinfo.map EpTable.address).getD 0

/-- The byte `k` of a `DEV_RECORD`: four bytes of the pointer, the low one first, the class and
the padding. -/
def byte (r : DevRecord) (k : ℕ) : BYTE :=
  if k < 4 then r.pointer.extractLsb' (8 * k) 8 else if k = 4 then r.devclass else 0

/-- The two records have the same value in the field that the byte `k` belongs to. -/
def SameField (r r' : DevRecord) (k : ℕ) : Prop :=
  if k < 4 then r.epinfo = r'.epinfo else r.devclass = r'.devclass

instance (r r' : DevRecord) (k : ℕ) : Decidable (SameField r r' k) := by
  unfold SameField
  infer_instance

theorem SameField.byte {r r' : DevRecord} {k : ℕ} (h : SameField r r' k) :
    r.byte k = r'.byte k := by
  unfold DevRecord.byte
  by_cases hk : k < 4
  · rw [SameField, if_pos hk] at h
    rw [if_pos hk, if_pos hk, pointer, pointer, h]
  · rw [SameField, if_neg hk] at h
    rw [if_neg hk, if_neg hk, h]

end DevRecord

/-- The byte `k` of `devtable[a]`, as a pointer into `bigbuf` gets to it. -/
def entryByte (a : BYTE) (k : ℕ) : Ptr := ⟨.bigbuf, Obj.bigbuf.size + 8 * a.toNat + k⟩

/-- The byte `k` of `devtable[a]` in memory. An assignment that changes a field of the entry writes
its bytes, and so does a store through a pointer into `bigbuf` that gets there. -/
def memByte (h₀ : Host) (a : BYTE) (k : ℕ) : List Event → BYTE
  | [] => (h₀.devtable a).byte k
  | .store p val :: log => if p = entryByte a k then val else memByte h₀ a k log
  | .host h :: log =>
    if (h.devtable a).SameField ((lastHost h₀ log).devtable a) k then memByte h₀ a k log
    else (h.devtable a).byte k
  | _ :: log => memByte h₀ a k log

/-- `devtable[a].epinfo` in memory. -/
def memEpinfo (h₀ : Host) (a : BYTE) (log : List Event) : DWORD :=
  memByte h₀ a 3 log ++ memByte h₀ a 2 log ++ memByte h₀ a 1 log ++ memByte h₀ a 0 log

/-- `devtable[a].devclass` in memory. -/
def memDevclass (h₀ : Host) (a : BYTE) (log : List Event) : BYTE := memByte h₀ a 4 log

theorem pointer_bytes (v : DWORD) :
    v.extractLsb' 24 8 ++ v.extractLsb' 16 8 ++ v.extractLsb' 8 8 ++ v.extractLsb' 0 8 = v := by
  ext i hi
  simp only [BitVec.getElem_append, BitVec.getElem_extractLsb']
  rw [← BitVec.getLsbD_eq_getElem hi]
  split
  · rw [Nat.zero_add]
  · split
    · congr 1
      omega
    · split
      · congr 1
        omega
      · congr 1
        omega

/-- Every store to `bigbuf` lies in its 256 bytes. -/
def Confined (log : List Event) : Prop :=
  ∀ p ∈ stored log, p.obj = .bigbuf → InArea ⟨.bigbuf, 0⟩ Obj.bigbuf.size p

theorem Confined.of_cons {e : Event} {log : List Event} (h : Confined (e :: log)) :
    Confined log := by
  intro p hp
  refine h p ?_
  rw [stored, List.filterMap_cons]
  split
  · exact hp
  · exact List.mem_cons_of_mem _ hp

/-- No store inside `bigbuf` gets to the table. -/
theorem Confined.ne_entryByte {p : Ptr} {val : BYTE} {log : List Event}
    (h : Confined (.store p val :: log)) (a : BYTE) (k : ℕ) : p ≠ entryByte a k := by
  rintro rfl
  obtain ⟨-, -, hlt⟩ := h _ List.mem_cons_self rfl
  simp only [entryByte] at hlt
  omega

/-- Then the memory holds the table as the variables have it. -/
theorem memByte_eq {log : List Event} (h : Confined log) (h₀ : Host) (a : BYTE) (k : ℕ) :
    memByte h₀ a k log = ((lastHost h₀ log).devtable a).byte k := by
  induction log with
  | nil => rfl
  | cons e log ih =>
    have hrest : memByte h₀ a k log = ((lastHost h₀ log).devtable a).byte k := ih h.of_cons
    cases e with
    -- a store stays inside the buffer, and an assignment writes the bytes of its field
    | store p val => exact (if_neg (h.ne_entryByte a k)).trans hrest
    | host h' =>
      by_cases hsame : (h'.devtable a).SameField ((lastHost h₀ log).devtable a) k
      · exact (if_pos hsame).trans (hrest.trans hsame.byte.symm)
      · exact if_neg hsame
    | _ => exact hrest

theorem memEpinfo_eq {log : List Event} (h : Confined log) (h₀ : Host) (a : BYTE) :
    memEpinfo h₀ a log = ((lastHost h₀ log).devtable a).pointer := by
  rw [memEpinfo, memByte_eq h, memByte_eq h, memByte_eq h, memByte_eq h]
  exact pointer_bytes _

theorem memDevclass_eq {log : List Event} (h : Confined log) (h₀ : Host) (a : BYTE) :
    memDevclass h₀ a log = ((lastHost h₀ log).devtable a).devclass := by
  rw [memDevclass, memByte_eq h]
  rfl

/-- `devtable` in memory is that of the variables `h`. -/
structure InMemory (h₀ : Host) (log : List Event) (h : Host) : Prop where
  byte : ∀ a k, memByte h₀ a k log = (h.devtable a).byte k

/-! ## Packets that fit -/

/-- The lengths of the packets of the last IN transfer, the newest first. A transfer begins with a
write to `HCTL`. -/
def incoming : List Event → List BYTE
  | [] => []
  | .wr reg _ :: log => if reg = rHCTL then [] else incoming log
  | .rd reg val :: log => if reg = rRCVBC then val :: incoming log else incoming log
  | _ :: log => incoming log

/-- The register that was read just now. -/
def justRead : List Event → Option BYTE
  | .rd reg _ :: _ => some reg
  | _ => none

/-- In every IN transfer the packets, up to the one that is being stored, fit the object they go
to: each one ends at least one byte after its start and not after its end. -/
structure PacketsFit (log : List Event) : Prop where
  always : Always (fun e log => ∀ p ∈ e.storeTo, justRead log = some rRCVFIFO →
    1 ≤ total (incoming log) ∧ total (incoming log) ≤ p.obj.size) log

instance : DecidablePred PacketsFit := fun log =>
  decidable_of_iff (Always (fun e log => ∀ p ∈ e.storeTo, justRead log = some rRCVFIFO →
    1 ≤ total (incoming log) ∧ total (incoming log) ≤ p.obj.size) log)
    ⟨fun h => ⟨h⟩, fun h => h.always⟩

/-- Every byte that is stored to `bigbuf` comes from the receive FIFO, and goes to its place among
the packets of the transfer. -/
structure Placed (log : List Event) : Prop where
  always : Always (fun e log => ∀ p ∈ e.storeTo, p.obj = .bigbuf → justRead log = some rRCVFIFO ∧
    (1 ≤ total (incoming log) → InArea ⟨.bigbuf, 0⟩ (total (incoming log)) p)) log

theorem placed_nil : Placed [] := ⟨trivial⟩

theorem confined_of_packetsFit {log : List Event} (hplaced : Placed log) (hfit : PacketsFit log) :
    Confined log := by
  induction log with
  | nil => exact nofun
  | cons e log ih =>
    obtain ⟨hstore, hplaced⟩ := hplaced
    obtain ⟨hpacket, hfit⟩ := hfit
    have hrest : Confined log := ih ⟨hplaced⟩ ⟨hfit⟩
    intro p hp hobj
    rw [stored, List.filterMap_cons] at hp
    split at hp
    · exact hrest p hp hobj
    · rename_i q hq
      -- the newest store, by its place and the size of the packets so far
      obtain rfl | hp := List.mem_cons.mp hp
      · obtain ⟨hfifo, harea⟩ := hstore p hq hobj
        obtain ⟨hpos, hsize⟩ := hpacket p hq hfifo
        obtain ⟨-, hlow, hhigh⟩ := harea hpos
        rw [hobj] at hsize
        exact ⟨hobj, hlow, by omega⟩
      · exact hrest p hp hobj

end TetrisFpga.Usb
