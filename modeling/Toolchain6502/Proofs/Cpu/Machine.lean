import Mathlib.Logic.Relation
import Mathlib.Tactic.Common
import Toolchain6502.Cpu.Opcode
import Toolchain6502.Proofs.Cpu.State

namespace Toolchain6502.Cpu

/-- Bytes stand in memory from an address on. -/
def Holds (m : Memory) (address : Nat) (bytes : List UInt8) : Prop :=
  ∀ i b, bytes[i]? = some b → m (BitVec.ofNat 16 (address + i)) = b.toBitVec

def Occupied (address : Nat) (bytes : List UInt8) (b : Word) : Prop :=
  ∃ i < bytes.length, b = BitVec.ofNat 16 (address + i)

/-- Bytes stay in place while no cell of theirs is changed. -/
theorem Holds.congr {m m' : Memory} {address : Nat} {bytes : List UInt8}
    (h : Holds m address bytes) (hm : ∀ b, Occupied address bytes b → m' b = m b) :
    Holds m' address bytes := by
  intro i b hb
  rw [hm _ ⟨i, (List.getElem?_eq_some_iff.mp hb).1, rfl⟩]
  exact h i b hb

theorem Occupied.le {address : Nat} {bytes : List UInt8} {b : Word}
    (hb : Occupied address bytes b) (h : address + bytes.length ≤ 0x10000) :
    address ≤ b.toNat := by
  obtain ⟨i, hi, rfl⟩ := hb
  rw [BitVec.toNat_ofNat]
  omega

/-- A memory with some bytes from an address on, and zeros elsewhere. -/
def loaded (address : Nat) (bytes : List UInt8) : Memory := fun b =>
  if address ≤ b.toNat then (bytes.getD (b.toNat - address) 0).toBitVec else 0

theorem holds_loaded {address : Nat} {bytes : List UInt8}
    (h : address + bytes.length ≤ 0x10000) : Holds (loaded address bytes) address bytes := by
  intro i b hb
  have hi := (List.getElem?_eq_some_iff.mp hb).1
  have hcell : (BitVec.ofNat 16 (address + i)).toNat = address + i := by
    rw [BitVec.toNat_ofNat]
    omega
  rw [loaded, hcell, if_pos (by omega), Nat.add_sub_cancel_left, List.getD_eq_getElem?_getD, hb]
  rfl

def decode? (b : Byte) : Option (Mnemonic × Mode) :=
  Mnemonic.all.findSome? fun m =>
    (m.opcodes.find? (·.code.toBitVec == b)).map fun o => (m, o.mode)

/-- No two entries of the opcode table share a code. -/
theorem decode?_code {m : Mnemonic} {o : Opcode} (ho : o ∈ m.opcodes) :
    decode? o.code.toBitVec = some (m, o.mode) := by
  -- checked over the whole table at once
  have hall : ∀ m ∈ Mnemonic.all, ∀ o ∈ m.opcodes, decode? o.code.toBitVec = some (m, o.mode) := by
    decide +kernel
  exact hall m (by cases m <;> decide) o ho

structure Machine where
  pc : Word
  state : State

namespace Machine

def fetch (c : Machine) (k : Nat) : Byte := c.state.memory (c.pc + BitVec.ofNat 16 k)

def word (c : Machine) : Word := c.fetch 2 ++ c.fetch 1

def next (c : Machine) (mode : Mode) : Word := c.pc + BitVec.ofNat 16 (1 + mode.operandSize)

/-- The operand of an instruction. The modes that generated code does not use are left out. -/
def place? (c : Machine) : Mode → Option Place
  | .implied => some .implied
  | .immediate => some (.value (c.fetch 1))
  | .zeroPage => some (.cell ((c.fetch 1).setWidth 16))
  | .absolute => some (.cell c.word)
  | .absoluteY => some (.cell (c.word + c.state.y.setWidth 16))
  | _ => none

def execute? (c : Machine) (m : Mnemonic) (mode : Mode) : Option Machine :=
  if m = .jmp ∧ mode = .absolute then some { c with pc := c.word }
  else if mode = .relative then
    (c.state.branch? m).map fun taken =>
      { c with pc := if taken then c.next mode + (c.fetch 1).signExtend 16 else c.next mode }
  else
    (c.place? mode).bind fun place =>
      (c.state.perform m place).map fun s => ⟨c.next mode, s⟩

/-- One instruction. There is no step from an instruction that ends a routine. -/
def step? (c : Machine) : Option Machine :=
  (decode? (c.fetch 0)).bind fun (m, mode) => c.execute? m mode

abbrev Reaches : Machine → Machine → Prop :=
  Relation.ReflTransGen fun c d => c.step? = some d

theorem execute?_of_place {c : Machine} {m : Mnemonic} {mode : Mode} {place : Place} {s : State}
    (hplace : c.place? mode = some place) (h : c.state.perform m place = some s) :
    c.execute? m mode = some ⟨c.next mode, s⟩ := by
  have hjump : m ≠ .jmp := by
    rintro rfl
    simp [State.perform] at h
  have hbranch : mode ≠ .relative := by
    rintro rfl
    simp [place?] at hplace
  simp [execute?, hjump, hbranch, hplace, h]

/-- The instructions that end a routine have no step. -/
theorem step?_of_decode {c : Machine} {m : Mnemonic} (h : decode? (c.fetch 0) = some (m, .implied))
    (hm : m = .rts ∨ m = .brk) : c.step? = none := by
  rw [step?, h]
  rcases hm with rfl | rfl <;> rfl

theorem fetch_of_holds {c : Machine} {a : Nat} {bytes : List UInt8}
    (hpc : c.pc = BitVec.ofNat 16 a) (h : Holds c.state.memory a bytes) {k : Nat} {b : UInt8}
    (hb : bytes[k]? = some b) : c.fetch k = b.toBitVec := by
  rw [fetch, hpc, ← BitVec.ofNat_add]
  exact h k b hb

end Machine

end Toolchain6502.Cpu
