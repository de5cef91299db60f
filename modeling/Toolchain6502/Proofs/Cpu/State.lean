import Mathlib.Logic.Function.Basic
import Toolchain6502.Cpu.Mnemonic

namespace Toolchain6502.Cpu

abbrev Byte := BitVec 8

abbrev Word := BitVec 16

abbrev Memory := Word → Byte

structure State where
  a : Byte
  y : Byte
  carry : Bool
  zero : Bool
  memory : Memory

/-- Where an instruction finds its operand. -/
inductive Place where
  | implied
  | value (v : Byte)
  | cell (address : Word)

def Place.read? (s : State) : Place → Option Byte
  | implied => none
  | value v => some v
  | cell address => some (s.memory address)

def Place.cell? : Place → Option Word
  | cell address => some address
  | _ => none

namespace State

def load (s : State) (v : Byte) : State := { s with a := v, zero := v == 0 }

def loadY (s : State) (v : Byte) : State := { s with y := v, zero := v == 0 }

def store (s : State) (address : Word) (v : Byte) : State :=
  { s with memory := Function.update s.memory address v }

/-- A byte of memory is changed in place. -/
def change (s : State) (address : Word) (v : Byte) : State :=
  { s.store address v with zero := v == 0 }

/-- The ninth bit of the sum is the new carry. -/
def addWithCarry (s : State) (v : Byte) : State :=
  let sum := s.a.toNat + v.toNat + s.carry.toNat
  { s.load (BitVec.ofNat 8 sum) with carry := decide (0x100 ≤ sum) }

def compare (s : State) (v : Byte) : State :=
  { s with carry := decide (v.toNat ≤ s.a.toNat), zero := s.a == v }

@[simp] theorem load_a (s : State) (v : Byte) : (s.load v).a = v := rfl
@[simp] theorem load_zero (s : State) (v : Byte) : (s.load v).zero = (v == 0) := rfl
@[simp] theorem load_memory (s : State) (v : Byte) : (s.load v).memory = s.memory := rfl
@[simp] theorem store_a (s : State) (b : Word) (v : Byte) : (s.store b v).a = s.a := rfl
@[simp] theorem store_memory (s : State) (b : Word) (v : Byte) :
    (s.store b v).memory = Function.update s.memory b v := rfl
@[simp] theorem change_memory (s : State) (b : Word) (v : Byte) :
    (s.change b v).memory = Function.update s.memory b v := rfl
@[simp] theorem compare_memory (s : State) (v : Byte) : (s.compare v).memory = s.memory := rfl

/-- The state after an instruction that is followed by the next one. There is none after the
instructions that end a routine, and none for those that generated code does not use. -/
def perform (s : State) (m : Mnemonic) (p : Place) : Option State :=
  match m with
  | .lda => (p.read? s).map s.load
  | .ldy => (p.read? s).map s.loadY
  | .sta => p.cell?.map fun address => s.store address s.a
  | .adc => (p.read? s).map s.addWithCarry
  | .sbc => (p.read? s).map fun v => s.addWithCarry (~~~v)
  | .and => (p.read? s).map fun v => s.load (s.a &&& v)
  | .ora => (p.read? s).map fun v => s.load (s.a ||| v)
  | .eor => (p.read? s).map fun v => s.load (s.a ^^^ v)
  | .cmp => (p.read? s).map s.compare
  | .inc => p.cell?.map fun address => s.change address (s.memory address + 1)
  | .dec => p.cell?.map fun address => s.change address (s.memory address - 1)
  | .asl => p.cell?.map fun address =>
    { s.change address (s.memory address <<< 1) with carry := (s.memory address).msb }
  | .lsr => p.cell?.map fun address =>
    { s.change address (s.memory address >>> 1) with carry := (s.memory address).getLsbD 0 }
  | .clc => some { s with carry := false }
  | .sec => some { s with carry := true }
  | _ => none

def branch? (s : State) : Mnemonic → Option Bool
  | .beq => some s.zero
  | .bne => some !s.zero
  | .bcs => some s.carry
  | .bcc => some !s.carry
  | _ => none

end State

def written? (m : Mnemonic) (p : Place) : Option Word :=
  match m with
  | .sta | .inc | .dec | .asl | .lsr => p.cell?
  | _ => none

theorem cell_of_written {m : Mnemonic} {address b : Word}
    (h : written? m (.cell address) = some b) : address = b := by
  unfold written? at h
  split at h <;> simp_all [Place.cell?]

/-- An instruction leaves every other cell alone. -/
theorem State.perform_memory {s s' : State} {m : Mnemonic} {p : Place}
    (h : s.perform m p = some s') {b : Word} (hb : written? m p ≠ some b) :
    s'.memory b = s.memory b := by
  cases m with
  | lda | ldy | adc | sbc | and | ora | eor | cmp =>
    obtain ⟨v, -, rfl⟩ := Option.map_eq_some_iff.mp h
    rfl
  | sta | inc | dec | asl | lsr =>
    obtain ⟨address, haddress, rfl⟩ := Option.map_eq_some_iff.mp h
    refine Function.update_of_ne ?_ _ _
    rintro rfl
    exact hb haddress
  | clc | sec =>
    obtain rfl := Option.some.inj h
    rfl
  | _ => simp [State.perform] at h

theorem State.addWithCarry_clear (s : State) (v : Byte) (h : s.carry = false) :
    (s.addWithCarry v).a = s.a + v := by
  simp [State.addWithCarry, State.load, h, BitVec.ofNat_add]

theorem State.addWithCarry_not (s : State) (v : Byte) (h : s.carry = true) :
    (s.addWithCarry (~~~v)).a = s.a - v := by
  simp only [State.addWithCarry, State.load, h, Bool.toNat_true, BitVec.ofNat_add,
    BitVec.ofNat_toNat, BitVec.setWidth_eq]
  rw [BitVec.sub_eq_add_neg, BitVec.neg_eq_not_add, BitVec.add_assoc]

end Toolchain6502.Cpu
