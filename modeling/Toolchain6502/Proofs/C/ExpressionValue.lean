import Mathlib.Tactic.Common
import Toolchain6502.C.Emission
import Toolchain6502.Proofs.Cpu.State

namespace Toolchain6502.C

open Cpu

def leftCell : Word := 0x20
def rightCell : Word := 0x21
def countCell : Word := 0x22
def comparedCell : Word := 0x23

/-- The bytes of page zero that generated code takes for itself. -/
def scratch : List Word := [leftCell, rightCell, countCell, comparedCell]

@[simp]
theorem scratch_distinct : leftCell ≠ rightCell ∧ rightCell ≠ leftCell ∧ leftCell ≠ countCell ∧
    countCell ≠ leftCell ∧ rightCell ≠ countCell ∧ countCell ≠ rightCell ∧
    comparedCell ≠ rightCell ∧ rightCell ≠ comparedCell := by
  decide

def Term.value (m : Memory) : Term → Byte
  | immediate value => BitVec.ofInt 8 value.toInt
  | byte address => m (BitVec.ofInt 16 address)

def Term.offset (m : Memory) : Term → Int
  | immediate value => value.toInt
  | byte address => (m (BitVec.ofInt 16 address)).toNat

def Term.cells : Term → List Word
  | immediate _ => []
  | byte address => [BitVec.ofInt 16 address]

def Address.cell (m : Memory) (a : Address) : Word :=
  BitVec.ofInt 16 (a.base.toInt + (a.offset.map (Term.offset m)).getD 0)

def Address.cells (a : Address) : List Word := (a.offset.map Term.cells).getD []

/-- Sums and differences wrap around, and a shift goes by the low three bits of its right side. -/
def BinOp.apply : BinOp → Byte → Byte → Byte
  | add, x, y => x + y
  | sub, x, y => x - y
  | shl, x, y => x <<< (y.toNat % 8)
  | shr, x, y => x >>> (y.toNat % 8)
  | and, x, y => x &&& y
  | xor, x, y => x ^^^ y
  | or, x, y => x ||| y

def Expr.value (m : Memory) : Expr → Byte
  | term t => t.value m
  | memory a => m (a.cell m)
  | complement e => e.value m ^^^ 0xFF
  | binary op left right => op.apply (left.value m) (right.value m)

def Expr.reads (m : Memory) : Expr → List Word
  | term t => t.cells
  | memory a => a.cells ++ [a.cell m]
  | complement e => e.reads m
  | binary _ left right => left.reads m ++ right.reads m

/-- No access of an expression meets a byte that its code takes. -/
def Expr.Avoids (m : Memory) (e : Expr) : Prop := ∀ b ∈ e.reads m, b ∉ scratch

def BinOp.isShift : BinOp → Bool
  | shl | shr => true
  | _ => false

def Expr.hasBinary : Expr → Bool
  | term _ | memory _ => false
  | complement e => e.hasBinary
  | binary _ _ _ => true

/-- No right operand holds a binary operator. -/
def Expr.rightFlat : Expr → Bool
  | term _ | memory _ => true
  | complement e => e.rightFlat
  | binary _ left right => left.rightFlat && !right.hasBinary

/-- What the code of an expression leaves in the accumulator, and what it leaves in the left byte
if it writes it. A right operand that writes the left byte replaces the left operand by what it
leaves there. -/
def Expr.computed (m : Memory) : Expr → Byte × Option Byte
  | term t => (t.value m, none)
  | memory a => (m (a.cell m), none)
  | complement e => ((e.computed m).1 ^^^ 0xFF, (e.computed m).2)
  | binary op left right =>
    let x := (right.computed m).2.getD (left.computed m).1
    let v := op.apply x (right.computed m).1
    (v, some (if op.isShift then v else x))

theorem Expr.computed_of_not_hasBinary {e : Expr} (h : e.hasBinary = false) (m : Memory) :
    e.computed m = (e.value m, none) := by
  induction e with
  | term t => rfl
  | memory a => rfl
  | complement e ih => simp [Expr.computed, Expr.value, ih h]
  | binary op left right => simp [Expr.hasBinary] at h

theorem Expr.computed_isSome (e : Expr) (m : Memory) :
    (e.computed m).2.isSome = e.hasBinary := by
  induction e with
  | term t => rfl
  | memory a => rfl
  | complement e ih => simpa [Expr.computed, Expr.hasBinary] using ih
  | binary op left right => rfl

/-- The code computes the value of an expression in which no right operand holds an operator. -/
theorem Expr.computed_eq_value {e : Expr} (h : e.rightFlat = true) (m : Memory) :
    (e.computed m).1 = e.value m := by
  induction e with
  | term t => rfl
  | memory a => rfl
  | complement e ih => simp [Expr.computed, Expr.value, ih h]
  | binary op left right ihl ihr =>
    simp only [Expr.rightFlat, Bool.and_eq_true, Bool.not_eq_true'] at h
    simp [Expr.computed, Expr.value, computed_of_not_hasBinary h.2 m, ihl h.1]

def Expr.shape : Expr → Expr
  | term _ | memory _ => term (.immediate 0)
  | complement e => complement e.shape
  | binary op left right => binary op left.shape right.shape

/-- All leaves are numbers of eight bits. -/
def Expr.Literal : Expr → Prop
  | term (.immediate (.whole n)) => 0 ≤ n ∧ n ≤ 0xFF
  | term _ | memory _ => False
  | complement e => e.Literal
  | binary _ left right => left.Literal ∧ right.Literal

def literal (v : Byte) : Expr := .term (.immediate (.whole v.toNat))

theorem literal_value (v : Byte) (m : Memory) : (literal v).value m = v := by
  simp [literal, Expr.value, Term.value, Number.toInt]

theorem literal_literal (v : Byte) : (literal v).Literal := by
  have := v.isLt
  simp only [literal, Expr.Literal]
  omega

theorem Expr.hasBinary_shape (e : Expr) : e.shape.hasBinary = e.hasBinary := by
  induction e with
  | term t => rfl
  | memory a => rfl
  | complement e ih => simpa [Expr.shape, Expr.hasBinary] using ih
  | binary op left right => rfl

theorem Expr.hasBinary_congr {e f : Expr} (h : f.shape = e.shape) : f.hasBinary = e.hasBinary := by
  rw [← f.hasBinary_shape, h, e.hasBinary_shape]

theorem Expr.rightFlat_shape (e : Expr) : e.shape.rightFlat = e.rightFlat := by
  induction e with
  | term t => rfl
  | memory a => rfl
  | complement e ih => simpa [Expr.shape, Expr.rightFlat] using ih
  | binary op left right ihl ihr => simp [Expr.shape, Expr.rightFlat, ihl, Expr.hasBinary_shape]

theorem Expr.Literal.reads_eq {e : Expr} (h : e.Literal) (m : Memory) : e.reads m = [] := by
  induction e with
  | term t =>
    cases t with
    | immediate v => rfl
    | byte address => simp [Expr.Literal] at h
  | memory a => simp [Expr.Literal] at h
  | complement e ih => exact ih h
  | binary op left right ihl ihr => simp [Expr.reads, ihl h.1, ihr h.2]

theorem Expr.Literal.computed_eq {e : Expr} (h : e.Literal) (m m' : Memory) :
    e.computed m = e.computed m' := by
  induction e with
  | term t =>
    cases t with
    | immediate v => rfl
    | byte address => simp [Expr.Literal] at h
  | memory a => simp [Expr.Literal] at h
  | complement e ih => simp [Expr.computed, ih h]
  | binary op left right ihl ihr => simp [Expr.computed, ihl h.1, ihr h.2]

/-- The right operand with which an operator changes nothing. -/
def BinOp.neutral : BinOp → Byte
  | and => 0xFF
  | _ => 0

theorem BinOp.apply_neutral (op : BinOp) (x : Byte) : op.apply x op.neutral = x := by
  cases op <;> simp [BinOp.apply, BinOp.neutral]
  exact BitVec.and_allOnes

/-- The leaves of a shape can be chosen to give any value. -/
theorem Expr.exists_value (e : Expr) (v : Byte) :
    ∃ f : Expr, f.shape = e.shape ∧ f.Literal ∧ ∀ m, f.value m = v := by
  induction e generalizing v with
  | term t => exact ⟨literal v, rfl, literal_literal v, literal_value v⟩
  | memory a => exact ⟨literal v, rfl, literal_literal v, literal_value v⟩
  | complement e ih =>
    obtain ⟨f, hshape, hliteral, hvalue⟩ := ih (v ^^^ 0xFF)
    refine ⟨complement f, by simp [Expr.shape, hshape], hliteral, fun m => ?_⟩
    rw [Expr.value, hvalue, BitVec.xor_assoc, BitVec.xor_self, BitVec.xor_zero]
  | binary op left right ihl ihr =>
    obtain ⟨f, hf, hfliteral, hfvalue⟩ := ihl v
    obtain ⟨g, hg, hgliteral, hgvalue⟩ := ihr op.neutral
    refine ⟨binary op f g, by simp [Expr.shape, hf, hg], ⟨hfliteral, hgliteral⟩, fun m => ?_⟩
    rw [Expr.value, hfvalue, hgvalue, BinOp.apply_neutral]

/-- A shape in which some right operand holds an operator has leaves for which the code computes
another value. -/
theorem Expr.exists_computed_ne {e : Expr} (h : e.rightFlat = false) :
    ∃ f : Expr, f.shape = e.shape ∧ f.Literal ∧ ∀ m, (f.computed m).1 ≠ f.value m := by
  induction e with
  | term t => simp [Expr.rightFlat] at h
  | memory a => simp [Expr.rightFlat] at h
  | complement e ih =>
    obtain ⟨f, hshape, hliteral, hne⟩ := ih h
    refine ⟨complement f, by simp [Expr.shape, hshape], hliteral, fun m heq => hne m ?_⟩
    have hxor : (f.computed m).1 ^^^ 0xFF ^^^ 0xFF = f.value m ^^^ 0xFF ^^^ 0xFF :=
      congrArg (· ^^^ 0xFF) heq
    simpa only [BitVec.xor_assoc, BitVec.xor_self, BitVec.xor_zero] using hxor
  | binary op left right ihl ihr =>
    obtain ⟨g, hg, hgliteral, hgvalue⟩ := right.exists_value op.neutral
    cases hright : right.hasBinary with
    | false =>
      -- the left operand survives, and the neutral right operand passes its error on
      obtain ⟨f, hf, hfliteral, hne⟩ := ihl (by simpa [Expr.rightFlat, hright] using h)
      refine ⟨binary op f g, by simp [Expr.shape, hf, hg], ⟨hfliteral, hgliteral⟩, fun m heq => ?_⟩
      have hflat := computed_of_not_hasBinary ((hasBinary_congr hg).trans hright) m
      simp only [Expr.computed, Expr.value, hflat, Option.getD_none, hgvalue,
        BinOp.apply_neutral] at heq
      exact hne m heq
    | true =>
      -- the left operand is lost, so a value for it is chosen that the code cannot know
      let blank : Memory := fun _ => 0
      have hheld := (g.computed_isSome blank).trans ((hasBinary_congr hg).trans hright)
      obtain ⟨x, hx⟩ := Option.isSome_iff_exists.mp hheld
      let v := op.apply x (g.computed blank).1
      obtain ⟨f, hf, hfliteral, hfvalue⟩ := left.exists_value (v + 1)
      refine ⟨binary op f g, by simp [Expr.shape, hf, hg], ⟨hfliteral, hgliteral⟩, fun m heq => ?_⟩
      simp only [Expr.computed, Expr.value, hgliteral.computed_eq m blank, hx, Option.getD_some,
        hgvalue, hfvalue, BinOp.apply_neutral] at heq
      have hone : v + 1 = v + 0 := heq.symm.trans (BitVec.add_zero v).symm
      exact absurd (BitVec.add_right_inj v |>.mp hone) (by decide)

end Toolchain6502.C
