import Toolchain6502.Proofs.C.ExpressionRun

namespace Toolchain6502.C

open Cpu

def BinOp.shift? : BinOp → Option Mnemonic
  | shl => some .asl
  | shr => some .lsr
  | _ => none

/-- A part of an expression. Its code stands some lines into the code of the whole, and takes its
labels from a number on. -/
inductive Expr.Part (part : Expr) (m : Nat) : Expr → Nat → Nat → Prop
  | self : Part part m part m 0
  | operand {e : Expr} {n k : Nat} (h : Part part m e n k) : Part part m (.complement e) n k
  | left {op : BinOp} {left right : Expr} {n k : Nat} (h : Part part m left n k) :
      Part part m (.binary op left right) n k
  | right {op : BinOp} {left right : Expr} {n k : Nat}
      (h : Part part m right (left.code n).2 k) :
      Part part m (.binary op left right) n ((left.code n).1.length + 1 + k)

def rightReady (left right : Expr) (m : Nat) : Nat :=
  (left.code m).1.length + 1 + (right.code (left.code m).2).1.length

/-- The line that shifts, counted from where the right operand is ready. -/
def toShift : Nat := 9

/-- A line is passed once, and the line that shifts as often as the low three bits of the
accumulator say there. -/
def Rounds (passed : List Point) (ready : Nat) : Prop :=
  ∃ u : State, passed.filter (·.line == ready) = [⟨ready, u⟩] ∧
    passed.countP (·.line == ready + toShift) = u.a.toNat % 8

/-- Every shift of an expression goes round as its right operand says. -/
def Expr.Loops (e : Expr) (n line : Nat) (passed : List Point) : Prop :=
  ∀ (op : BinOp) (shift : Mnemonic) (left right : Expr) (m k : Nat), op.shift? = some shift →
    Part (.binary op left right) m e n k → Rounds passed (line + k + rightReady left right m)

theorem Expr.length_binary (op : BinOp) (left right : Expr) (m : Nat) :
    ((binary op left right).code m).1.length =
      rightReady left right m + 2 + (op.code (right.code (left.code m).2).2).1.length := by
  rw [code_binary]
  simp only [List.length_append, List.length_cons, List.length_nil, rightReady]

theorem Expr.Part.le {part e : Expr} {m n k : Nat} (h : Part part m e n k) :
    k + (part.code m).1.length ≤ (e.code n).1.length := by
  induction h with
  | self => omega
  | operand h ih =>
    rw [Expr.code_complement, List.length_append]
    omega
  | left h ih =>
    rw [Expr.length_binary, rightReady]
    omega
  | right h ih =>
    rw [Expr.length_binary, rightReady]
    omega

theorem BinOp.isShift_of_shift? {op : BinOp} {shift : Mnemonic} (h : op.shift? = some shift) :
    op.isShift = true := by
  cases op with
  | shl | shr => rfl
  | add | sub | and | or | xor => simp [shift?] at h

theorem BinOp.length_shift {op : BinOp} (h : op.isShift = true) (n : Nat) :
    (op.code n).1.length = 12 := by
  cases op with
  | shl | shr => rfl
  | add | sub | and | or | xor => simp [isShift] at h

theorem Expr.Part.codeAt {program : Code} {part e : Expr} {m n k line : Nat}
    (h : Part part m e n k) (hcode : CodeAt program line (e.code n).1) :
    CodeAt program (line + k) (part.code m).1 := by
  induction h generalizing line with
  | self => exact hcode
  | operand h ih =>
    rw [Expr.code_complement] at hcode
    exact ih hcode.left
  | left h ih =>
    rw [Expr.code_binary] at hcode
    exact ih hcode.left.left.left.left
  | right h ih =>
    rw [Expr.code_binary] at hcode
    have hright := ih hcode.left.left.right
    rw [List.length_append, List.length_singleton] at hright
    rwa [← Nat.add_assoc]

theorem Expr.Part.shiftLine {op : BinOp} {shift : Mnemonic} {left right e : Expr} {m n k : Nat}
    (h : Part (.binary op left right) m e n k) (hshift : op.shift? = some shift) :
    (e.code n).1[k + rightReady left right m + toShift]? = some (onByte shift leftByte) := by
  have hcode := h.codeAt (codeAt_self _)
  rw [Expr.code_binary] at hcode
  have hline : (op.code (right.code (left.code m).2).2).1[7]? = some (onByte shift leftByte) := by
    cases op <;> simp_all [BinOp.shift?, BinOp.code, shiftCode]
  have := hcode.right 7 _ hline
  simp only [List.length_append, List.length_cons, List.length_nil] at this
  rw [← this, rightReady, toShift]
  congr 1
  omega

theorem CodeAt.binary {program : Code} {op : BinOp} {left right : Expr} {n line : Nat}
    (h : CodeAt program line ((Expr.binary op left right).code n).1) :
    let middle := line + (left.code n).1.length
    let ready := line + rightReady left right n
    CodeAt program line (left.code n).1 ∧
      program[middle]? = some (onByte .sta leftByte) ∧
      CodeAt program (middle + 1) (right.code (left.code n).2).1 ∧
      program[ready]? = some (onByte .sta rightByte) ∧
      program[ready + 1]? = some (onByte .lda leftByte) ∧
      CodeAt program (ready + 2) (op.code (right.code (left.code n).2).2).1 := by
  intro middle ready
  rw [Expr.code_binary] at h
  have hright := h.left.left.right
  have hback := h.left.right
  have hop := h.right
  simp only [List.length_append, List.length_cons, List.length_nil, ← Nat.add_assoc]
    at hright hback hop
  simp only [middle, ready, rightReady, ← Nat.add_assoc]
  exact ⟨h.left.left.left.left, h.left.left.left.right.head, hright, hback.head, hback.tail.head, hop⟩

/-- The end of a shift, from where its right operand is ready. -/
theorem Rounds.own {ready : Nat} {u u' : State} {last : List Point}
    (hlast : ∀ p ∈ last, ready + 2 ≤ p.line)
    (hcount : last.countP (·.line == ready + 2 + 7) = u.a.toNat % 8) :
    Rounds (⟨ready, u⟩ :: ⟨ready + 1, u'⟩ :: last) ready := by
  have hnone : last.filter (·.line == ready) = [] := by
    rw [List.filter_eq_nil_iff]
    intro p hp heq
    have := hlast p hp
    have := eq_of_beq heq
    omega
  refine ⟨u, by simp [hnone], ?_⟩
  simpa [toShift, Nat.add_assoc] using hcount

theorem Rounds.between {passed : List Point} {ready : Nat} (h : Rounds passed ready)
    (before after : List Point) (hbefore : ∀ p ∈ before, p.line < ready)
    (hafter : ∀ p ∈ after, ready + toShift < p.line) :
    Rounds (before ++ passed ++ after) ready := by
  obtain ⟨u, hready, hrounds⟩ := h
  have hnone {others : List Point} {k : Nat} (hothers : ∀ p ∈ others, p.line ≠ k) :
      others.filter (·.line == k) = [] := by
    simpa [List.filter_eq_nil_iff] using hothers
  refine ⟨u, ?_, ?_⟩
  · rw [List.filter_append, List.filter_append, hready,
      hnone fun p hp => Nat.ne_of_lt (hbefore p hp), hnone fun p hp => ?_, List.nil_append,
      List.append_nil]
    have := hafter p hp
    omega
  · rw [List.countP_append, List.countP_append, hrounds, List.countP_eq_length_filter,
      List.countP_eq_length_filter, hnone fun p hp => ?_, hnone fun p hp => ?_]
    · simp
    · have := hafter p hp
      omega
    · have := hbefore p hp
      omega

section
variable {program : Code} {e : Expr} {n line : Nat} {passed : List Point}

theorem Expr.Loops.between (h : e.Loops n line passed) (before after : List Point)
    (hbefore : ∀ p ∈ before, p.line < line)
    (hafter : ∀ p ∈ after, line + (e.code n).1.length ≤ p.line) :
    e.Loops n line (before ++ passed ++ after) := by
  intro op shift left right m k hshift hpart
  have hle := hpart.le
  rw [Expr.length_binary, BinOp.length_shift (BinOp.isShift_of_shift? hshift)] at hle
  refine (h op shift left right m k hshift hpart).between _ _ (fun p hp => ?_) (fun p hp => ?_)
  · have := hbefore p hp
    omega
  · have := hafter p hp
    unfold toShift
    omega

/-- The shifts in the operands of an operator, and the operator itself. -/
theorem Expr.Loops.binary {op : BinOp} {left right : Expr} {first second back : List Point} {t : State}
    (hl : left.Loops n line first)
    (hr : right.Loops (left.code n).2 (line + (left.code n).1.length + 1) second)
    (hown : op.isShift = true → Rounds back (line + rightReady left right n))
    (hfirst : ∀ p ∈ first, p.line < line + (left.code n).1.length)
    (hsecond : ∀ p ∈ second, line + (left.code n).1.length + 1 ≤ p.line ∧
      p.line < line + rightReady left right n)
    (hback : ∀ p ∈ back, line + rightReady left right n ≤ p.line) :
    (Expr.binary op left right).Loops n line
      (first ++ [⟨line + (left.code n).1.length, t⟩] ++ second ++ back) := by
  have hready : rightReady left right n =
      (left.code n).1.length + 1 + (right.code (left.code n).2).1.length := rfl
  intro op' shift left' right' m k hshift hpart
  cases hpart with
  | self =>
    have hrounds := (hown (BinOp.isShift_of_shift? hshift)).between
      (first ++ [⟨line + (left.code n).1.length, t⟩] ++ second) [] ?_ (by simp)
    · simpa using hrounds
    · simp only [List.forall_mem_append, List.forall_mem_singleton]
      refine ⟨⟨fun p hp => ?_, by omega⟩, fun p hp => (hsecond p hp).2⟩
      have := hfirst p hp
      omega
  | left hpart =>
    have hrounds := hl.between []
      ([⟨line + (left.code n).1.length, t⟩] ++ second ++ back) (by simp) ?_
    · simpa using hrounds op' shift left' right' m k hshift hpart
    · simp only [List.forall_mem_append, List.forall_mem_singleton]
      refine ⟨⟨Nat.le_refl _, fun p hp => ?_⟩, fun p hp => ?_⟩
      · have := hsecond p hp
        omega
      · have := hback p hp
        omega
  | right hpart =>
    have hrounds := hr.between (first ++ [⟨line + (left.code n).1.length, t⟩]) back ?_ ?_
    · have := hrounds op' shift left' right' m _ hshift hpart
      simpa [Nat.add_assoc] using this
    · simp only [List.forall_mem_append, List.forall_mem_singleton]
      exact ⟨fun p hp => Nat.lt_succ_of_lt (hfirst p hp), Nat.lt_succ_self _⟩
    · intro p hp
      have := hback p hp
      omega

/-- What the code of an expression passes, in any program around it. -/
theorem Expr.crosses (hdistinct : (labelsOf program).Nodup)
    (hcode : CodeAt program line (e.code n).1) (s : State) :
    ∃ (passed : List Point) (t : State),
      Crosses program Spilled line (line + (e.code n).1.length) ⟨line, s⟩ passed
        ⟨line + (e.code n).1.length, t⟩ ∧
      e.Loops n line passed := by
  induction e generalizing n line s with
  | term t =>
    obtain ⟨passed, hpassed⟩ := Crosses.quiet Spilled hcode (t.straight_load s) (t.stores_load s)
    exact ⟨passed, _, hpassed, fun _ _ _ _ _ _ _ hpart => by cases hpart⟩
  | memory a =>
    obtain ⟨t, hstraight, -, -, hstores⟩ := a.straight_access s .lda
    obtain ⟨passed, hpassed⟩ := Crosses.quiet Spilled hcode hstraight hstores
    exact ⟨passed, _, hpassed, fun _ _ _ _ _ _ _ hpart => by cases hpart⟩
  | complement e ih =>
    rw [code_complement] at hcode ⊢
    obtain ⟨passed, t, hpassed, hloops⟩ := ih hcode.left s
    have hinvert : straight t [withValue .eor 0xFF] = some (t.load (t.a ^^^ 0xFF)) := rfl
    obtain ⟨last, hlast⟩ := Crosses.quiet Spilled hcode.right hinvert rfl
    rw [Nat.add_assoc, ← List.length_append] at hlast
    refine ⟨_, _, (hpassed.widen (Nat.le_refl _) ?_).trans (hlast.widen ?_ (Nat.le_refl _)), ?_⟩
    · simp
    · simp
    · intro op shift left right m k hshift hpart
      cases hpart with
      | operand hpart =>
        have hall := hloops.between [] last (by simp)
          fun p hp => (hlast.within p hp).1
        exact hall op shift left right m k hshift hpart
  | binary op left right ihl ihr =>
    obtain ⟨hcodel, hput, hcoder, hstore, hload, hcodeop⟩ := hcode.binary
    obtain ⟨first, t, hfirst, hloopsl⟩ := ihl hcodel s
    obtain ⟨second, u, hsecond, hloopsr⟩ := ihr hcoder (t.store leftCell t.a)
    have hreached : line + (left.code n).1.length + 1 + (right.code (left.code n).2).1.length =
        line + rightReady left right n := by
      rw [rightReady]
      omega
    rw [hreached] at hsecond
    let w := (u.store rightCell u.a).load ((u.store rightCell u.a).memory leftCell)
    obtain ⟨last, v, hlast, hrounds, -⟩ := op.crosses hdistinct hcodeop w
    have hputs : Step program Spilled ⟨line + (left.code n).1.length, t⟩
        ⟨line + (left.code n).1.length + 1, t.store leftCell t.a⟩ :=
      .instruction hput rfl rfl fun b hb => .inl (cell_of_written hb).symm
    have hstores : Step program Spilled ⟨line + rightReady left right n, u⟩
        ⟨line + rightReady left right n + 1, u.store rightCell u.a⟩ :=
      .instruction hstore rfl rfl fun b hb => .inr (.inl (cell_of_written hb).symm)
    have hloads : Step program Spilled
        ⟨line + rightReady left right n + 1, u.store rightCell u.a⟩
        ⟨line + rightReady left right n + 2, w⟩ :=
      .instruction hload rfl rfl (by simp [written?])
    have hback : Crosses program Spilled (line + rightReady left right n) _ _ _ _ :=
      .step hstores (Nat.le_refl _) (by simp; omega) <|
        .step hloads (Nat.le_succ _) (by simp; omega) (hlast.widen (by omega) (Nat.le_refl _))
    rw [length_binary, ← Nat.add_assoc, ← Nat.add_assoc]
    refine ⟨_, v, (((hfirst.widen (Nat.le_refl _) (by omega)).trans
      (.step hputs (Nat.le_add_right _ _) (by simp; omega) (.done _))).trans
      (hsecond.widen (by omega) (by omega))).trans (hback.widen (by omega) (Nat.le_refl _)), ?_⟩
    exact hloopsl.binary hloopsr
      (fun hshift => .own (fun p hp => (hlast.within p hp).1) (hrounds hshift))
      (fun p hp => (hfirst.within p hp).2) hsecond.within (fun p hp => (hback.within p hp).1)

end

/-- From every state the code of an expression runs to its last line, and no step of it writes any
byte but the three that operands pass through. The byte of a comparison and the variables keep
their values. Each shift repeats its instruction exactly as often as its right operand says modulo
eight. -/
theorem Expr.code_ends (e : Expr) (n : Nat) (s : State) :
    ∃ (passed : List Point) (t : State),
      Trace (e.code n).1 Spilled ⟨0, s⟩ passed ⟨(e.code n).1.length, t⟩ ∧
      (∀ b : Word, b ≠ 0x20 → b ≠ 0x21 → b ≠ 0x22 → t.memory b = s.memory b) ∧
      t.memory 0x23 = s.memory 0x23 ∧
      (∀ b : Word, 0x40 ≤ b.toNat → b.toNat ≤ 0xFE → t.memory b = s.memory b) ∧
      ∀ (op : BinOp) (shift : Mnemonic) (left right : Expr) (m k : Nat), op.shift? = some shift →
        Part (.binary op left right) m e n k →
        (e.code n).1[k + rightReady left right m + toShift]? = some (onByte shift leftByte) ∧
          Rounds passed (k + rightReady left right m) := by
  obtain ⟨passed, t, hpassed, hloops⟩ :=
    Expr.crosses (e.code_generated n).nodup (codeAt_self _) s
  have hkept (b : Word) (hleft : b ≠ 0x20) (hright : b ≠ 0x21) (hcount : b ≠ 0x22) :
      t.memory b = s.memory b := by
    apply hpassed.runs.memory
    rintro (rfl | rfl | rfl)
    · exact hleft rfl
    · exact hright rfl
    · exact hcount rfl
  rw [Nat.zero_add] at hpassed
  refine ⟨passed, t, hpassed.trace, hkept, ?_, ?_, ?_⟩
  · exact hkept _ (by decide) (by decide) (by decide)
  · intro b hlow hhigh
    apply hkept <;> (rintro rfl; exact absurd hlow (by decide))
  · intro op shift left right m k hshift hpart
    have hrounds := hloops op shift left right m k hshift hpart
    rw [Nat.zero_add] at hrounds
    exact ⟨hpart.shiftLine hshift, hrounds⟩

end Toolchain6502.C
