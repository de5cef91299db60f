import Toolchain6502.Proofs.C.ExpressionEnd
import Toolchain6502.Proofs.C.FlowRun

namespace Toolchain6502.C

open Cpu

theorem Spilled.ne_compared {b : Word} (h : Spilled b) : comparedCell ≠ b := by
  rcases h with rfl | rfl | rfl <;> decide

section
variable {program : Code} {c : Condition} {n line : Nat} {otherwise : String} {target : Nat}

theorem CodeAt.condition (h : CodeAt program line (c.code n otherwise).1) :
    let middle := line + (c.left.code n).1.length
    let ready := middle + 1 + (c.right.code (c.left.code n).2).1.length
    CodeAt program line (c.left.code n).1 ∧
      program[middle]? = some (onByte .sta comparedByte) ∧
      CodeAt program (middle + 1) (c.right.code (c.left.code n).2).1 ∧
      CodeAt program ready
        [onByte .sta rightByte, onByte .lda comparedByte, onByte .cmp rightByte] ∧
      CodeAt program (ready + 3) (c.op.code (c.right.code (c.left.code n).2).2 otherwise).1 := by
  intro middle ready
  rw [Condition.code_eq] at h
  have hright := h.left.left.right
  have hcompare := h.left.right
  have hop := h.right
  simp only [List.length_append, List.length_cons, List.length_nil, ← Nat.add_assoc]
    at hright hcompare hop
  exact ⟨h.left.left.left.left, h.left.left.left.right.head, hright, hcompare, hop⟩

theorem Condition.length_code (c : Condition) (n line : Nat) (otherwise : String) :
    line + (c.code n otherwise).1.length =
      line + (c.left.code n).1.length + 1 + (c.right.code (c.left.code n).2).1.length + 3 +
        (c.op.code (c.right.code (c.left.code n).2).2 otherwise).1.length := by
  simp only [Condition.code_eq, List.length_append, List.length_cons, List.length_nil,
    ← Nat.add_assoc]

/-- In any program around it, the code of a condition runs through its own lines only and then goes
on after them if the comparison holds, and at its label if not. What is compared is the byte that
the code of the left side leaves in the accumulator, and the byte that the code of the right side
leaves there after it. -/
theorem Condition.code_branches (hdistinct : (labelsOf program).Nodup)
    (hcode : CodeAt program line (c.code n otherwise).1)
    (htarget : program[target]? = some (.label otherwise)) (s : State) :
    let middle := line + (c.left.code n).1.length
    let after := line + (c.code n otherwise).1.length
    ∃ (t u v : State) (passed : List Point),
      Runs program Spilled ⟨line, s⟩ ⟨middle, t⟩ ∧
      Runs program Spilled ⟨middle + 1, t.store comparedCell t.a⟩
        ⟨middle + 1 + (c.right.code (c.left.code n).2).1.length, u⟩ ∧
      Crosses program (· ∈ scratch) line after ⟨line, s⟩ passed
        ⟨if c.op.holds t.a u.a then after else target, v⟩ := by
  dsimp only
  obtain ⟨hcodel, hput, hcoder, hcodecmp, hcodeop⟩ := hcode.condition
  obtain ⟨first, t, hfirst, -⟩ := Expr.crosses hdistinct hcodel s
  obtain ⟨second, u, hsecond, -⟩ := Expr.crosses hdistinct hcoder (t.store comparedCell t.a)
  refine ⟨t, u, ?_⟩
  have hputs : Step program (· ∈ scratch) ⟨line + (c.left.code n).1.length, t⟩
      ⟨line + (c.left.code n).1.length + 1, t.store comparedCell t.a⟩ :=
    .instruction hput rfl rfl fun b hb => by simp [← cell_of_written hb, scratch]
  -- the left value is still there when the right one has been computed
  have hkept : u.memory comparedCell = t.a := by
    have := hsecond.runs.memory (b := comparedCell) fun h => h.ne_compared rfl
    simpa using this
  let w := u.store rightCell u.a
  let v := (w.load (w.memory comparedCell)).compare (w.memory rightCell)
  have hx : w.memory comparedCell = t.a := by
    simp [w, hkept]
  have hy : w.memory rightCell = u.a := by
    simp [w]
  let compare := [onByte .sta rightByte, onByte .lda comparedByte, onByte .cmp rightByte]
  have hstraight : straight u compare = some v := rfl
  have hstores : stores u compare = [rightCell] := rfl
  obtain ⟨third, hthird, -⟩ := Crosses.straight (· ∈ scratch) hcodecmp hstraight
    (by simp [compare, hstores, scratch])
  obtain ⟨last, hlast⟩ := c.op.crosses (· ∈ scratch) hdistinct hcodeop htarget (s := v)
    (x := t.a) (y := u.a)
    (by simp [v, State.compare, hx, hy]) (by simp [v, State.compare, hx, hy])
  have hleft := hfirst.mono fun _ => Spilled.mem_scratch
  have hright := hsecond.mono fun _ => Spilled.mem_scratch
  rw [Condition.length_code]
  exact ⟨v, _, hfirst.runs, hsecond.runs, (((hleft.widen (Nat.le_refl _) (by omega)).trans
    (.step hputs (Nat.le_add_right _ _) (by simp; omega) (.done _))).trans
    (hright.widen (by omega) (by omega))).trans
    ((hthird.widen (by omega) (by simp)).trans (hlast.widen (by omega) (Nat.le_refl _)))⟩

end

def belowPower : Condition :=
  ⟨.term (.byte 0x40), .le, .binary .shl (literal 1) (.term (.byte 0x41))⟩

def guarded : Code := (belowPower.code 2 "CIFELSE1").1 ++ [onByte .inc 0x42, .label "CIFELSE1"]

theorem guarded_branches :
    let s : State := ⟨0, 0, false, false, fun _ => 7⟩
    (labelsOf guarded).Nodup ∧ guarded[27]? = some (.label "CIFELSE1") ∧
      ∃ (t u v : State) (passed : List Point),
        Runs guarded Spilled ⟨0, s⟩ ⟨1, t⟩ ∧
        Runs guarded Spilled ⟨2, t.store comparedCell t.a⟩ ⟨19, u⟩ ∧
        Crosses guarded (· ∈ scratch) 0 26 ⟨0, s⟩ passed
          ⟨if Comparison.le.holds t.a u.a then 26 else 27, v⟩ := by
  intro s
  have hdistinct : (labelsOf guarded).Nodup := by decide
  have htarget : guarded[27]? = some (.label "CIFELSE1") := by decide
  exact ⟨hdistinct, htarget,
    Condition.code_branches hdistinct ((codeAt_self _).append_left _) htarget s⟩

end Toolchain6502.C
