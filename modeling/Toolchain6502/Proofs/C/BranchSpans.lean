import Toolchain6502.Proofs.C.FlowLabels

namespace Toolchain6502.C

open Cpu

def Address.size (a : Address) : Nat :=
  match a.offset with
  | some (.byte _) => 5
  | _ => 3

def BinOp.size : BinOp → Nat
  | add | sub => 3
  | and | xor | or => 2
  | shl | shr => 21

def Expr.size : Expr → Nat
  | term _ => 2
  | memory a => a.size
  | complement e => e.size + 2
  | binary op left right => left.size + right.size + 6 + op.size

def Comparison.size : Comparison → Nat
  | eq | ne | lt | ge => 2
  | gt => 4
  | le => 7

def Condition.size (c : Condition) : Nat := c.left.size + c.right.size + 8 + c.op.size

def Statement.size : Statement → Nat
  | leave => 1
  | call _ => 3
  | increment _ | decrement _ => 2
  | assign _ value => value.size + 2
  | store address value => value.size + address.size

def Flow.size : Flow → Nat
  | skip => 0
  | act s => s.size
  | seq first second => first.size + second.size
  | branch c yes no => c.size + yes.size + 3 + no.size
  | loop _ c body => (c.map Condition.size).getD 0 + body.size + 3

theorem Address.codeSize_access (a : Address) (m : Mnemonic) : codeSize (a.access m) = a.size := by
  obtain ⟨base, _ | (_ | _)⟩ := a <;> rfl

theorem BinOp.codeSize_code (op : BinOp) (n : Nat) : codeSize (op.code n).1 = op.size := by
  cases op <;> rfl

theorem Expr.codeSize_code (e : Expr) (n : Nat) : codeSize (e.code n).1 = e.size := by
  induction e generalizing n with
  | term t => cases t <;> rfl
  | memory a => exact a.codeSize_access .lda
  | complement e ih =>
    simp only [code, codeSize_append, ih, size]
    rfl
  | binary op left right ihl ihr =>
    have hstore : codeSize [onByte .sta leftByte] = 2 := rfl
    have hpass : codeSize [onByte .sta rightByte, onByte .lda leftByte] = 4 := rfl
    simp only [code, codeSize_append, ihl, ihr, op.codeSize_code, hstore, hpass, size]
    omega

theorem Comparison.codeSize_code (op : Comparison) (n : Nat) (otherwise : String) :
    codeSize (op.code n otherwise).1 = op.size := by
  cases op <;> rfl

theorem Condition.codeSize_code (c : Condition) (n : Nat) (otherwise : String) :
    codeSize (c.code n otherwise).1 = c.size := by
  have hstore : codeSize [onByte .sta comparedByte] = 2 := rfl
  have hcompare : codeSize
      [onByte .sta rightByte, onByte .lda comparedByte, onByte .cmp rightByte] = 6 := rfl
  simp only [code, codeSize_append, c.left.codeSize_code, c.right.codeSize_code,
    c.op.codeSize_code, hstore, hcompare, size]
  omega

theorem Statement.codeSize_code (s : Statement) (function : String) (n : Nat) :
    codeSize (s.code function n).1 = s.size := by
  cases s with
  | assign address value =>
    simp only [code, codeSize_append, value.codeSize_code, size]
    rfl
  | store address value =>
    simp only [code, codeSize_append, value.codeSize_code, address.codeSize_access, size]
  | leave | call _ | increment _ | decrement _ => rfl

theorem testCode_codeSize (c : Option Condition) (n : Nat) (otherwise : String) :
    codeSize (testCode n otherwise c).1 = (c.map Condition.size).getD 0 := by
  cases c with
  | none => rfl
  | some c => exact c.codeSize_code n otherwise

theorem Flow.codeSize_code (flow : Flow) (function : String) (n : Nat) :
    codeSize (flow.code function n).1 = flow.size := by
  have hjump (target name : String) : codeSize [toLabel .jmp target, .label name] = 3 := rfl
  have hlabel (name : String) : codeSize [.label name] = 0 := rfl
  induction flow generalizing n with
  | skip => rfl
  | act s => exact s.codeSize_code function n
  | seq first second ih ih' => simp only [code, codeSize_append, ih, ih', size]
  | branch c yes no ih ih' =>
    simp only [code, codeSize_append, c.codeSize_code, ih, ih', hjump, hlabel, size]
    omega
  | loop kind c body ih =>
    simp only [code, codeSize_append, testCode_codeSize, ih, hjump, hlabel, size]
    omega

def distanceTo? (name : String) : Code → Option Nat
  | [] => none
  | l :: code => if l = .label name then some 0 else (distanceTo? name code).map (l.size + ·)

/-- The bytes that each branch of some code passes over, where other code follows. A branch that
does not lead ahead passes over none. -/
def spansBefore (rest : Code) : Code → List (Option Nat)
  | [] => []
  | .instruction m (.label name) :: code =>
    if m.isBranch then distanceTo? name (code ++ rest) :: spansBefore rest code
    else spansBefore rest code
  | _ :: code => spansBefore rest code

theorem distanceTo?_append {name : String} {first : Code} (h : name ∉ labelsOf first)
    (second : Code) :
    distanceTo? name (first ++ second) = (distanceTo? name second).map (codeSize first + ·) := by
  induction first with
  | nil => simp
  | cons l first ih =>
    have hlabels : labelsOf (l :: first) = labelsOf [l] ++ labelsOf first :=
      labelsOf_append [l] first
    rw [hlabels, List.mem_append, not_or] at h
    have hl : l ≠ .label name := by
      rintro rfl
      exact h.1 (List.mem_singleton.mpr rfl)
    rw [List.cons_append, distanceTo?, if_neg hl, ih h.2, Option.map_map]
    congr 1
    funext d
    simp [Nat.add_assoc]

theorem spansBefore_append (rest first second : Code) :
    spansBefore rest (first ++ second) =
      spansBefore (second ++ rest) first ++ spansBefore rest second := by
  induction first with
  | nil => rfl
  | cons l first ih =>
    cases l with
    | instruction m operand =>
      cases operand with
      | label name =>
        simp only [List.cons_append, spansBefore, ih, List.append_assoc]
        split <;> rfl
      | _ => exact ih
    | _ => exact ih

theorem spansBefore_of_targetsOf_eq_nil {code : Code} (h : targetsOf code = []) (rest : Code) :
    spansBefore rest code = [] := by
  induction code with
  | nil => rfl
  | cons l code ih =>
    have htargets : targetsOf (l :: code) = targetsOf [l] ++ targetsOf code :=
      targetsOf_append [l] code
    rw [htargets, List.append_eq_nil_iff] at h
    cases l with
    | instruction m operand =>
      cases operand with
      | label name => simp [targetsOf] at h
      | _ => exact ih h.2
    | _ => exact ih h.2

/-- A shift leaves its loop over the round that shifts once more. -/
def BinOp.spans : BinOp → List Nat
  | shl | shr => [7]
  | _ => []

def Expr.spans : Expr → List Nat
  | term _ | memory _ => []
  | complement e => e.spans
  | binary op left right => left.spans ++ right.spans ++ op.spans

/-- The branches of a comparison that guards some bytes. The one for `<=` passes over a jump, which
reaches everywhere. -/
def Comparison.spans (guarded : Nat) : Comparison → List Nat
  | eq | ne | lt | ge => [guarded]
  | gt => [guarded + 2, guarded]
  | le => [5, 3]

def Condition.spans (guarded : Nat) (c : Condition) : List Nat :=
  c.left.spans ++ c.right.spans ++ c.op.spans guarded

def Statement.spans : Statement → List Nat
  | leave | call _ | increment _ | decrement _ => []
  | assign _ value | store _ value => value.spans

/-- The bytes that the branches of structured statements pass over. A test guards a part and the
jump behind it. -/
def Flow.spans : Flow → List Nat
  | skip => []
  | act s => s.spans
  | seq first second => first.spans ++ second.spans
  | branch c yes no => c.spans (yes.size + 3) ++ yes.spans ++ no.spans
  | loop _ c body => (c.map (Condition.spans (body.size + 3))).getD [] ++ body.spans

theorem BinOp.spansBefore_code (op : BinOp) (rest : Code) (n : Nat) :
    spansBefore rest (op.code n).1 = op.spans.map some := by
  cases op with
  | shl | shr =>
    simp [code, shiftCode, spansBefore, distanceTo?, spans, onByte, withValue, toLabel,
      Mnemonic.isBranch, CodeLine.size, CodeOperand.mode, Mode.operandSize]
  | add | sub | and | xor | or => exact spansBefore_of_targetsOf_eq_nil rfl rest

theorem Expr.spansBefore_code (e : Expr) (rest : Code) (n : Nat) :
    spansBefore rest (e.code n).1 = e.spans.map some := by
  induction e generalizing rest n with
  | term t => cases t <;> rfl
  | memory a => exact spansBefore_of_targetsOf_eq_nil (a.access_targets .lda) rest
  | complement e ih =>
    simp only [code, spansBefore_append, ih, spans]
    exact List.append_nil _
  | binary op left right ihl ihr =>
    have hstore (rest : Code) : spansBefore rest [onByte .sta leftByte] = [] := rfl
    have hpass (rest : Code) :
        spansBefore rest [onByte .sta rightByte, onByte .lda leftByte] = [] := rfl
    simp only [code, spansBefore_append, ihl, ihr, op.spansBefore_code, hstore, hpass,
      List.append_nil, spans, List.map_append]

section

variable {rest : Code} {otherwise : String} {guarded : Nat}
  (hrest : distanceTo? otherwise rest = some guarded)

include hrest

theorem Comparison.spansBefore_code (op : Comparison) (n : Nat) :
    spansBefore rest (op.code n otherwise).1 = (op.spans guarded).map some := by
  cases op with
  | le =>
    simp [code, spansBefore, distanceTo?, spans, toLabel, Mnemonic.isBranch, CodeLine.size,
      CodeOperand.mode, Mode.operandSize]
  | gt =>
    simp [code, spansBefore, distanceTo?, spans, toLabel, Mnemonic.isBranch, CodeLine.size,
      CodeOperand.mode, Mode.operandSize, hrest, Nat.add_comm]
  | eq | ne | lt | ge =>
    simp [code, spansBefore, spans, toLabel, Mnemonic.isBranch, hrest]

theorem Condition.spansBefore_code (c : Condition) (n : Nat) :
    spansBefore rest (c.code n otherwise).1 = (c.spans guarded).map some := by
  have hstore (rest : Code) : spansBefore rest [onByte .sta comparedByte] = [] := rfl
  have hcompare (rest : Code) : spansBefore rest
      [onByte .sta rightByte, onByte .lda comparedByte, onByte .cmp rightByte] = [] := rfl
  simp only [code, spansBefore_append, c.left.spansBefore_code, c.right.spansBefore_code,
    c.op.spansBefore_code hrest, hstore, hcompare, List.append_nil, spans, List.map_append]

theorem testCode_spansBefore (c : Option Condition) (n : Nat) :
    spansBefore rest (testCode n otherwise c).1 =
      ((c.map (Condition.spans guarded)).getD []).map some := by
  cases c with
  | none => rfl
  | some c => exact c.spansBefore_code hrest n

end

theorem Statement.spansBefore_code (s : Statement) (function : String) (rest : Code) (n : Nat) :
    spansBefore rest (s.code function n).1 = s.spans.map some := by
  cases s with
  | assign address value =>
    simp only [code, spansBefore_append, value.spansBefore_code, spans]
    exact List.append_nil _
  | store address value =>
    rw [code, spansBefore_append, value.spansBefore_code,
      spansBefore_of_targetsOf_eq_nil (address.access_targets .sta), List.append_nil, spans]
  | leave | call _ | increment _ | decrement _ => rfl

theorem LoopKind.numberOf_endLabel (kind : LoopKind) (n : Nat) : numberOf (kind.endLabel n) = n := by
  obtain ⟨s, t, -, hknown, -, hend⟩ := kind.stems_eq
  rw [hend]
  exact numberOf_generatedLabel (hknown (by simp)) n

/-- The branches of structured statements pass over what their source says, whatever follows. -/
theorem Flow.spansBefore_code (flow : Flow) (function : String) (rest : Code) (n : Nat) :
    spansBefore rest (flow.code function n).1 = flow.spans.map some := by
  have hlabel (name : String) (rest : Code) : spansBefore rest [.label name] = [] := rfl
  have hjump (target name : String) (rest : Code) :
      spansBefore rest [toLabel .jmp target, .label name] = [] := rfl
  -- A guarded part ends with a jump and then the label that its test leads to.
  have hguarded (part : Flow) {name : String} {low : Nat} (hname : numberOf name < low)
      (target : String) (rest : Code) :
      distanceTo? name ((part.code function low).1 ++
        ([toLabel .jmp target, .label name] ++ rest)) = some (part.size + 3) := by
    rw [distanceTo?_append ((part.code_generated function low).not_mem hname), part.codeSize_code]
    simp [distanceTo?, toLabel, CodeLine.size, CodeOperand.mode, Mnemonic.isBranch,
      Mode.operandSize]
  induction flow generalizing rest n with
  | skip => rfl
  | act s => exact s.spansBefore_code function rest n
  | seq first second ih ih' => simp only [code, spansBefore_append, ih, ih', spans, List.map_append]
  | branch c yes no ih ih' =>
    have hnumber := numberOf_generatedLabel (by decide : "CIFELSE" ∈ labelStems) (n + 1)
    have hcounter := (c.code_generated (n + 2) (generatedLabel "CIFELSE" (n + 1))).counter
    have hlow : numberOf (generatedLabel "CIFELSE" (n + 1)) <
        (c.code (n + 2) (generatedLabel "CIFELSE" (n + 1))).2 := by omega
    have helse := hguarded yes hlow
    simp only [code, spansBefore_append, List.append_assoc, ih, ih', hlabel, hjump,
      c.spansBefore_code (helse _ _), List.append_nil, List.nil_append, spans, List.map_append]
  | loop kind c body ih =>
    have hnumber := kind.numberOf_endLabel (n + 1)
    have hcounter := (testCode_generated c (n + 2) (kind.endLabel (n + 1))).counter
    have hlow : numberOf (kind.endLabel (n + 1)) <
        (testCode (n + 2) (kind.endLabel (n + 1)) c).2 := by omega
    have hend := hguarded body hlow
    simp only [code, spansBefore_append, List.append_assoc, ih, hlabel, hjump,
      testCode_spansBefore (hend _ _), List.append_nil, List.nil_append, spans, List.map_append]

/-- Every branch is short enough for the processor, which goes ahead by 127 bytes at most. -/
def Flow.short (flow : Flow) : Bool := flow.spans.all (· ≤ 127)

theorem spansBefore_ofFunctions (fs : List Function) (rest : Code) :
    spansBefore rest (Progress.ofFunctions fs).code =
      (fs.flatMap fun f => f.body.spans).map some := by
  induction fs using List.reverseRecOn generalizing rest with
  | nil => rfl
  | append_singleton fs f ih =>
    have hname (rest : Code) : spansBefore rest [.label f.name] = [] := rfl
    have hleave (rest : Code) : spansBefore rest [leaveCode f.name, .empty] = [] := rfl
    rw [Progress.ofFunctions_concat]
    simp only [Progress.add, Function.code, spansBefore_append, ih, f.body.spansBefore_code,
      hname, hleave, List.nil_append, List.append_nil, List.flatMap_append, List.flatMap_cons,
      List.flatMap_nil, List.map_append]

theorem distanceTo?_eq_some {name : String} {code : Code} {d : Nat}
    (h : distanceTo? name code = some d) :
    ∃ k : Nat, code[k]? = some (.label name) ∧ codeSize (code.take k) = d := by
  induction code generalizing d with
  | nil => simp [distanceTo?] at h
  | cons l code ih =>
    rw [distanceTo?] at h
    split at h
    case isTrue hl =>
      exact ⟨0, by simp [hl], by simpa using h⟩
    case isFalse hl =>
      obtain ⟨d', hd', rfl⟩ := Option.map_eq_some_iff.mp h
      obtain ⟨k, hk, hsize⟩ := ih hd'
      exact ⟨k + 1, by simpa using hk, by simp [hsize]⟩

theorem mem_spansBefore {rest code : Code} {span : Option Nat} :
    span ∈ spansBefore rest code ↔ ∃ (line : Nat) (m : Mnemonic) (name : String),
      code[line]? = some (toLabel m name) ∧ m.isBranch = true ∧
        span = distanceTo? name (code.drop (line + 1) ++ rest) := by
  induction code with
  | nil => simp [spansBefore]
  | cons l code ih =>
    -- The first line is the only branch that is not one of the rest.
    have hsplit : (∃ (line : Nat) (m : Mnemonic) (name : String),
        (l :: code)[line]? = some (toLabel m name) ∧ m.isBranch = true ∧
          span = distanceTo? name ((l :: code).drop (line + 1) ++ rest)) ↔
        (∃ (m : Mnemonic) (name : String), l = toLabel m name ∧ m.isBranch = true ∧
          span = distanceTo? name (code ++ rest)) ∨ span ∈ spansBefore rest code := by
      rw [ih]
      constructor
      · rintro ⟨line, m, name, hline, hm, hspan⟩
        cases line with
        | zero => exact .inl ⟨m, name, by simpa using hline, hm, hspan⟩
        | succ line => exact .inr ⟨line, m, name, by simpa using hline, hm, hspan⟩
      · rintro (⟨m, name, rfl, hm, hspan⟩ | ⟨line, m, name, hline, hm, hspan⟩)
        · exact ⟨0, m, name, rfl, hm, hspan⟩
        · exact ⟨line + 1, m, name, by simpa using hline, hm, hspan⟩
    rw [hsplit]
    cases l with
    | instruction m operand =>
      cases operand with
      | label name =>
        rw [spansBefore]
        split
        case isTrue hm => simp [toLabel, hm]
        case isFalse hm => simp [toLabel, hm]
      | _ => simp [spansBefore, toLabel]
    | _ => simp [spansBefore, toLabel]

/-- Where all branches lead ahead, they are near their labels just when no span is too long. -/
theorem near_iff {code : Code} {spans : List Nat} (hspans : spansBefore [] code = spans.map some)
    (hdistinct : (labelsOf code).Nodup) : Near code ↔ ∀ d ∈ spans, d ≤ 127 := by
  -- The label that ends a span, and the bytes before it.
  have hlabel {line d : Nat} {name : String}
      (hd : distanceTo? name (code.drop (line + 1)) = some d) :
      ∃ target : Nat, code[target]? = some (.label name) ∧
        codeSize (code.take target) = codeSize (code.take (line + 1)) + d := by
    obtain ⟨k, hk, rfl⟩ := distanceTo?_eq_some hd
    rw [List.getElem?_drop] at hk
    exact ⟨line + 1 + k, hk, by rw [List.take_add, codeSize_append]⟩
  constructor
  · intro hnear d hd
    have hmem : some d ∈ spansBefore [] code := by
      rw [hspans]
      exact List.mem_map_of_mem hd
    obtain ⟨line, m, name, hline, hm, hdistance⟩ := mem_spansBefore.mp hmem
    rw [List.append_nil] at hdistance
    obtain ⟨target, htarget, hsize⟩ := hlabel hdistance.symm
    have hreach := hnear line target m name hline hm htarget
    omega
  · intro hshort line target m name hline hm htarget
    have hmem : distanceTo? name (code.drop (line + 1) ++ []) ∈ spansBefore [] code :=
      mem_spansBefore.mpr ⟨line, m, name, hline, hm, rfl⟩
    rw [hspans, List.append_nil] at hmem
    obtain ⟨d, hd, hdistance⟩ := List.mem_map.mp hmem
    obtain ⟨target', htarget', hsize⟩ := hlabel hdistance.symm
    obtain rfl : target = target' :=
      Option.some.inj ((lineOf?_eq hdistinct htarget).symm.trans (lineOf?_eq hdistinct htarget'))
    have hbound := hshort d hd
    omega

theorem ofFunctions_near_iff {fs : List Function}
    (hdistinct : (labelsOf (Progress.ofFunctions fs).code).Nodup) :
    Near (Progress.ofFunctions fs).code ↔ ∀ f ∈ fs, f.body.short = true := by
  rw [near_iff (spansBefore_ofFunctions fs []) hdistinct]
  simp only [List.mem_flatMap, Flow.short, List.all_eq_true, decide_eq_true_eq]
  exact ⟨fun h f hf d hd => h d ⟨f, hf, hd⟩, fun h d ⟨f, hf, hd⟩ => h f hf d hd⟩

end Toolchain6502.C
