import Toolchain6502.Proofs.C.CodeText
import Toolchain6502.Proofs.C.GeneratedLabels
import Toolchain6502.Proofs.C.Scopes

namespace Toolchain6502.C

open Assembly (isSymbol isSymbolPart)

def Statement.named : Statement → Bool
  | call name => isSymbol name.toList
  | _ => true

def Flow.named : Flow → Bool
  | skip => true
  | act s => s.named
  | seq first second => first.named && second.named
  | branch _ yes no => yes.named && no.named
  | loop _ _ body => body.named

def Function.named (f : Function) : Bool := isSymbol f.name.toList && f.body.named

def Named (code : Code) : Prop := ∀ l ∈ code, l.named = true

@[simp]
theorem named_append {first second : Code} :
    Named (first ++ second) ↔ Named first ∧ Named second :=
  List.forall_mem_append

@[simp]
theorem named_cons {l : CodeLine} {code : Code} :
    Named (l :: code) ↔ l.named = true ∧ Named code :=
  List.forall_mem_cons

@[simp]
theorem named_nil : Named [] := by simp [Named]

@[simp]
theorem named_label {name : String} : (CodeLine.label name).named = true ↔ isSymbol name.toList :=
  Iff.rfl

@[simp]
theorem named_toLabel {m : Cpu.Mnemonic} {name : String} :
    (toLabel m name).named = true ↔ isSymbol name.toList :=
  Iff.rfl

@[simp]
theorem named_onByte (m : Cpu.Mnemonic) (address : Int) : (onByte m address).named = true := rfl

@[simp]
theorem named_withValue (m : Cpu.Mnemonic) (value : Int) : (withValue m value).named = true := rfl

@[simp]
theorem named_plain (m : Cpu.Mnemonic) : (plain m).named = true := rfl

@[simp]
theorem named_empty : CodeLine.empty.named = true := rfl

@[simp]
theorem named_leaveCode (function : String) : (leaveCode function).named = true := rfl

theorem isSymbol_append {first second : List Char} (hfirst : isSymbol first = true)
    (hsecond : ∀ c ∈ second, isSymbolPart c = true) : isSymbol (first ++ second) = true := by
  cases first with
  | nil => simp [isSymbol] at hfirst
  | cons c cs =>
    simp only [isSymbol, Bool.and_eq_true, List.all_eq_true] at hfirst
    simp only [isSymbol, List.cons_append, List.all_append, Bool.and_eq_true, List.all_eq_true]
    exact ⟨hfirst.1, hfirst.2, hsecond⟩

theorem generatedLabel_symbol (stem : String) (n : Nat) (hstem : isSymbol stem.toList = true) :
    isSymbol (generatedLabel stem n).toList = true := by
  rw [generatedLabel_toList]
  apply isSymbol_append hstem
  intro c hc
  have hdigit : c.isDigit = true := Nat.isDigit_of_mem_toDigits (by decide) (by decide) hc
  simp [isSymbolPart, Char.isAlphanum, hdigit]

theorem Term.load_named (t : Term) : Named t.load := by
  cases t with
  | immediate value => exact named_cons.mpr ⟨rfl, named_nil⟩
  | byte address => exact named_cons.mpr ⟨rfl, named_nil⟩

theorem Address.access_named (a : Address) (m : Cpu.Mnemonic) : Named (a.access m) := by
  unfold access
  split
  · exact named_cons.mpr ⟨rfl, named_nil⟩
  · exact named_cons.mpr ⟨rfl, named_nil⟩
  · exact named_cons.mpr ⟨rfl, named_cons.mpr ⟨rfl, named_nil⟩⟩

theorem shiftCode_named (shift : Cpu.Mnemonic) (n : Nat) : Named (shiftCode shift n) := by
  have hagain := generatedLabel_symbol "CSHIFT" n (by decide)
  have hdone := generatedLabel_symbol "CSHIFTE" (n + 1) (by decide)
  simp [shiftCode, hagain, hdone]

theorem BinOp.code_named (op : BinOp) (n : Nat) : Named (op.code n).1 := by
  cases op with
  | shl => exact shiftCode_named .asl n
  | shr => exact shiftCode_named .lsr n
  | _ => simp [code]

theorem Expr.code_named (e : Expr) (n : Nat) : Named (e.code n).1 := by
  induction e generalizing n with
  | term t => exact t.load_named
  | memory a => exact a.access_named .lda
  | complement e ih => simp [code, ih]
  | binary op left right ihl ihr => simp [code, ihl, ihr, op.code_named]

theorem Comparison.code_named (op : Comparison) (n : Nat) {otherwise : String}
    (hotherwise : isSymbol otherwise.toList = true) : Named (op.code n otherwise).1 := by
  have hholds := generatedLabel_symbol "CCMPOK" n (by decide)
  cases op <;> simp [code, hotherwise, hholds]

theorem Condition.code_named (c : Condition) (n : Nat) {otherwise : String}
    (hotherwise : isSymbol otherwise.toList = true) : Named (c.code n otherwise).1 := by
  simp [code, c.left.code_named, c.right.code_named, c.op.code_named _ hotherwise]

theorem Statement.code_named {s : Statement} (hs : s.named = true) (function : String) (n : Nat) :
    Named (s.code function n).1 := by
  cases s with
  | leave => simp [code]
  | call name => simpa [code, named] using hs
  | increment address => simp [code]
  | decrement address => simp [code]
  | assign address value => simp [code, value.code_named]
  | store address value => simp [code, value.code_named, address.access_named]

theorem Flow.code_named {flow : Flow} (hflow : flow.named = true) (function : String) (n : Nat) :
    Named (flow.code function n).1 := by
  induction flow generalizing n with
  | skip => exact named_nil
  | act s => exact Statement.code_named hflow function n
  | seq first second ih ih' =>
    simp only [named, Bool.and_eq_true] at hflow
    simp [code, ih hflow.1, ih' hflow.2]
  | branch c yes no ih ih' =>
    simp only [named, Bool.and_eq_true] at hflow
    have hend := generatedLabel_symbol "CIFEND" n (by decide)
    have helse := generatedLabel_symbol "CIFELSE" (n + 1) (by decide)
    simp [code, c.code_named _ helse, ih hflow.1, ih' hflow.2, hend, helse]
  | loop kind c body ih =>
    have hstart : isSymbol (kind.startLabel n).toList = true := by
      cases kind <;> exact generatedLabel_symbol _ n (by decide)
    have hend : isSymbol (kind.endLabel (n + 1)).toList = true := by
      cases kind <;> exact generatedLabel_symbol _ (n + 1) (by decide)
    have htest : Named (testCode (n + 2) (kind.endLabel (n + 1)) c).1 := by
      cases c with
      | none => exact named_nil
      | some c => exact c.code_named _ hend
    simp [code, hstart, hend, htest, ih hflow]

theorem Function.code_named {f : Function} (hf : f.named = true) (n : Nat) :
    Named (f.code n).1 := by
  simp only [named, Bool.and_eq_true] at hf
  simp [code, hf.1, Flow.code_named hf.2]

theorem ofFunctions_named {fs : List Function} (hfs : ∀ f ∈ fs, f.named = true) :
    Named (Progress.ofFunctions fs).code := by
  induction fs using List.reverseRecOn with
  | nil => exact named_nil
  | append_singleton fs f ih =>
    rw [Progress.ofFunctions_concat]
    exact named_append.mpr ⟨ih fun g hg => hfs g (List.mem_append_left _ hg),
      Function.code_named (hfs f (by simp)) _⟩

theorem inContext_eq_ok {context : Context} {x : Except Failure α} {a : α}
    (h : inContext context x = .ok a) : x = .ok a := by
  unfold inContext at h
  split at h
  · simp at h
  · exact h

theorem readAssignment_named {scope : Scope} {left right : List Char} {s : Statement}
    (h : readAssignment scope left right = .ok s) : s.named = true := by
  unfold readAssignment at h
  obtain ⟨access, -, h⟩ := bind_eq_ok.mp h
  cases access with
  | some address =>
    obtain ⟨a, -, h⟩ := bind_eq_ok.mp h
    obtain ⟨value, -, h⟩ := bind_eq_ok.mp h
    obtain rfl := Except.ok.inj h
    rfl
  | none =>
    obtain ⟨_, -, h⟩ := bind_eq_ok.mp h
    obtain ⟨a, -, h⟩ := bind_eq_ok.mp h
    obtain ⟨value, -, h⟩ := bind_eq_ok.mp h
    obtain rfl := Except.ok.inj h
    rfl

theorem readStatement_named {scope : Scope} {text : List Char} {s : Statement}
    (h : readStatement scope text = .ok s) : s.named = true := by
  unfold readStatement at h
  simp only [pure_eq_ok] at h
  split at h
  · obtain rfl := Except.ok.inj h
    rfl
  split at h
  · obtain ⟨_, hname, h⟩ := bind_eq_ok.mp h
    obtain rfl := Except.ok.inj h
    simpa [Statement.named] using symbol_of_checkIdentifier (inContext_eq_ok hname)
  split at h
  · obtain ⟨a, -, h⟩ := bind_eq_ok.mp h
    obtain rfl := Except.ok.inj h
    rfl
  split at h
  · obtain ⟨a, -, h⟩ := bind_eq_ok.mp h
    obtain rfl := Except.ok.inj h
    rfl
  split at h
  · simp [fail] at h
  split at h
  · simp [fail] at h
  · exact readAssignment_named h

theorem Statement.ReadUnder.named {options : Options} {s : Statement} (h : s.ReadUnder options) :
    s.named = true := by
  cases h with
  | text hscope h => exact readStatement_named h
  | initial hscope haddress h => rfl

theorem Flow.ReadUnder.named {options : Options} {flow : Flow} (h : flow.ReadUnder options) :
    flow.named = true := by
  induction flow with
  | skip => rfl
  | act s => exact Statement.ReadUnder.named h
  | seq first second ih ih' => simp [Flow.named, ih h.1, ih' h.2]
  | branch c yes no ih ih' => simp [Flow.named, ih h.2.1, ih' h.2.2]
  | loop kind c body ih => exact ih h.2

theorem readFunctions_named {current : List String} {options : Options} {files : List SourceFile}
    {functions : List Function} (h : readFunctions current options files = .ok functions) :
    ∀ f ∈ functions, f.named = true := by
  intro f hf
  have hread := readFunctions_readUnder h f hf
  simp [Function.named, hread.name, hread.body.named]

end Toolchain6502.C
