import Toolchain6502.Proofs.Outcome
import Toolchain6502.Proofs.Text.WrittenText
import Toolchain6502.Source.Relocation

namespace Toolchain6502

open Files Text

namespace Assembly

inductive FaultKind where
  | malformed
  | undefinedSymbol
  | duplicateSymbol
  | addressingMode
  | branchRange
  | operandRange
  | directive
  | inclusion
deriving DecidableEq, Repr

def Fault.kind : Fault → FaultKind
  | .expectedInstruction _ | .unknownMnemonic _ | .invalidOperand _ => .malformed
  | .undefinedSymbol _ _ => .undefinedSymbol
  | .duplicateSymbol _ _ => .duplicateSymbol
  | .unsupportedMode _ _ => .addressingMode
  | .branchRange _ _ => .branchRange
  | .programTooLong | .zeroPageRange _ _ | .immediateRange _ _ | .displacementRange _ =>
    .operandRange
  | .expectedConstant | .constantRange _ | .invalidConstant _ | .unexpandedInclude
  | .unknownDirective _ => .directive
  | .cannotInclude _ _ => .inclusion

end Assembly

namespace Source

open Assembly

theorem isDecimalDigit_of_mem_toDigits {n : Nat} {c : Char} (hc : c ∈ Nat.toDigits 10 n) :
    isDecimalDigit c = true := by
  have hdigit : c.isDigit = true := Nat.isDigit_of_mem_toDigits (by decide) (by decide) hc
  rw [isDecimalDigit, decimalValue?_of_isDigit hdigit]
  rfl

theorem lineNumber?_toDigits (n : Nat) (rest : List Char) :
    lineNumber? (Nat.toDigits 10 n ++ (errorMark ++ rest)) = some (Nat.toDigits 10 n) := by
  have hspan : (Nat.toDigits 10 n ++ (errorMark ++ rest)).span isDecimalDigit =
      (Nat.toDigits 10 n, errorMark ++ rest) := by
    refine span_append (fun c hc => isDecimalDigit_of_mem_toDigits hc) ?_
    intro c hc
    obtain rfl : ':' = c := Option.some.inj hc
    decide
  have hmark : errorMark.isPrefixOf (errorMark ++ rest) = true := by simp
  cases hdigits : Nat.toDigits 10 n with
  | nil => exact absurd hdigits Nat.toDigits_ne_nil
  | cons c digits =>
    rw [hdigits] at hspan
    simp only [lineNumber?, hspan, hmark, if_true]

theorem findLineNumber?_append {file : List Char} (hfile : ':' ∉ file) (cs : List Char) :
    findLineNumber? (file ++ cs) = findLineNumber? cs := by
  induction file with
  | nil => rfl
  | cons c file ih =>
    rw [List.mem_cons, not_or] at hfile
    rw [List.cons_append, findLineNumber?, if_neg (Ne.symm hfile.1)]
    exact ih hfile.2

theorem toList_toText (file : String) (n : Nat) :
    ({ file, line := (n : Int) + 1 } : Location).toText.toList =
      file.toList ++ ':' :: Nat.toDigits 10 (n + 1) := by
  have hpositive : ¬ (n : Int) + 1 ≤ 0 := by omega
  have hline : toString ((n : Int) + 1) = String.ofList (Nat.toDigits 10 (n + 1)) :=
    Nat.toString_eq_ofList_toDigits
  have htext : ({ file, line := (n : Int) + 1 } : Location).toText =
      file ++ ":" ++ toString ((n : Int) + 1) := by
    unfold Location.toText
    rw [if_neg hpositive]
    rfl
  rw [htext, hline]
  simp

theorem toList_intercalate_cons (separator : String) (others : List String) :
    ∃ rest, ∀ head : String,
      (String.intercalate separator (head :: others)).toList = head.toList ++ rest := by
  cases others with
  | nil =>
    refine ⟨[], fun head => ?_⟩
    rw [String.intercalate_singleton, List.append_nil]
  | cons next others =>
    refine ⟨(separator ++ String.intercalate separator (next :: others)).toList, fun head => ?_⟩
    rw [String.intercalate_cons_of_ne_nil (List.cons_ne_nil next others), String.append_assoc,
      String.toList_append]

/-- The lines of a report below its first one, where no column is known. -/
def reportBelow (hint source : Option String) : List String :=
  (source.map fun line => "    " ++ trimmed line).toList ++
    match hint with
    | some h => if h = "" then [] else ["hint: " ++ h]
    | none => []

theorem report_of_line {l : Location} (hcolumn : l.column = 0) (message : String)
    (hint source : Option String) :
    report message (some l) hint source =
      String.intercalate "\n" ((l.toText ++ ": error: " ++ message) :: reportBelow hint source) := by
  cases source with
  | none => rfl
  | some line =>
    have hplain : sourceExcerpt l line = ["    " ++ trimmed line] := by
      rw [sourceExcerpt, hcolumn, if_neg (Int.lt_irrefl 0)]
    unfold report reportBelow
    simp only [hplain]
    rfl

/-- A report starts with its place and the mark, and what follows is the same at every place. -/
theorem toList_report (message : String) (hint source : Option String) :
    ∃ rest, ∀ l : Location, l.column = 0 → (report message (some l) hint source).toList =
      l.toText.toList ++ (errorMark ++ (message.toList ++ rest)) := by
  have hmark : (": error: " : String).toList = errorMark := rfl
  obtain ⟨rest, hrest⟩ := toList_intercalate_cons "\n" (reportBelow hint source)
  refine ⟨rest, fun l hcolumn => ?_⟩
  rw [report_of_line hcolumn, hrest, String.toList_append, String.toList_append, hmark,
    List.append_assoc, List.append_assoc]

/-- The number that the search finds in a report is the one of its line. -/
theorem findLineNumber?_report {file : String} (hfile : ':' ∉ file.toList) (n : Nat)
    (message : String) (hint source : Option String) :
    findLineNumber? (report message (some { file, line := (n : Int) + 1 }) hint source).toList =
      some (Nat.toDigits 10 (n + 1)) := by
  obtain ⟨rest, hrest⟩ := toList_report message hint source
  rw [hrest _ rfl, toList_toText, List.append_assoc, findLineNumber?_append hfile,
    List.cons_append, findLineNumber?, if_pos rfl, lineNumber?_toDigits]

/-- The line of a report is read back, if its number is short enough to be read at all. -/
theorem errorLine?_report {file : String} (hfile : ':' ∉ file.toList) {n : Nat}
    (hn : n + 1 < 10 ^ maxDecimalDigits) (message : String) (hint source : Option String) :
    errorLine? (report message (some { file, line := (n : Int) + 1 }) hint source) =
      .ok (some (n + 1)) := by
  simp only [errorLine?, findLineNumber?_report hfile, decimal_toDigits hn]
  rfl

theorem kind_relocateFault (current : List String) (origins : List Origin) (root : Option Path)
    (fault : Fault) : (relocateFault current origins root fault).kind = fault.kind := by
  unfold relocateFault
  split
  · split <;> rfl
  · rfl

theorem message_relocateFault (current : List String) (origins : List Origin) (root : Option Path)
    (fault : Fault) : (relocateFault current origins root fault).message = fault.message := by
  unfold relocateFault
  split
  · split <;> rfl
  · rfl

theorem relocate_of_errorLine {d : Diagnostic} {n : Nat}
    (hline : errorLine? d.render = .ok (some (n + 1))) {origins : List Origin} {o : Origin}
    (ho : origins[n]? = some o) (current : List String) (root : Option Path) :
    relocate current d origins root = .ok {
      d with
      fault := relocateFault current origins root d.fault
      location := some (o.locate current root) } := by
  simp [relocate, errorOrigin?, hline, ho]

end Source

end Toolchain6502
