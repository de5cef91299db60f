import Toolchain6502.Proofs.Assembly.SecondDefinitions
import Toolchain6502.Proofs.Assembly.UnvaluedNumerals
import Toolchain6502.Proofs.Source.MergedUnits
import Toolchain6502.Proofs.Source.ReportedLine

namespace Toolchain6502.Source

open Assembly Files Text

theorem errorMark_eq : errorMark = [':', ' ', 'e', 'r', 'r', 'o', 'r', ':', ' '] := by
  decide

theorem afterMark_append {head : List Char} (hhead : ':' ∉ head) (cs : List Char) :
    afterMark (head ++ cs) = afterMark cs := by
  induction head with
  | nil => rfl
  | cons c head ih =>
    rw [List.mem_cons, not_or] at hhead
    have hmark : errorMark.isPrefixOf (c :: (head ++ cs)) = false := by
      rw [errorMark_eq, List.isPrefixOf, beq_false_of_ne hhead.1, Bool.false_and]
    rw [List.cons_append, afterMark, hmark]
    exact ih hhead.2

theorem afterMark_place {file : String} (hfile : ':' ∉ file.toList) (n : Nat) (rest : List Char) :
    afterMark (({ file, line := (n : Int) + 1 } : Location).toText.toList ++
      (errorMark ++ rest)) = rest := by
  have hdigit {c : Char} (hc : c ∈ Nat.toDigits 10 (n + 1)) : c.isDigit = true :=
    Nat.isDigit_of_mem_toDigits (by decide) (by decide) hc
  have hcolon : ':' ∉ Nat.toDigits 10 (n + 1) := fun hmem => absurd (hdigit hmem) (by decide)
  have hblank : ' ' ∉ Nat.toDigits 10 (n + 1) := fun hmem => absurd (hdigit hmem) (by decide)
  -- The colon of the place is followed by a digit, so it opens no mark.
  have hopen : errorMark.isPrefixOf (':' :: (Nat.toDigits 10 (n + 1) ++ (errorMark ++ rest))) =
      false := by
    cases hdigits : Nat.toDigits 10 (n + 1) with
    | nil => exact absurd hdigits Nat.toDigits_ne_nil
    | cons c digits =>
      rw [hdigits, List.mem_cons, not_or] at hblank
      rw [errorMark_eq, List.cons_append, List.isPrefixOf, List.isPrefixOf,
        beq_false_of_ne hblank.1, Bool.false_and, Bool.and_false]
  have hmark : errorMark.isPrefixOf (errorMark ++ rest) = true := by simp
  have hdrop : afterMark (errorMark ++ rest) = (errorMark ++ rest).drop errorMark.length := by
    rw [errorMark_eq] at hmark ⊢
    rw [List.cons_append, afterMark, errorMark_eq]
    exact if_pos hmark
  rw [toList_toText, List.append_assoc, afterMark_append hfile, List.cons_append, afterMark, hopen,
    if_neg Bool.false_ne_true, afterMark_append hcolon, hdrop, List.drop_left]

theorem toText_locate {o : Origin} (hline : 1 ≤ o.line) (current : List String)
    (root : Option Path) :
    (o.locate current root).toText =
      (o.locate current root).file ++ ":" ++ toString (o.locate current root).line := by
  have hpositive : ¬(o.locate current root).line ≤ 0 := by
    change ¬o.line ≤ 0
    omega
  have hcolumn : ¬(o.locate current root).column > 0 := Int.lt_irrefl 0
  rw [Location.toText, if_neg hpositive, if_neg hcolumn]
  rfl

/-- Rewriting the head of a report gives the report at the new place. -/
theorem decorate_report {file : String} (hfile : ':' ∉ file.toList) {n : Nat}
    (hn : n + 1 < 10 ^ maxDecimalDigits) {origins : List Origin} {o : Origin}
    (ho : origins[n]? = some o) (hline : 1 ≤ o.line) (message : String)
    (hint source : Option String) (current : List String) (root : Option Path) :
    decorate current (report message (some { file, line := (n : Int) + 1 }) hint source) origins
      root = .ok (report message (some (o.locate current root)) hint source) := by
  obtain ⟨rest, hrest⟩ := toList_report message hint source
  have horigin : errorOrigin? (report message (some { file, line := (n : Int) + 1 }) hint source)
      origins = .ok (some o) := by
    simp [errorOrigin?, errorLine?_report hfile hn, ho]
  have htext : (report message (some (o.locate current root)) hint source) =
      (o.locate current root).toText ++ ": error: " ++ String.ofList (message.toList ++ rest) := by
    apply String.toList_inj.mp
    have hmark : (": error: " : String).toList = errorMark := rfl
    rw [hrest _ rfl, String.toList_append, String.toList_append, hmark, String.toList_ofList,
      List.append_assoc]
  unfold decorate
  rw [horigin, ok_bind, hrest _ rfl, afterMark_place hfile, htext, toText_locate hline]
  rfl

/-- A line number that is too long to be read stops the search for its origin. -/
theorem errorOrigin?_report_of_long {file : String} (hfile : ':' ∉ file.toList) {n : Nat}
    (hn : ¬n + 1 < 10 ^ maxDecimalDigits) (message : String) (hint source : Option String)
    (origins : List Origin) :
    ∃ e, errorOrigin? (report message (some { file, line := (n : Int) + 1 }) hint source) origins =
      .error e := by
  have hdigits : ∀ c ∈ Nat.toDigits 10 (n + 1), c.isDigit = true := fun c hc =>
    Nat.isDigit_of_mem_toDigits (by decide) (by decide) hc
  have hlong : maxDecimalDigits < leadingDecimals (Nat.toDigits 10 (n + 1)) := by
    rw [leadingDecimals_of_isDigit hdigits]
    apply Nat.lt_of_not_le
    rwa [Nat.length_toDigits_le_iff (by decide) (by decide)]
  have hfails := decimal_eq_error_iff.mpr (.tooLong hlong)
  refine ⟨.numeral (.tooLong (leadingDecimals (Nat.toDigits 10 (n + 1)))), ?_⟩
  simp only [errorOrigin?, errorLine?, findLineNumber?_report hfile, hfails]
  rfl

theorem report_hint {l : Location} (hcolumn : l.column = 0) (message : String) {h : String}
    (hh : h ≠ "") (source : Option String) :
    report message (some l) (some h) source =
      report message (some l) none source ++ "\n" ++ ("hint: " ++ h) := by
  have hjoin : reportBelow (some h) source = reportBelow none source ++ ["hint: " ++ h] := by
    simp [reportBelow, hh]
  rw [report_of_line hcolumn, report_of_line hcolumn, hjoin, ← List.cons_append,
    String.intercalate_append_of_ne_nil (List.cons_ne_nil _ _) (List.cons_ne_nil _ _),
    String.intercalate_singleton]

theorem relocateFault_of_none {fault : Fault} (h : fault.first? = none) (current : List String)
    (origins : List Origin) (root : Option Path) :
    relocateFault current origins root fault = fault := by
  cases fault with
  | duplicateSymbol name place => simp [Fault.first?] at h
  | _ => rfl

theorem relocateFault_of_first {fault : Fault} {first : Location} (h : fault.first? = some first)
    {text : String} {origins : List Origin} {o : Origin}
    (ho : (Traced.mk text origins).originOf? first.line = some o) (current : List String)
    (root : Option Path) :
    ∃ name, fault = .duplicateSymbol name first ∧
      relocateFault current origins root fault =
        .duplicateSymbol name (o.locate current root) := by
  obtain ⟨name, rfl⟩ := Fault.eq_of_first? h
  refine ⟨name, rfl, ?_⟩
  have horigin : (Traced.mk "" origins).originOf? first.line = some o := ho
  simp only [relocateFault, horigin]

/-- A duplicate is rendered alike with two first places just when the two read alike. -/
theorem render_duplicate_iff {l : Location} (hcolumn : l.column = 0) (name : String)
    (first other : Location) (source : Option String) :
    Diagnostic.render ⟨.duplicateSymbol name first, some l, source⟩ =
      Diagnostic.render ⟨.duplicateSymbol name other, some l, source⟩ ↔
      first.toText = other.toText := by
  let lead := "'" ++ name ++ "' was first defined at "
  have hlead (place : Location) : lead ++ place.toText ≠ "" := by simp [lead]
  have hrender (place : Location) :
      Diagnostic.render ⟨.duplicateSymbol name place, some l, source⟩ =
        report (Fault.duplicateSymbol name first).message (some l) none source ++ "\n" ++
          ("hint: " ++ (lead ++ place.toText)) :=
    report_hint hcolumn _ (hlead place) source
  rw [hrender first, hrender other, String.append_right_inj, String.append_right_inj,
    String.append_right_inj]

/-- Both ways move a report on a text to the authored line. They agree just when the report names
no second place, or that place reads the same in the text and where it was written. -/
theorem decorate_agrees_iff {origin : Int} {text : String} {d : Diagnostic}
    (hfail : assembleSource origin text = .error (.assembly d)) {origins : List Origin}
    (hlines : ∀ o ∈ origins, 1 ≤ o.line)
    (hcovers : ∀ place, d.location = some place → place.line ≤ origins.length)
    (current : List String) (root : Option Path) :
    ∃ (k : Nat) (o : Origin), d.location = some { file := mergedName, line := (k : Int) + 1 } ∧
      origins[k]? = some o ∧
      (decorate current d.render origins root =
          (relocate current d origins root).map Diagnostic.render ↔
        (k + 1 < 10 ^ maxDecimalDigits → ∀ first, d.fault.first? = some first →
          ∃ o', (Traced.mk text origins).originOf? first.line = some o' ∧
            (o'.locate current root).toText = first.toText)) ∧
      (k + 1 < 10 ^ maxDecimalDigits →
        ∃ moved, relocate current d origins root = .ok moved ∧
          moved.location = some (o.locate current root) ∧
          (∀ first, moved.fault.first? = some first →
            ∃ o' ∈ origins, first = o'.locate current root) ∧
          decorate current d.render origins root =
            .ok (Diagnostic.render { moved with fault := d.fault })) := by
  obtain ⟨⟨s, hs⟩, -⟩ := assembleSource_eq_fault hfail
  obtain ⟨k, line, -, hlocation, -⟩ := Session.assembleText_eq_fault hs
  have hk : k < origins.length := by
    have := hcovers _ hlocation
    simp only at this
    omega
  obtain ⟨o, ho⟩ : ∃ o, origins[k]? = some o := ⟨_, List.getElem?_eq_getElem hk⟩
  have hline : 1 ≤ o.line := hlines o (List.mem_of_getElem? ho)
  have hmerged : ':' ∉ mergedName.toList := by decide
  refine ⟨k, o, hlocation, ho, ?_⟩
  by_cases hshort : k + 1 < 10 ^ maxDecimalDigits
  · have hreads : errorLine? d.render = .ok (some (k + 1)) := by
      rw [Diagnostic.render, hlocation]
      exact errorLine?_report hmerged hshort _ _ _
    have hmoved := relocate_of_errorLine hreads ho current root
    have hdecorated : decorate current d.render origins root =
        .ok (Diagnostic.render { d with location := some (o.locate current root) }) := by
      rw [Diagnostic.render, hlocation]
      exact decorate_report hmerged hshort ho hline _ _ _ current root
    rw [hmoved, hdecorated]
    cases hfirst : d.fault.first? with
    | none =>
      rw [relocateFault_of_none hfirst]
      exact ⟨iff_of_true rfl (by simp), fun _ => ⟨_, rfl, rfl, by simp [hfirst], rfl⟩⟩
    | some first =>
      obtain ⟨j, hj, rfl⟩ := assembleSource_eq_repeated hfail hfirst hlocation
      obtain ⟨o', ho'⟩ : ∃ o', origins[j]? = some o' :=
        ⟨_, List.getElem?_eq_getElem (Nat.lt_of_le_of_lt hj hk)⟩
      have horigin : (Traced.mk text origins).originOf? ((j : Int) + 1) = some o' := by
        rw [Traced.originOf?_succ]
        exact ho'
      obtain ⟨name, hfault, hother⟩ := relocateFault_of_first hfirst horigin current root
      rw [hother]
      refine ⟨?_, fun _ => ⟨_, rfl, rfl, ?_, rfl⟩⟩
      · simp only [hfault, Except.map, Except.ok.injEq, hshort, true_implies, Option.some.injEq,
          forall_eq', horigin, exists_eq_left']
        rw [render_duplicate_iff rfl, eq_comm]
      · intro place hplace
        exact ⟨o', List.mem_of_getElem? ho', (Option.some.inj hplace).symm⟩
  · obtain ⟨e, he⟩ : ∃ e, errorOrigin? d.render origins = .error e := by
      rw [Diagnostic.render, hlocation]
      exact errorOrigin?_report_of_long hmerged hshort _ _ _ origins
    refine ⟨iff_of_true ?_ (fun h => absurd h hshort), fun h => absurd h hshort⟩
    rw [decorate, relocate, he]
    rfl

def twoLines : List Origin := [⟨Path.ofText "/w/main.asm", 1⟩, ⟨Path.ofText "/w/main.asm", 2⟩]

/-- A report that names one place is moved alike. -/
theorem misspeltLine_decorated :
    ∃ d, assembleSource 0x200 "NOP\nXYZ\n" = .error (.assembly d) ∧
      (∀ o ∈ twoLines, 1 ≤ o.line) ∧ d.location = some { file := mergedName, line := 2 } ∧
      decorate ["w"] d.render twoLines (some (Path.ofText ".")) =
        (relocate ["w"] d twoLines (some (Path.ofText "."))).map Diagnostic.render := by
  have hfail : assembleSource 0x200 "NOP\nXYZ\n" = .error (.assembly
      ⟨.unknownMnemonic "XYZ", some { file := mergedName, line := 2 }, some "XYZ"⟩) := by
    simp only [assembleSource, Session.assembleText_eq, assemble_eq]
    rfl
  have hlines : ∀ o ∈ twoLines, 1 ≤ o.line := by decide
  obtain ⟨k, o, -, -, hagree, -⟩ := decorate_agrees_iff hfail hlines
    (by rintro place ⟨⟩; decide) ["w"] (some (Path.ofText "."))
  exact ⟨_, hfail, hlines, rfl, hagree.mpr (fun _ first hfirst => by simp [Fault.first?] at hfirst)⟩

/-- The report on a second definition keeps a line of the text, if only its head is rewritten. -/
theorem secondLoop_decorated :
    ∃ d, assembleSource 0x200 "Loop:\nLoop:\n" = .error (.assembly d) ∧
      decorate ["w"] d.render twoLines (some (Path.ofText ".")) =
        .ok ("main.asm:2: error: duplicate symbol 'Loop'\n    Loop:\n" ++
          "hint: 'Loop' was first defined at <merged>:1") ∧
      (relocate ["w"] d twoLines (some (Path.ofText "."))).map Diagnostic.render =
        .ok ("main.asm:2: error: duplicate symbol 'Loop'\n    Loop:\n" ++
          "hint: 'Loop' was first defined at main.asm:1") := by
  refine ⟨⟨.duplicateSymbol "Loop" { file := mergedName, line := 1 },
    some { file := mergedName, line := 2 }, some "Loop:"⟩, ?_,
    eq_ok_of_toOption (by decide +kernel), eq_ok_of_toOption (by decide +kernel)⟩
  simp only [assembleSource, Session.assembleText_eq, assemble_eq]
  rfl

end Toolchain6502.Source
