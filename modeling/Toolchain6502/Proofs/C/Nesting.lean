import Toolchain6502.Proofs.C.Attribution
import Toolchain6502.Proofs.Text.Trimming

namespace Toolchain6502.C

open Files Source Text

variable {line rest text : List Char} {d : Declaration} {name : String} {location : Location}

theorem getLast?_of_declaration? (h : declaration? line = .ok (some d)) :
    (trim line).getLast? = some ';' := by
  unfold declaration? at h
  split at h
  · simp at h
  · rename_i rest hrest
    split at h
    · simp [fail] at h
    · rename_i body hbody
      obtain ⟨type, -, htype⟩ := List.exists_of_findSome?_eq_some hrest
      rw [← List.isPrefixOf?_eq_some_iff_append_eq.mp htype, dropEnd?_eq_some.mp hbody,
        ← List.append_assoc, List.getLast?_append_of_ne_nil _ (List.cons_ne_nil _ _)]
      rfl

theorem headerBody_eq_ok {faults : HeaderFaults} {body : List Char}
    (h : headerBody faults rest = .ok body) :
    ∃ inside after, rest = inside ++ ')' :: after ∧ trim after = ['\x7b'] := by
  unfold headerBody at h
  split at h
  · simp [fail] at h
  split at h
  · simp [fail] at h
  rename_i inside after hcut
  split at h
  · simp [fail] at h
  · rename_i hbrace
    exact ⟨inside, after, eq_of_cutLast?_eq_some hcut, not_not.mp hbrace⟩

theorem afterKeyword?_eq_some {keyword : String} (h : afterKeyword? keyword line = some rest) :
    ∃ before, trim line = before ++ rest := by
  unfold afterKeyword? at h
  split at h
  · simp at h
  · rename_i hword
    obtain rfl := Option.some.inj h
    exact ⟨keyword.toList, (List.isPrefixOf?_eq_some_iff_append_eq.mp hword).symm⟩
  · rename_i c cs hword
    split at h
    · simp at h
    · obtain rfl := Option.some.inj h
      obtain ⟨blanks, -, hblanks⟩ := exists_trimLeft_eq (c :: cs)
      refine ⟨keyword.toList ++ blanks, ?_⟩
      rw [List.append_assoc, ← hblanks, List.isPrefixOf?_eq_some_iff_append_eq.mp hword]

/-- A block header ends with the brace that it opens. -/
theorem getLast?_of_header {keyword : String} {body : List Char} {faults : HeaderFaults}
    (hword : afterKeyword? keyword line = some rest) (hbody : headerBody faults rest = .ok body) :
    (trim line).getLast? = some '\x7b' := by
  obtain ⟨before, hline⟩ := afterKeyword?_eq_some hword
  obtain ⟨inside, after, rfl, hafter⟩ := headerBody_eq_ok hbody
  have hsplit : trim line = (before ++ inside ++ [')']) ++ after := by simp [hline]
  rw [(trimmed_trim line).getLast?_eq hsplit (by simp [hafter]), hafter]
  rfl

theorem getLast?_of_conditionStart? {keyword : String} {c : String}
    (h : conditionStart? keyword line = .ok (some c)) : (trim line).getLast? = some '\x7b' := by
  unfold conditionStart? at h
  split at h
  · simp at h
  · rename_i rest hrest
    obtain ⟨body, hbody, -⟩ := bind_eq_ok.mp h
    exact getLast?_of_header hrest hbody

theorem getLast?_of_loopStart? {header : LoopHeader} (h : loopStart? line = .ok (some header)) :
    (trim line).getLast? = some '\x7b' := by
  unfold loopStart? at h
  split at h
  · simp at h
  · rename_i rest hrest
    obtain ⟨body, hbody, -⟩ := bind_eq_ok.mp h
    exact getLast?_of_header hrest hbody

theorem getLast?_of_isElse (h : isElse line = true) : (trim line).getLast? = some '\x7b' := by
  simp only [isElse, List.contains_iff_mem, List.mem_cons, List.not_mem_nil, or_false] at h
  rcases h with h | h <;> rw [h] <;> decide

theorem getLast?_of_isExternal (h : isExternal line = .ok true) :
    (trim line).getLast? = some ';' := by
  unfold isExternal at h
  simp only at h
  split at h
  · simp at h
  · split at h
    · assumption
    · simp [fail] at h

theorem getLast?_of_splitHead? {name after : List Char} (hvoid : afterVoid? line = some rest)
    (hhead : splitHead? rest = some (name, after)) (hne : after ≠ []) :
    (trim line).getLast? = after.getLast? := by
  obtain ⟨⟨front, back⟩, hcut, hsplit⟩ := Option.map_eq_some_iff.mp hhead
  obtain ⟨-, rfl⟩ := Prod.mk.inj hsplit
  have hsplit : trim line = ("void ".toList ++ front) ++ '(' :: back := by
    rw [← List.isPrefixOf?_eq_some_iff_append_eq.mp hvoid, eq_of_cut?_eq_some hcut]
    simp
  exact (trimmed_trim line).getLast?_eq hsplit hne

theorem getLast?_of_prototype? (h : prototype? line = .ok (some name)) :
    (trim line).getLast? = some ')' ∨ (trim line).getLast? = some ';' := by
  unfold prototype? at h
  split at h
  · simp at h
  · rename_i found after hfound
    obtain ⟨rest, hvoid, hhead⟩ := Option.bind_eq_some_iff.mp hfound
    obtain ⟨_, -, h⟩ := bind_eq_ok.mp h
    split at h
    · rename_i hafter
      simp only [List.contains_iff_mem, List.mem_cons, List.not_mem_nil, or_false] at hafter
      rcases hafter with rfl | rfl
      · exact .inl (getLast?_of_splitHead? hvoid hhead (by decide))
      · exact .inr (getLast?_of_splitHead? hvoid hhead (by decide))
    · simp at h

theorem getLast?_of_functionStart? (h : functionStart? line = .ok (some name)) :
    (trim line).getLast? = some '\x7b' := by
  unfold functionStart? at h
  split at h
  · simp at h
  · rename_i rest hvoid
    split at h
    · simp [fail] at h
    · rename_i found after hhead
      obtain ⟨_, -, h⟩ := bind_eq_ok.mp h
      split at h
      · rename_i hafter
        simp only [List.contains_iff_mem, List.mem_cons, List.not_mem_nil, or_false] at hafter
        rcases hafter with rfl | rfl <;> exact getLast?_of_splitHead? hvoid hhead (by decide)
      · simp [fail] at h

theorem getLast?_of_readStatement {scope : Scope} {s : Statement}
    (h : readStatement scope line = .ok s) : (trim line).getLast? = some ';' := by
  have hending {ending body : List Char} (hne : ending ≠ [])
      (hdrop : dropEnd? ending (trim line) = some body) :
      (trim line).getLast? = ending.getLast? := by
    rw [dropEnd?_eq_some.mp hdrop, List.getLast?_append_of_ne_nil _ hne]
  unfold readStatement at h
  simp only [pure_eq_ok] at h
  split at h
  · rename_i hreturn
    rw [hreturn]
    decide
  split at h
  · rename_i name hcall
    obtain ⟨body, hbody, -⟩ := Option.map_eq_some_iff.mp hcall
    exact hending (by decide) hbody
  split at h
  · rename_i name hdrop
    exact hending (by decide) hdrop
  split at h
  · rename_i name hdrop
    exact hending (by decide) hdrop
  split at h
  · simp [fail] at h
  · rename_i left right hcut
    split at h
    · simp [fail] at h
    · rename_i value hdrop
      have hright := dropEnd?_eq_some.mp hdrop
      rw [(trimmed_trim line).getLast?_eq (eq_of_cut?_eq_some hcut) (by simp [hright]), hright,
        List.getLast?_append_of_ne_nil _ (List.cons_ne_nil _ _)]
      rfl

theorem trim_of_mem_sourceLines {text : String} {line : SourceLine}
    (h : line ∈ sourceLines text) : trim line.text = line.text := by
  obtain ⟨⟨source, i⟩, -, hline⟩ := List.mem_filterMap.mp h
  unfold sourceLine? at hline
  simp only at hline
  split at hline
  · simp at hline
  · obtain rfl := Option.some.inj hline
    exact trim_trim _

/-- All that a line inside a function can do to the blocks, told by its text. -/
inductive Pass.Nests (text : List Char) (p p' : Pass) : Prop
  | stays (hend : text.getLast? = some ';') (hfunction : p'.function = p.function)
      (hblocks : p'.blocks = p.blocks)
  | opens (hend : text.getLast? = some '\x7b') (hfunction : p'.function = p.function) {b : Block}
      (hblocks : p'.blocks = b :: p.blocks)
  | closes (htext : text = ['\x7d']) (hfunction : p'.function = p.function) {b : Block}
      (hblocks : p.blocks = b :: p'.blocks)
  | ends (htext : text = ['\x7d']) (hfunction : p'.function = none) (hblocks : p.blocks = [])
      (hnone : p'.blocks = [])

namespace Pass

variable {p p' : Pass} {function : String} {text : List Char}

theorem statement_nests (htext : trim text = text) (h : p.statement function text = .ok p') :
    p.Nests text p' := by
  obtain ⟨s, hs, h⟩ := bind_eq_ok.mp h
  obtain rfl := generate_eq_ok h
  exact .stays (htext ▸ getLast?_of_readStatement hs) rfl rfl

theorem part_keeps {part : Option String} (h : p.part function part = .ok p') :
    p'.function = p.function ∧ p'.blocks = p.blocks := by
  cases part with
  | none =>
    obtain rfl := Except.ok.inj h
    exact ⟨rfl, rfl⟩
  | some text =>
    obtain ⟨s, -, h⟩ := bind_eq_ok.mp h
    obtain rfl := generate_eq_ok h
    exact ⟨rfl, rfl⟩

theorem declareLocal_keeps (h : p.declareLocal d location = .ok p') :
    p'.function = p.function ∧ p'.blocks = p.blocks := by
  obtain ⟨-, v, allocation, -, ⟨-, rfl⟩ | ⟨text, value, -, -, h⟩⟩ := declareLocal_eq_ok h
  · exact ⟨rfl, rfl⟩
  · obtain rfl := generate_eq_ok h
    exact ⟨rfl, rfl⟩

theorem openIf_blocks {c : String} (h : p.openIf c = .ok p') :
    p'.function = p.function ∧ ∃ b, p'.blocks = b :: p.blocks := by
  obtain ⟨q, hq, h⟩ := bind_eq_ok.mp h
  obtain ⟨c, -, rfl⟩ := condition_eq_ok hq
  obtain rfl := Except.ok.inj h
  exact ⟨rfl, _, rfl⟩

theorem openWhile_blocks {c : String} (h : p.openWhile c = .ok p') :
    p'.function = p.function ∧ ∃ b, p'.blocks = b :: p.blocks := by
  obtain ⟨q, hq, h⟩ := bind_eq_ok.mp h
  obtain ⟨c, -, rfl⟩ := condition_eq_ok hq
  obtain rfl := Except.ok.inj h
  exact ⟨rfl, _, rfl⟩

theorem openFor_blocks {header : LoopHeader} (h : p.openFor function header = .ok p') :
    p'.function = p.function ∧ ∃ b, p'.blocks = b :: p.blocks := by
  obtain ⟨q, c, hq, hkeeps, -, hprogress⟩ := openFor_eq_ok h
  obtain ⟨hfunction, hblocks⟩ := part_keeps hq
  have hopened : p'.blocks = _ :: q.blocks := congrArg Progress.blocks hprogress
  exact ⟨hkeeps.function.trans hfunction, _, hblocks ▸ hopened⟩

theorem close_nests (htext : text = ['\x7d']) (h : p.close function = .ok p') :
    p.Nests text p' := by
  unfold close at h
  cases hblocks : p.blocks with
  | nil =>
    rw [hblocks] at h
    obtain rfl := Except.ok.inj h
    exact .ends htext rfl hblocks hblocks
  | cons b blocks =>
    rw [hblocks] at h
    cases b with
    | thenPart elseLabel endLabel =>
      obtain rfl := Except.ok.inj h
      exact .closes htext rfl hblocks
    | elsePart endLabel =>
      obtain rfl := Except.ok.inj h
      exact .closes htext rfl hblocks
    | whileLoop startLabel endLabel =>
      obtain rfl := Except.ok.inj h
      exact .closes htext rfl hblocks
    | forLoop startLabel endLabel step =>
      obtain ⟨q, hq, h⟩ : ∃ q, { p with blocks }.part function step = .ok q ∧
          q.emit [toLabel .jmp startLabel, .label endLabel] = p' := by
        cases step with
        | none => exact ⟨_, rfl, Except.ok.inj h⟩
        | some text =>
          obtain ⟨q, hq, h⟩ := bind_eq_ok.mp h
          exact ⟨q, hq, Except.ok.inj h⟩
      obtain ⟨hfunction, hkept⟩ := part_keeps hq
      subst h
      exact .closes htext hfunction (hblocks.trans (congrArg (_ :: ·) hkept.symm))

theorem bodyLine_nests (htext : trim text = text) (h : p.bodyLine function text location = .ok p') :
    p.Nests text p' := by
  unfold bodyLine at h
  obtain ⟨d, hd, h⟩ := bind_eq_ok.mp h
  cases d with
  | some d =>
    obtain ⟨hfunction, hblocks⟩ := declareLocal_keeps h
    exact .stays (htext ▸ getLast?_of_declaration? hd) hfunction hblocks
  | none =>
  obtain ⟨c, hc, h⟩ := bind_eq_ok.mp h
  cases c with
  | some c =>
    obtain ⟨hfunction, b, hblocks⟩ := openIf_blocks h
    exact .opens (htext ▸ getLast?_of_conditionStart? hc) hfunction hblocks
  | none =>
  obtain ⟨c, hc, h⟩ := bind_eq_ok.mp h
  cases c with
  | some c =>
    obtain ⟨hfunction, b, hblocks⟩ := openWhile_blocks h
    exact .opens (htext ▸ getLast?_of_conditionStart? hc) hfunction hblocks
  | none =>
  obtain ⟨header, hheader, h⟩ := bind_eq_ok.mp h
  cases header with
  | some header =>
    obtain ⟨hfunction, b, hblocks⟩ := openFor_blocks h
    exact .opens (htext ▸ getLast?_of_loopStart? hheader) hfunction hblocks
  | none =>
  simp only at h
  split at h
  · exact close_nests ‹_› h
  · exact statement_nests htext h

theorem innerLine_nests (htext : trim text = text) (h : p.innerLine function text location = .ok p') :
    p.Nests text p' := by
  unfold innerLine at h
  split at h
  · exact bodyLine_nests htext h
  · split at h
    · rename_i helse
      obtain rfl := Except.ok.inj h
      exact .opens (htext ▸ getLast?_of_isElse helse) rfl rfl
    · -- the end of an `if` that waited for this line is written first, and changes no block
      cases bodyLine_nests htext h with
      | stays hend hfunction hblocks => exact .stays hend hfunction hblocks
      | opens hend hfunction hblocks => exact .opens hend hfunction hblocks
      | closes htext hfunction hblocks => exact .closes htext hfunction hblocks
      | ends htext hfunction hblocks hnone => exact .ends htext hfunction hblocks hnone

end Pass

def globalAt? (text : List Char) : Option Declaration := (declaration? text).toOption.join

def functionAt? (text : List Char) : Option String := (functionStart? text).toOption.join

theorem head?_of_afterVoid? (h : afterVoid? text = some rest) : (trim text).head? = some 'v' := by
  rw [← List.isPrefixOf?_eq_some_iff_append_eq.mp h]
  rfl

theorem head?_of_declaration? (h : declaration? text = .ok (some d)) :
    (trim text).head? = some 'u' ∨ (trim text).head? = some 's' := by
  unfold declaration? at h
  split at h
  · simp at h
  · rename_i rest hrest
    obtain ⟨type, htype, hprefix⟩ := List.exists_of_findSome?_eq_some hrest
    rw [← List.isPrefixOf?_eq_some_iff_append_eq.mp hprefix]
    simp only [List.mem_cons, List.not_mem_nil, or_false] at htype
    rcases htype with rfl | rfl
    · exact .inl rfl
    · exact .inr rfl

theorem head?_of_isExternal (h : isExternal text = .ok true) : (trim text).head? = some 'e' := by
  unfold isExternal at h
  simp only at h
  split at h
  · simp at h
  · rename_i hprefix
    simp only [Bool.not_eq_eq_eq_not, Bool.not_true, Bool.not_eq_false, List.isPrefixOf_iff_prefix]
      at hprefix
    obtain ⟨rest, hrest⟩ := hprefix
    rw [← hrest]
    rfl

theorem exists_afterVoid?_of_functionAt? (h : functionAt? text = some name) :
    ∃ rest, afterVoid? text = some rest := by
  cases hvoid : afterVoid? text with
  | some rest => exact ⟨rest, rfl⟩
  | none => simp [functionAt?, functionStart?, hvoid, Except.toOption] at h

theorem globalAt?_eq_some : globalAt? text = some d ↔ declaration? text = .ok (some d) := by
  cases h : declaration? text <;> simp [globalAt?, h, Except.toOption]

theorem functionAt?_of_prototype? (h : prototype? text = .ok (some name)) :
    functionAt? text = none := by
  unfold prototype? at h
  cases hvoid : afterVoid? text with
  | none => simp [hvoid] at h
  | some rest =>
    cases hhead : splitHead? rest with
    | none => simp [hvoid, hhead] at h
    | some r =>
      obtain ⟨found, after⟩ := r
      simp only [hvoid, Option.bind_some, hhead] at h
      obtain ⟨_, hname, h⟩ := bind_eq_ok.mp h
      split at h
      · rename_i hafter
        simp only [List.contains_iff_mem, List.mem_cons, List.not_mem_nil, or_false] at hafter
        have hbody : ["() \x7b".toList, "()\x7b".toList].contains after = false := by
          rcases hafter with rfl | rfl <;> decide
        simp only [functionAt?, functionStart?, hvoid, hhead, hname, ok_bind, hbody,
          Bool.false_eq_true, if_false]
        rfl
      · simp at h

theorem globalAt?_of_head? {c : Char} (h : (trim text).head? = some c) (hu : c ≠ 'u') (hs : c ≠ 's') :
    globalAt? text = none := by
  cases hglobal : globalAt? text with
  | none => rfl
  | some d =>
    have hhead := head?_of_declaration? (globalAt?_eq_some.mp hglobal)
    rw [h] at hhead
    simp [hu, hs] at hhead

theorem functionAt?_of_head? {c : Char} (h : (trim text).head? = some c) (hv : c ≠ 'v') :
    functionAt? text = none := by
  cases hfunction : functionAt? text with
  | none => rfl
  | some name =>
    obtain ⟨rest, hrest⟩ := exists_afterVoid?_of_functionAt? hfunction
    rw [head?_of_afterVoid? hrest] at h
    exact absurd (Option.some.inj h).symm hv

theorem globalAt?_of_prototype? (h : prototype? text = .ok (some name)) :
    globalAt? text = none := by
  cases hvoid : afterVoid? text with
  | none => simp [prototype?, hvoid] at h
  | some rest => exact globalAt?_of_head? (head?_of_afterVoid? hvoid) (by decide) (by decide)

theorem functionAt?_of_globalAt? (h : globalAt? text = some d) : functionAt? text = none := by
  rcases head?_of_declaration? (globalAt?_eq_some.mp h) with hhead | hhead
  · exact functionAt?_of_head? hhead (by decide)
  · exact functionAt?_of_head? hhead (by decide)

/-- Outside functions a line changes nothing and opens no function, or it opens one. -/
theorem Pass.topLine_kind {p p' : Pass} {line : SourceLine} (h : p.topLine line location = .ok p') :
    p' = p ∧ functionAt? line.text = none ∨
      ∃ name, functionAt? line.text = some name ∧ p.openFunction name location = .ok p' := by
  cases topLine_reads h with
  | global hd => exact .inl ⟨rfl, functionAt?_of_globalAt? (globalAt?_eq_some.mpr hd)⟩
  | external hexternal =>
    exact .inl ⟨rfl, functionAt?_of_head? (head?_of_isExternal hexternal) (by decide)⟩
  | prototype hprototype => exact .inl ⟨rfl, functionAt?_of_prototype? hprototype⟩
  | function hstart hopen => exact .inr ⟨_, by simp [functionAt?, hstart, Except.toOption], hopen⟩

/-- What the same line is to the pass that places globals. -/
inductive Allocation.TopLine (current : List String) (path : Path) (line : SourceLine)
    (location : Location) (a : Allocation) : Nat → Allocation → Prop
  | global {d : Declaration} {a' : Allocation} (hglobal : globalAt? line.text = some d)
      (ha : a.addGlobal current path line location d = .ok a') :
      TopLine current path line location a 0 a'
  | function {name : String} (hglobal : globalAt? line.text = none)
      (hfunction : functionAt? line.text = some name) :
      TopLine current path line location a 1 { a with declared := a.declared ++ [name] }
  | nothing (hglobal : globalAt? line.text = none) (hfunction : functionAt? line.text = none) :
      TopLine current path line location a 0 a

theorem Allocation.topLine_kind {current : List String} {path : Path} {line : SourceLine}
    {a a' : Allocation} {depth : Nat} (h : a.topLine current path line location = .ok (depth, a')) :
    TopLine current path line location a depth a' := by
  unfold topLine at h
  obtain ⟨prototype, hprototype, h⟩ := bind_eq_ok.mp h
  cases prototype with
  | some name =>
    obtain ⟨rfl, rfl⟩ := Prod.mk.inj (Except.ok.inj h)
    exact .nothing (globalAt?_of_prototype? hprototype) (functionAt?_of_prototype? hprototype)
  | none =>
  simp only [Option.isSome_none, Bool.false_eq_true, if_false] at h
  obtain ⟨external, hexternal, h⟩ := bind_eq_ok.mp h
  cases external with
  | true =>
    obtain ⟨rfl, rfl⟩ := Prod.mk.inj (Except.ok.inj h)
    have hhead := head?_of_isExternal hexternal
    exact .nothing (globalAt?_of_head? hhead (by decide) (by decide))
      (functionAt?_of_head? hhead (by decide))
  | false =>
  simp only [Bool.false_eq_true, if_false] at h
  obtain ⟨start, hstart, h⟩ := bind_eq_ok.mp h
  have hfunction : functionAt? line.text = start := by simp [functionAt?, hstart, Except.toOption]
  cases start with
  | some name =>
    obtain ⟨rfl, rfl⟩ := Prod.mk.inj (Except.ok.inj h)
    obtain ⟨rest, hrest⟩ := exists_afterVoid?_of_functionAt? hfunction
    exact .function (globalAt?_of_head? (head?_of_afterVoid? hrest) (by decide) (by decide))
      hfunction
  | none =>
  obtain ⟨d, hd, h⟩ := bind_eq_ok.mp h
  have hglobal : globalAt? line.text = d := by simp [globalAt?, hd, Except.toOption]
  cases d with
  | none =>
    obtain ⟨rfl, rfl⟩ := Prod.mk.inj (Except.ok.inj h)
    exact .nothing hglobal hfunction
  | some d =>
    obtain ⟨b, hb, h⟩ := bind_eq_ok.mp h
    obtain ⟨rfl, rfl⟩ := Prod.mk.inj (Except.ok.inj h)
    exact .global hglobal hb

end Toolchain6502.C
