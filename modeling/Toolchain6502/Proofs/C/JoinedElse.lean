import Toolchain6502.Proofs.C.CompiledCode
import Toolchain6502.Proofs.C.Passes

namespace Toolchain6502.C

open Files Source Text

/-- A closing brace, and behind it an `else` that opens its block. -/
def JoinedElse (text : List Char) : Prop := ∃ rest, text = '\x7d' :: rest ∧ isElse rest = true

theorem isElse_iff {text : List Char} :
    isElse text = true ↔ trim text = ['e', 'l', 's', 'e', ' ', '\x7b'] ∨
      trim text = ['e', 'l', 's', 'e', '\x7b'] := by
  simp only [isElse, List.contains_iff_mem, List.mem_cons, List.not_mem_nil, or_false]
  rfl

theorem isPrefixOf?_of_head? {word text : List Char} {c : Char} (h : text.head? = some c)
    (hword : word ≠ []) (hc : word.head? ≠ some c) : word.isPrefixOf? text = none := by
  cases hfound : word.isPrefixOf? text with
  | none => rfl
  | some rest =>
    rw [← List.isPrefixOf?_eq_some_iff_append_eq.mp hfound,
      List.head?_append_of_ne_nil _ hword] at h
    exact absurd h hc

theorem dropEnd?_of_getLast? {ending text : List Char} {c : Char} (h : text.getLast? = some c)
    (hending : ending ≠ []) (hc : ending.getLast? ≠ some c) : dropEnd? ending text = none := by
  cases hfound : dropEnd? ending text with
  | none => rfl
  | some body =>
    rw [dropEnd?_eq_some.mp hfound, List.getLast?_append_of_ne_nil _ hending] at h
    exact absurd h hc

namespace JoinedElse

variable {text : List Char}

theorem head? (h : JoinedElse text) : text.head? = some '\x7d' := by
  obtain ⟨rest, rfl, -⟩ := h
  rfl

theorem getLast? (h : JoinedElse text) (htext : trim text = text) :
    text.getLast? = some '\x7b' := by
  obtain ⟨rest, rfl, helse⟩ := h
  have hne : trim rest ≠ [] := by
    rcases isElse_iff.mp helse with hrest | hrest <;> simp [hrest]
  have htrimmed : Trimmed ('\x7d' :: rest) := htext ▸ trimmed_trim _
  have hsplit : '\x7d' :: rest = ['\x7d'] ++ rest := rfl
  rw [htrimmed.getLast?_eq hsplit hne]
  exact getLast?_of_isElse helse

theorem not_mem (h : JoinedElse text) : '=' ∉ text := by
  obtain ⟨rest, rfl, helse⟩ := h
  obtain ⟨front, back, hfront, hback, hrest⟩ := exists_trim_eq rest
  have hinside : '=' ∉ trim rest := by
    rcases isElse_iff.mp helse with hrest | hrest <;> simp [hrest]
  have hblanks {blanks : List Char} (h : ∀ c ∈ blanks, isBlank c = true) : '=' ∉ blanks :=
    fun hmem => absurd (h _ hmem) (by decide)
  rw [hrest]
  simp [hinside, hblanks hfront, hblanks hback]

theorem not_isElse (h : JoinedElse text) (htext : trim text = text) : isElse text = false := by
  rw [Bool.eq_false_iff]
  intro helse
  have hhead := h.head?
  rw [← htext] at hhead
  rcases isElse_iff.mp helse with h | h <;> simp [h] at hhead

theorem readStatement (h : JoinedElse text) (htext : trim text = text) (scope : Scope) :
    readStatement scope text = fail .unsupportedStatement := by
  have hreturn : text ≠ "return;".toList := by
    intro hreturn
    have hhead := h.head?
    rw [hreturn] at hhead
    exact absurd hhead (by decide)
  have hend {ending : List Char} (hending : ending ≠ []) (hc : ending.getLast? ≠ some '\x7b') :
      dropEnd? ending text = none := dropEnd?_of_getLast? (h.getLast? htext) hending hc
  have hcall : callTarget? text = none := by rw [callTarget?, hend (by decide) (by decide)]; rfl
  have hmore : dropEnd? "++;".toList text = none := hend (by decide) (by decide)
  have hless : dropEnd? "--;".toList text = none := hend (by decide) (by decide)
  have hcut : cut? ['='] text = none := cut?_eq_none (List.mem_singleton_self _) h.not_mem
  unfold C.readStatement
  simp only [htext, hreturn, hcall, hmore, hless, hcut, if_false]

theorem bodyLine (h : JoinedElse text) (htext : trim text = text) (p : Pass) (function : String)
    (location : Location) :
    p.bodyLine function text location = fail .unsupportedStatement := by
  have hword {word : List Char} (hword : word ≠ []) (hc : word.head? ≠ some '\x7d') :
      word.isPrefixOf? (trim text) = none := by
    rw [htext]
    exact isPrefixOf?_of_head? h.head? hword hc
  have hkeyword {keyword : String} (hne : keyword.toList ≠ [])
      (hc : keyword.toList.head? ≠ some '\x7d') : afterKeyword? keyword text = none := by
    rw [afterKeyword?, hword hne hc]
  have hdeclaration : declaration? text = .ok none := by
    have htype : afterType? (trim text) = none := by
      rw [afterType?, List.findSome?_eq_none_iff]
      intro type htype
      simp only [List.mem_cons, List.not_mem_nil, or_false] at htype
      rcases htype with rfl | rfl <;> exact hword (by decide) (by decide)
    rw [declaration?, htype]
  have hcondition (keyword : String) (hne : keyword.toList ≠ [])
      (hc : keyword.toList.head? ≠ some '\x7d') : conditionStart? keyword text = .ok none := by
    rw [conditionStart?, hkeyword hne hc]
  have hloop : loopStart? text = .ok none := by
    rw [loopStart?, hkeyword (by decide) (by decide)]
  have hbrace : text ≠ ['\x7d'] := by
    rintro rfl
    exact absurd (h.getLast? htext) (by decide)
  unfold Pass.bodyLine
  simp only [hdeclaration, hcondition "if" (by decide) (by decide),
    hcondition "while" (by decide) (by decide), hloop, ok_bind, hbrace, if_false]
  rw [Pass.statement, h.readStatement htext]
  rfl

/-- Inside a function the line is no statement, whatever is open. -/
theorem innerLine (h : JoinedElse text) (htext : trim text = text) (p : Pass) (function : String)
    (location : Location) :
    p.innerLine function text location = fail .unsupportedStatement := by
  unfold Pass.innerLine
  cases p.pendingEnd with
  | none => exact h.bodyLine htext p function location
  | some label =>
    simp only [h.not_isElse htext, Bool.false_eq_true, if_false]
    exact h.bodyLine htext _ function location

end JoinedElse

/-- A line outside functions ends a declaration, or it starts a function. -/
theorem Pass.topLine_ends {p p' : Pass} {line : SourceLine} {location : Location}
    (htext : trim line.text = line.text) (h : p.topLine line location = .ok p') :
    p' = p ∧ (line.text.getLast? = some ';' ∨ line.text.getLast? = some ')') ∨
      line.text.getLast? = some '\x7b' ∧ line.text.head? = some 'v' ∧ p'.function ≠ none := by
  cases topLine_reads h with
  | global hd => exact .inl ⟨rfl, .inl (htext ▸ getLast?_of_declaration? hd)⟩
  | external hexternal => exact .inl ⟨rfl, .inl (htext ▸ getLast?_of_isExternal hexternal)⟩
  | prototype hprototype =>
    exact .inl ⟨rfl, .symm (htext ▸ getLast?_of_prototype? hprototype)⟩
  | @function name _ hstart hopen =>
    have hfunction : functionAt? line.text = some name := by
      simp [functionAt?, hstart, Except.toOption]
    obtain ⟨rest, hvoid⟩ := exists_afterVoid?_of_functionAt? hfunction
    refine .inr ⟨htext ▸ getLast?_of_functionStart? hstart, htext ▸ head?_of_afterVoid? hvoid, ?_⟩
    simp [(openFunction_keeps hopen).1]

section

variable {current : List String} {file : SourceFile} {path : Path} {line : SourceLine} {p p' : Pass}

/-- A line that is of none of these forms stands in a function. -/
theorem Pass.inside_of_line (htext : trim line.text = line.text)
    (h : p.line file path line = .ok p') (hlast : line.text.getLast? ∉ [some ';', some ')'])
    (hhead : line.text.head? ≠ some 'v') : p.function ≠ none := by
  intro hnone
  have hmoved : (p.moveTo path line.number).function = none := hnone
  have h := atLine_eq_ok.mp h
  simp only [hmoved] at h
  rcases topLine_ends htext h with ⟨-, hend⟩ | ⟨-, hstart, -⟩
  · exact hlast (by simpa using hend)
  · exact hhead hstart

/-- No line closes a block and opens the other part. -/
theorem JoinedElse.line_ne_ok (h : JoinedElse line.text) (htext : trim line.text = line.text) :
    p.line file path line ≠ .ok p' := by
  intro hline
  have hinside := Pass.inside_of_line htext hline (by simp [h.getLast? htext]) (by simp [h.head?])
  obtain ⟨function, hfunction⟩ := Option.ne_none_iff_exists'.mp hinside
  have hmoved : (p.moveTo path line.number).function = some function := hfunction
  have hline := atLine_eq_ok.mp hline
  simp only [hmoved, h.innerLine htext, fail] at hline
  simp at hline

theorem JoinedElse.line_eq_error (h : JoinedElse line.text) (htext : trim line.text = line.text)
    (hinside : p.function ≠ none) : p.line file path line = .error (.c
      { fault := .unsupportedStatement, location := some (file.location line),
        source := some line.source }) := by
  obtain ⟨function, hfunction⟩ := Option.ne_none_iff_exists'.mp hinside
  have hmoved : (p.moveTo path line.number).function = some function := hfunction
  simp only [Pass.line, hmoved, h.innerLine htext]
  rfl

/-- One block deeper, the first pass counts on in the same way, and it sees no declaration. -/
theorem Aligned.deeper {depth depth' : Nat} {a a' : Allocation} (h : Aligned depth p)
    (htext : trim line.text = line.text)
    (ha : Allocation.line current file (depth, a) line = .ok (depth', a'))
    (hp : p.line file path line = .ok p') :
    Allocation.depthAfter (depth + 1) line.text = depth' + 1 := by
  cases depth with
  | succ depth =>
    obtain ⟨rfl, -⟩ := Prod.mk.inj (Except.ok.inj ha)
    unfold Allocation.depthAfter
    split_ifs <;> omega
  | zero =>
    have hnone : (p.moveTo path line.number).function = none := h.outside.mp rfl
    have hstep := (h.step htext ha hp).1
    have hp := atLine_eq_ok.mp hp
    simp only [hnone] at hp
    rcases Pass.topLine_ends htext hp with ⟨rfl, hend⟩ | ⟨hend, -, hinside⟩
    · obtain rfl := hstep.outside.mpr hnone
      have hother : line.text ≠ ['\x7d'] ∧ line.text.getLast? ≠ some '\x7b' := by
        constructor
        · intro hbrace
          simp [hbrace] at hend
        · rcases hend with hend | hend <;> simp [hend]
      rw [Allocation.depthAfter, if_neg hother.1, if_neg hother.2]
    · have hone : depth' = 1 := by
        have hsome : depth' ≠ 0 := fun hzero => hinside (hstep.outside.mp hzero)
        cases Allocation.topLine_kind (atLine_eq_ok.mp ha) with
        | global | nothing => exact absurd rfl hsome
        | function => rfl
      have hother : line.text ≠ ['\x7d'] := by
        intro hbrace
        simp [hbrace] at hend
      rw [Allocation.depthAfter, if_neg hother, if_pos hend, hone]

theorem Aligned.deeper_lines {ls ls' : List SourceLine} {depth : Nat} {a : Allocation}
    {s : Nat × Allocation} (h : Aligned depth p) (htrim : ∀ l ∈ ls, trim l.text = l.text)
    (htexts : ls'.map SourceLine.text = ls.map SourceLine.text)
    (ha : ls.foldlM (Allocation.line current file) (depth, a) = .ok s)
    (hp : ls.foldlM (fun p l => p.line file path l) p = .ok p') (b : Allocation) :
    ls'.foldlM (Allocation.line current file) (depth + 1, b) = .ok (s.1 + 1, b) := by
  induction ls generalizing ls' depth a p with
  | nil =>
    obtain rfl := Except.ok.inj ha
    obtain rfl := List.map_eq_nil_iff.mp htexts
    rfl
  | cons l rest ih =>
    obtain ⟨l', rest', rfl, hl, hrest⟩ := List.map_eq_cons_iff.mp htexts
    obtain ⟨htext, htrim⟩ := List.forall_mem_cons.mp htrim
    rw [List.foldlM_cons] at ha hp ⊢
    obtain ⟨⟨depth', a'⟩, hfirst, ha⟩ := bind_eq_ok.mp ha
    obtain ⟨q, hq, hp⟩ := bind_eq_ok.mp hp
    have hstep : Allocation.line current file (depth + 1, b) l' = .ok (depth' + 1, b) := by
      rw [Allocation.line, hl, h.deeper htext hfirst hq]
    rw [hstep]
    exact ih (h.step htext hfirst hq).1 htrim hrest ha hp

/-- What the two passes make of a file if a closing brace and the `else` behind it are joined: the
first pass keeps what it has found before them, and the second one stops there. -/
theorem Aligned.joined {before after after' : List SourceLine} {close other joined : SourceLine}
    {a : Allocation} {s : Nat × Allocation} (h : Aligned 0 p)
    (htrim : ∀ l ∈ before ++ close :: other :: after, trim l.text = l.text)
    (hclose : close.text = ['\x7d']) (hother : isElse other.text = true)
    (hjoined : JoinedElse joined.text) (htext : trim joined.text = joined.text)
    (htexts : after'.map SourceLine.text = after.map SourceLine.text)
    (ha : (before ++ close :: other :: after).foldlM (Allocation.line current file) (0, a) = .ok s)
    (hp : (before ++ close :: other :: after).foldlM (fun p l => p.line file path l) p = .ok p') :
    ∃ depth a', before.foldlM (Allocation.line current file) (0, a) = .ok (depth, a') ∧
      (before ++ joined :: after').foldlM (Allocation.line current file) (0, a) =
        .ok (s.1 + 1, a') ∧
      (before ++ joined :: after').foldlM (fun p l => p.line file path l) p = .error (.c
        { fault := .unsupportedStatement, location := some (file.location joined),
          source := some joined.source }) := by
  obtain ⟨hbefore, hrest⟩ := List.forall_mem_append.mp htrim
  obtain ⟨hcloseText, hrest⟩ := List.forall_mem_cons.mp hrest
  obtain ⟨hotherText, hafter⟩ := List.forall_mem_cons.mp hrest
  obtain ⟨⟨depth, a'⟩, ⟨depth₁, a₁⟩, hbeforeA, hcloseA, ha⟩ := foldlM_append_cons_eq_ok.mp ha
  obtain ⟨q, q₁, hbeforeP, hcloseP, hp⟩ := foldlM_append_cons_eq_ok.mp hp
  rw [List.foldlM_cons] at ha hp
  obtain ⟨⟨depth₂, a₂⟩, hotherA, ha⟩ := bind_eq_ok.mp ha
  obtain ⟨q₂, hotherP, hp⟩ := bind_eq_ok.mp hp
  obtain ⟨-, -, -, -, -, -, -, hq⟩ := h.steps hbefore hbeforeA hbeforeP
  have hq₁ := (hq.step hcloseText hcloseA hcloseP).1
  have hq₂ := (hq₁.step hotherText hotherA hotherP).1
  -- Both lines stand in a function, so at least two blocks are counted before them.
  have hinside : q.function ≠ none :=
    Pass.inside_of_line hcloseText hcloseP (by simp [hclose]) (by simp [hclose])
  have helse : other.text = ['e', 'l', 's', 'e', ' ', '\x7b'] ∨
      other.text = ['e', 'l', 's', 'e', '\x7b'] := hotherText ▸ isElse_iff.mp hother
  have hinside₁ : q₁.function ≠ none := by
    apply Pass.inside_of_line hotherText hotherP <;> rcases helse with h | h <;> simp [h]
  obtain ⟨d, rfl⟩ : ∃ d, depth = d + 1 := ⟨_, (hq.inside hinside).trans (Nat.add_comm 1 _)⟩
  obtain ⟨rfl, rfl⟩ := Prod.mk.inj (Except.ok.inj hcloseA)
  have hcloses : Allocation.depthAfter (d + 1) close.text = d := by rw [hclose]; rfl
  rw [hcloses] at hq₁ hotherA
  obtain ⟨e, rfl⟩ : ∃ e, d = e + 1 := ⟨_, (hq₁.inside hinside₁).trans (Nat.add_comm 1 _)⟩
  obtain ⟨rfl, rfl⟩ := Prod.mk.inj (Except.ok.inj hotherA)
  have hopens : Allocation.depthAfter (e + 1) other.text = e + 1 + 1 := by
    rcases helse with h | h <;> rw [h] <;> rfl
  rw [hopens] at hq₂ ha
  have hbrace : joined.text ≠ ['\x7d'] := by
    intro hbrace
    simpa [hbrace] using hjoined.getLast? htext
  have hcounted : Allocation.line current file (e + 1 + 1, a') joined = .ok (e + 1 + 1 + 1, a') := by
    rw [Allocation.line, Allocation.depthAfter, if_neg hbrace, if_pos (hjoined.getLast? htext)]
  refine ⟨e + 1 + 1, a', hbeforeA, ?_, ?_⟩
  · exact foldlM_append_cons_eq_ok.mpr
      ⟨_, _, hbeforeA, hcounted, hq₂.deeper_lines hafter htexts ha hp a'⟩
  · exact foldlM_append_cons_eq_error hbeforeP (hjoined.line_eq_error htext hinside)

end

/-- The lines to compile among some lines that are numbered from one behind `n` on. -/
def numberedLines (n : Nat) (ls : List String) : List SourceLine :=
  (ls.zipIdx n).filterMap fun l => sourceLine? (l.2 + 1) l.1

theorem sourceLines_eq (text : String) : sourceLines text = numberedLines 0 (lines text) := rfl

theorem numberedLines_append (n : Nat) (ls ls' : List String) :
    numberedLines n (ls ++ ls') = numberedLines n ls ++ numberedLines (n + ls.length) ls' := by
  rw [numberedLines, List.zipIdx_append, List.filterMap_append]
  rfl

theorem numberedLines_cons {n : Nat} {source : String} {line : SourceLine}
    (h : sourceLine? (n + 1) source = some line) (ls : List String) :
    numberedLines n (source :: ls) = line :: numberedLines (n + 1) ls := by
  rw [numberedLines, List.zipIdx_cons, List.filterMap_cons]
  simp only [h]
  rfl

theorem numberedLines_texts (n : Nat) (ls : List String) :
    (numberedLines n ls).map SourceLine.text =
      ls.filterMap fun source => (sourceLine? 0 source).map SourceLine.text := by
  have hnumber (l : String × Nat) : (sourceLine? (l.2 + 1) l.1).map SourceLine.text =
      (sourceLine? 0 l.1).map SourceLine.text := by
    simp only [sourceLine?]
    split <;> rfl
  rw [numberedLines, List.map_filterMap]
  simp only [hnumber]
  conv_rhs => rw [← List.zipIdx_map_fst n ls, List.filterMap_map]
  rfl

theorem sourceLine?_eq_some {source : String} {c : Char}
    (h : (trim (stripComment source.toList)).head? = some c) (hc : c ≠ '#') (n : Nat) :
    sourceLine? n source = some ⟨n, source, trim (stripComment source.toList)⟩ := by
  have hne : (trim (stripComment source.toList)).isEmpty = false := by
    rw [List.isEmpty_eq_false_iff]
    intro hnil
    simp [hnil] at h
  have hinclude : "#include".toList.isPrefixOf (trim (stripComment source.toList)) = false := by
    rw [Bool.eq_false_iff, Ne, List.isPrefixOf_iff_prefix]
    rintro ⟨rest, hrest⟩
    rw [← hrest] at h
    exact hc (Option.some.inj h).symm
  simp only [sourceLine?, hne, hinclude, Bool.or_self, Bool.false_eq_true, if_false]

/-- A text, and the same text with one of its closing braces and the `else` on the line behind it
joined to one line. -/
structure JoinedText (text text' : String) where
  before : List String
  close : String
  other : String
  joined : String
  after : List String
  apart : lines text = before ++ close :: other :: after
  together : lines text' = before ++ joined :: after
  closes : trim (stripComment close.toList) = ['\x7d']
  opens : isElse (trim (stripComment other.toList)) = true
  joins : JoinedElse (trim (stripComment joined.toList))

namespace JoinedText

variable {text text' : String} (j : JoinedText text text')

def closeLine : SourceLine :=
  ⟨j.before.length + 1, j.close, trim (stripComment j.close.toList)⟩

def otherLine : SourceLine :=
  ⟨j.before.length + 2, j.other, trim (stripComment j.other.toList)⟩

def joinedLine : SourceLine :=
  ⟨j.before.length + 1, j.joined, trim (stripComment j.joined.toList)⟩

theorem sourceLines_apart : sourceLines text = numberedLines 0 j.before ++
    j.closeLine :: j.otherLine :: numberedLines (j.before.length + 2) j.after := by
  have hother : ∃ c, (trim (stripComment j.other.toList)).head? = some c ∧ c ≠ '#' := by
    have hopens := isElse_iff.mp j.opens
    rw [trim_trim] at hopens
    rcases hopens with h | h <;> exact ⟨'e', by simp [h], by decide⟩
  obtain ⟨c, hc, hne⟩ := hother
  rw [sourceLines_eq, j.apart, numberedLines_append, Nat.zero_add,
    numberedLines_cons (sourceLine?_eq_some (by rw [j.closes]; rfl) (by decide) _),
    numberedLines_cons (sourceLine?_eq_some hc hne _)]
  rfl

theorem sourceLines_together : sourceLines text' = numberedLines 0 j.before ++
    j.joinedLine :: numberedLines (j.before.length + 1) j.after := by
  rw [sourceLines_eq, j.together, numberedLines_append, Nat.zero_add,
    numberedLines_cons (sourceLine?_eq_some j.joins.head? (by decide) _)]
  rfl

end JoinedText

/-- Sources in which an `else` stands behind a closing brace on its line are not compiled. -/
theorem compile_ne_ok_of_joined {current : List String} {options : Options}
    {files : List SourceFile} {f : SourceFile} (hf : f ∈ files) {line : SourceLine}
    (hline : line ∈ sourceLines f.text) (h : JoinedElse line.text) (c : Compiled) :
    compile current options files ≠ .ok c := by
  intro hcompile
  obtain ⟨a, -, hcompile⟩ := bind_eq_ok.mp hcompile
  obtain ⟨start, -, hcompile⟩ := bind_eq_ok.mp hcompile
  obtain ⟨p, hp, -⟩ := bind_eq_ok.mp hcompile
  obtain ⟨earlier, later, rfl⟩ := List.append_of_mem hf
  obtain ⟨q, r, -, hr, -⟩ := foldlM_append_cons_eq_ok.mp hp
  obtain ⟨path, -, hlines, -⟩ := Pass.file_eq_ok hr
  have htext := trim_of_mem_sourceLines hline
  obtain ⟨front, back, hsplit⟩ := List.append_of_mem hline
  rw [hsplit] at hlines
  obtain ⟨s, s', -, hs', -⟩ := foldlM_append_cons_eq_ok.mp hlines
  exact h.line_ne_ok htext hs'

theorem JoinedText.compile_ne_ok {current : List String} {options : Options} {text : String}
    {f : SourceFile} (j : JoinedText text f.text) (earlier later : List SourceFile) (c : Compiled) :
    compile current options (earlier ++ f :: later) ≠ .ok c := by
  have hline : j.joinedLine ∈ sourceLines f.text := by
    rw [j.sourceLines_together]
    exact List.mem_append_right _ List.mem_cons_self
  exact compile_ne_ok_of_joined (List.mem_append_right _ List.mem_cons_self) hline j.joins c

theorem Allocation.addFile_of_foldlM {current : List String} {f : SourceFile} {a a' : Allocation}
    {depth : Nat} {ls : List SourceLine} (h : ls.foldlM (line current f) (0, a) = .ok (depth, a')) :
    addLines current f 0 a ls = .ok a' := by
  rw [addLines_eq_foldlM, h]
  rfl

theorem Pass.file_eq_error {current : List String} {f : SourceFile} {path : Path} {p : Pass}
    {e : Failure} (hpath : canonical current f.path = .ok path)
    (h : (sourceLines f.text).foldlM (fun p l => p.line f path l) p = .error e) :
    p.file current f = .error e := by
  rw [file, hpath, ok_bind, h]
  rfl

/-- Where a closing brace and the `else` on the line behind it are joined, a source that compiles does
so no more. The first pass finds in its file what stands before the line and nothing behind it. If
nothing is declared there, the error is that the line is no statement. -/
theorem compile_joined_else {current : List String} {options : Options}
    (earlier later : List SourceFile) {f : SourceFile} {c : Compiled} {text : String}
    (j : JoinedText f.text text)
    (h : compile current options (earlier ++ f :: later) = .ok c) :
    ∃ e a a', compile current options (earlier ++ { f with text } :: later) = .error e ∧
      earlier.foldlM (Allocation.addFile current) { next := options.zeroPageBase } = .ok a ∧
      Allocation.addLines current f 0 a (numberedLines 0 j.before) = .ok a' ∧
      a.addFile current { f with text } = .ok a' ∧
      (a.addFile current f = .ok a' → e = .c
        { fault := .unsupportedStatement,
          location := some { file := f.name, line := j.before.length + 1 },
          source := some j.joined }) := by
  obtain ⟨allocation, start, q, r, r', hallocation, hstart, hq, -, -, -, houtside, -⟩ :=
    compile_stages h
  obtain ⟨a, a₁, ha, ha₁, hlaterA⟩ := foldlM_append_cons_eq_ok.mp hallocation
  obtain ⟨p, p₁, hp, hp₁, hlaterP⟩ := foldlM_append_cons_eq_ok.mp hq
  have hidle : p.function = none ∧ p.blocks = [] := by
    have hblocks : start.blocks = [] :=
      (congrArg Progress.blocks houtside.progress).trans (Progress.ofFunctions_open _).1
    refine foldlM_preserves (P := fun p => p.function = none ∧ p.blocks = []) ?_
      ⟨houtside.compiled, hblocks⟩ hp
    intro s g s' _ _ hs
    obtain ⟨-, -, -, hdone⟩ := Pass.file_eq_ok hs
    exact hdone
  obtain ⟨depth, hlines⟩ := Allocation.addFile_eq_ok ha₁
  obtain ⟨path, hpath, hsteps, -⟩ := Pass.file_eq_ok hp₁
  have htrim : ∀ l ∈ sourceLines f.text, trim l.text = l.text := fun _ => trim_of_mem_sourceLines
  rw [j.sourceLines_apart] at hlines hsteps htrim
  have hjoined : JoinedElse j.joinedLine.text := j.joins
  obtain ⟨d, a', hbefore, hjoinedA, hjoinedP⟩ :=
    (Aligned.of_outside hidle.1 hidle.2).joined htrim j.closes j.opens hjoined (trim_trim _)
      ((numberedLines_texts _ _).trans (numberedLines_texts _ _).symm) hlines hsteps
  rw [← j.sourceLines_together] at hjoinedA hjoinedP
  have hfile : a.addFile current { f with text } = .ok a' := Allocation.addFile_of_foldlM hjoinedA
  cases hcompile : compile current options (earlier ++ { f with text } :: later) with
  | ok c' => exact absurd hcompile (JoinedText.compile_ne_ok (f := { f with text }) j _ _ c')
  | error e =>
    refine ⟨e, a, a', rfl, ha, Allocation.addFile_of_foldlM hbefore, hfile, fun hsame => ?_⟩
    have hagain := foldlM_append_cons_eq_ok.mpr
      ⟨a, a', ha, hfile, Except.ok.inj (ha₁.symm.trans hsame) ▸ hlaterA⟩
    have hfails := Pass.file_eq_error (f := { f with text }) hpath hjoinedP
    rw [compile, hagain, ok_bind, hstart, ok_bind, foldlM_append_cons_eq_error hp hfails] at hcompile
    exact (Except.error.inj hcompile).symm

def branchSource : SourceFile where
  path := .ofText "branch.c"
  name := "branch.c"
  text :=
    "unsigned char x;
void Update() \x7b
  if (x == 1) \x7b
    x--;
  \x7d
  else \x7b
    x++;
  \x7d
\x7d"

def branchText : String :=
  "unsigned char x;
void Update() \x7b
  if (x == 1) \x7b
    x--;
  \x7d else \x7b
    x++;
  \x7d
\x7d"

def branchJoined : JoinedText branchSource.text branchText where
  before := ["unsigned char x;", "void Update() \x7b", "  if (x == 1) \x7b", "    x--;"]
  close := "  \x7d"
  other := "  else \x7b"
  joined := "  \x7d else \x7b"
  after := ["    x++;", "  \x7d", "\x7d"]
  apart := by decide +kernel
  together := by decide +kernel
  closes := by decide +kernel
  opens := by decide +kernel
  joins := ⟨[' ', 'e', 'l', 's', 'e', ' ', '\x7b'], by decide +kernel, by decide +kernel⟩

theorem branchSource_compiles : ∃ c, compile [] {} [branchSource] = .ok c :=
  exists_eq_ok_of_isSome (by decide +kernel)

def branchVariables : Allocation where
  next := 0x41
  globals := [⟨"x", 0x40, { file := "branch.c", line := 1 }⟩]
  addresses := [("x", 0x40)]
  declared := ["Update"]

theorem branchText_refused : ∃ c, compile [] {} [branchSource] = .ok c ∧
    compile [] {} [{ branchSource with text := branchText }] = .error (.c
      { fault := .unsupportedStatement, location := some { file := "branch.c", line := 5 },
        source := some "  \x7d else \x7b" }) := by
  have hfirst : Allocation.addFile [] {} branchSource = .ok branchVariables :=
    eq_ok_of_toOption (by decide +kernel)
  have hsecond : Allocation.addFile [] {} { branchSource with text := branchText } =
      .ok branchVariables := eq_ok_of_toOption (by decide +kernel)
  obtain ⟨c, hcompile⟩ := branchSource_compiles
  obtain ⟨e, a, a', herror, ha, -, hjoined, hexact⟩ :=
    compile_joined_else [] [] branchJoined hcompile
  obtain rfl := Except.ok.inj ha
  obtain rfl : branchVariables = a' := Except.ok.inj (hsecond.symm.trans hjoined)
  obtain rfl := hexact hfirst
  exact ⟨c, hcompile, herror⟩

/-- The one text compiles and the other does not, for all that it may compile to. -/
theorem branchText_not_compiled : (∃ c, compile [] {} [branchSource] = .ok c) ∧
    ∀ c, compile [] {} [{ branchSource with text := branchText }] ≠ .ok c := by
  refine ⟨branchSource_compiles, fun c => ?_⟩
  exact JoinedText.compile_ne_ok (f := { branchSource with text := branchText }) branchJoined [] [] c

end Toolchain6502.C
