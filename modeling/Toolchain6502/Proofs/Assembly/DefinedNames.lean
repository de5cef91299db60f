import Toolchain6502.Proofs.Assembly.Acceptance
import Toolchain6502.Proofs.Assembly.ByteLines
import Toolchain6502.Proofs.Assembly.WrittenConstant
import Toolchain6502.Proofs.Text.Trimming

namespace Toolchain6502.Assembly

open Text

def Content.defines? : Content → Option String
  | .label name | .constant name _ => some name
  | .instruction _ _ => none

def definedBy (line : String) : List String :=
  match readContents line.toList with
  | .ok contents => contents.filterMap Content.defines?
  | .error _ => []

theorem Statement.defines?_eq (s : Statement) : s.defines? = s.content.defines? := by
  unfold Statement.defines? Content.defines?
  cases s.content <;> rfl

theorem definedNames_of_readLine {line : String} {place : Location} {own : List Statement}
    (h : readLine line place = .ok own) : definedNames own = definedBy line := by
  unfold readLine at h
  unfold definedBy
  cases hread : readContents line.toList with
  | error e => simp [hread] at h
  | ok contents =>
    rw [hread] at h
    rw [← Except.ok.inj h]
    simp [definedNames, List.filterMap_map, Statement.defines?_eq]

theorem definedNames_of_readLinesFrom {file : String} {number : Nat} {ls : List String}
    {ss : List Statement} (h : readLinesFrom file number ls = .ok ss) :
    definedNames ss = ls.flatMap definedBy := by
  induction ls generalizing number ss with
  | nil =>
    obtain rfl := Except.ok.inj h
    rfl
  | cons line rest ih =>
    obtain ⟨own, hown, h⟩ := bind_eq_ok.mp h
    obtain ⟨others, hothers, h⟩ := bind_eq_ok.mp h
    obtain rfl := Except.ok.inj h
    have happend : definedNames (own ++ others) = definedNames own ++ definedNames others :=
      List.filterMap_append
    rw [happend, definedNames_of_readLine hown, ih hothers, List.flatMap_cons]

/-- A text that is assembled defines every name once. -/
theorem nodup_of_assembleSource {origin : Int} {text : String} {image : Image}
    (h : assembleSource origin text = .ok image) : ((lines text).flatMap definedBy).Nodup := by
  obtain ⟨-, -, ss, hread, hassemble⟩ := assembleSource_eq_ok.mp h
  obtain ⟨hfit, -, -⟩ := (assemble_eq_ok (readSource_formed hread)).mp hassemble
  rw [← definedNames_of_readLinesFrom hread]
  exact hfit.distinct

theorem exists_contents_of_readLinesFrom {file : String} {number : Nat} {ls : List String}
    {ss : List Statement} (h : readLinesFrom file number ls = .ok ss) {line : String}
    (hline : line ∈ ls) : ∃ contents, readContents line.toList = .ok contents := by
  induction ls generalizing number ss with
  | nil => simp at hline
  | cons first rest ih =>
    obtain ⟨own, hown, h⟩ := bind_eq_ok.mp h
    obtain ⟨others, hothers, -⟩ := bind_eq_ok.mp h
    rcases List.mem_cons.mp hline with rfl | hline
    · unfold readLine at hown
      split at hown
      · exact ⟨_, ‹_›⟩
      · simp at hown
    · exact ih hothers hline

theorem isConstantName_of_readDirective {text : List Char} {content : Content}
    (h : readDirective text = .ok content) {name : String} (hname : content.defines? = some name) :
    isConstantName name.toList = true := by
  simp only [readDirective] at h
  split at h
  · unfold readConstant at h
    split at h
    · simp at h
    · rename_i word value hsplit
      obtain ⟨n, -, h⟩ := bind_eq_ok.mp h
      obtain rfl := Except.ok.inj h
      obtain rfl := Option.some.inj hname
      unfold splitConstant? at hsplit
      simp only [Option.ite_none_right_eq_some, Bool.and_eq_true] at hsplit
      obtain ⟨⟨⟨hword, -⟩, -⟩, hpair⟩ := hsplit
      obtain ⟨rfl, -⟩ := Prod.mk.inj (Option.some.inj hpair)
      rwa [String.toList_ofList]
  · split at h <;> simp at h

theorem isConstantName_of_readBody {text : List Char} {contents : List Content}
    (h : readBody text = .ok contents) {content : Content} (hmem : content ∈ contents)
    {name : String} (hname : content.defines? = some name) : isConstantName name.toList = true := by
  unfold readBody at h
  split at h
  · rw [← Except.ok.inj h] at hmem
    simp at hmem
  · obtain ⟨directive, hread, h⟩ := bind_eq_ok.mp h
    rw [← Except.ok.inj h, List.mem_singleton] at hmem
    subst hmem
    exact isConstantName_of_readDirective hread hname
  · obtain ⟨instruction, -, h⟩ := bind_eq_ok.mp h
    rw [← Except.ok.inj h, List.mem_singleton] at hmem
    subst hmem
    simp [Content.defines?] at hname

/-- The name of a label could be that of a constant as well. -/
theorem isConstantName_of_definedBy {line name : String} (h : name ∈ definedBy line) :
    isConstantName name.toList = true := by
  unfold definedBy at h
  split at h
  · rename_i contents hread
    obtain ⟨content, hmem, hname⟩ := List.mem_filterMap.mp h
    unfold readContents at hread
    simp only at hread
    split at hread
    · rename_i word after hsplit
      obtain ⟨body, hbody, hread⟩ := bind_eq_ok.mp hread
      rw [← Except.ok.inj hread] at hmem
      rcases List.mem_cons.mp hmem with rfl | hmem
      · obtain rfl := Option.some.inj hname
        rw [String.toList_ofList]
        apply isConstantName_of_isSymbol
        unfold splitLabel? at hsplit
        split at hsplit
        split at hsplit
        · split at hsplit
          · rename_i hsymbol
            rwa [← (Prod.mk.inj (Option.some.inj hsplit)).1]
          · simp at hsplit
        · simp at hsplit
      · exact isConstantName_of_readBody hbody hmem hname
    · exact isConstantName_of_readBody hread hmem hname
  · simp at h

theorem isInk_of_mem_constantWord {c : Char} (hc : c ∈ constantWord) : isInk c = true :=
  List.all_eq_true.mp (by decide : constantWord.all isInk = true) c hc

section

variable {name : List Char} (hname : isConstantName name = true)

include hname

theorem trim_stripComment_constantLine (value : List Char) :
    ∃ tail, trim (stripComment (constantLine name value)) = constantWord ++ ' ' :: (name ++ tail) ∧
      ∀ c ∈ tail.head?, c = ' ' := by
  have hfront : constantLine name value = constantWord ++ ' ' :: (name ++ [' ']) ++ value := by
    simp [constantLine]
  have hunmarked : Unmarked (constantWord ++ ' ' :: (name ++ [' '])) := by
    intro c hc
    simp only [List.mem_append, List.mem_cons, List.not_mem_nil, or_false] at hc
    rcases hc with hc | rfl | hc | rfl
    · exact unmarked_of_ink (fun d hd => .inl (isInk_of_mem_constantWord hd)) c hc
    · decide
    · exact (plain_of_isConstantName hname hc).2.2
    · decide
  refine ⟨trimRight (' ' :: stripComment value), ?_, ?_⟩
  · have hne : name ≠ [] := by
      rintro rfl
      simp [isConstantName] at hname
    have hlast : ∀ c ∈ (constantWord ++ ' ' :: name).getLast?, isBlank c = false := by
      intro c hc
      rw [List.append_cons, List.getLast?_append_of_ne_nil _ hne] at hc
      exact (plain_of_isConstantName hname (List.mem_of_getLast? hc)).1
    have hstrip : stripComment (constantLine name value) =
        constantWord ++ ' ' :: name ++ ' ' :: stripComment value := by
      rw [hfront, stripComment_append hunmarked]
      simp
    rw [trim, hstrip, trimLeft_eq_self (by simp [constantWord, isBlank]),
      trimRight_append_left hlast]
    simp
  · intro c hc
    simpa [eq_comm] using head?_trimRight hc

theorem eq_constant_of_readConstant {tail : List Char} (htail : ∀ c ∈ tail.head?, c = ' ')
    {content : Content} (h : readConstant (' ' :: (name ++ tail)) = .ok content) :
    ∃ value, content = .constant (String.ofList name) value := by
  obtain ⟨first, rest, rfl⟩ : ∃ first rest, name = first :: rest := by
    cases name with
    | nil => simp [isConstantName] at hname
    | cons first rest => exact ⟨first, rest, rfl⟩
  have hplain : ∀ c ∈ first :: rest, isBlank c = false :=
    fun c hc => (plain_of_isConstantName hname hc).1
  have hleft : trimLeft (' ' :: (first :: rest ++ tail)) = first :: rest ++ tail :=
    trimLeft_blanks_append (by simp [isBlank] : ∀ b ∈ [' '], isBlank b = true)
      (hplain first List.mem_cons_self)
  have hspan : spanWord (first :: rest ++ tail) = (first :: rest, tail) := by
    apply span_append
    · intro c hc
      simp [hplain c hc]
    · intro c hc
      rw [htail c hc]
      decide
  unfold readConstant at h
  split at h
  · simp at h
  · rename_i word text hsplit
    obtain ⟨value, -, h⟩ := bind_eq_ok.mp h
    simp only [splitConstant?, hleft, hspan, Option.ite_none_right_eq_some] at hsplit
    obtain ⟨rfl, -⟩ := Prod.mk.inj (Option.some.inj hsplit.2)
    exact ⟨value, (Except.ok.inj h).symm⟩

/-- The line of a constant defines its name, whatever stands for the value, if it can be read. -/
theorem mem_definedBy_constantLine {line : String} {value : List Char} {contents : List Content}
    (hline : line.toList = constantLine name value)
    (h : readContents line.toList = .ok contents) : String.ofList name ∈ definedBy line := by
  have hnames : definedBy line = contents.filterMap Content.defines? := by
    unfold definedBy
    rw [h]
  obtain ⟨tail, htext, htail⟩ := trim_stripComment_constantLine hname value
  rw [hline, readContents_of_constantWord htext] at h
  obtain ⟨content, hcontent, h⟩ := bind_eq_ok.mp h
  obtain ⟨n, rfl⟩ := eq_constant_of_readConstant hname htail hcontent
  rw [hnames, ← Except.ok.inj h]
  exact List.mem_singleton_self _

end

end Toolchain6502.Assembly
