import Mathlib.Data.List.Nodup
import Toolchain6502.Proofs.C.CompiledCode
import Toolchain6502.Proofs.C.FlowLabels

namespace Toolchain6502.C

open Cpu

/-- One of the stems, and digits after it. -/
def isGeneratedName (name : String) : Bool :=
  labelStems.any fun stem =>
    match stem.toList.isPrefixOf? name.toList with
    | none => false
    | some digits => !digits.isEmpty && digits.all Char.isDigit

theorem isGeneratedName_generatedLabel {stem : String} (h : stem ∈ labelStems) (n : Nat) :
    isGeneratedName (generatedLabel stem n) = true := by
  refine List.any_eq_true.mpr ⟨stem, h, ?_⟩
  have hdigits : stem.toList.isPrefixOf? (generatedLabel stem n).toList =
      some (Nat.toDigits 10 n) := by
    rw [List.isPrefixOf?_eq_some_iff_append_eq, generatedLabel_toList]
  rw [hdigits]
  simp only [Bool.and_eq_true, Bool.not_eq_true', List.isEmpty_eq_false_iff, List.all_eq_true]
  exact ⟨Nat.toDigits_ne_nil, fun d hd => Nat.isDigit_of_mem_toDigits (by decide) (by decide) hd⟩

theorem Generated.isGeneratedName {others calls stems : List String} {n : Nat} {code : Code × Nat}
    (h : Generated others calls n stems code) {name : String} (hname : name ∈ labelsOf code.1) :
    isGeneratedName name = true := by
  obtain ⟨stem, hstem, k, rfl⟩ := h.exists_label hname
  exact isGeneratedName_generatedLabel hstem k

theorem label_mem_iff {code : Code} {name : String} :
    .label name ∈ code ↔ name ∈ labelsOf code :=
  List.mem_iff_getElem?.trans mem_labelsOf.symm

/-- The lines of a body are no function's label, and none is empty. -/
theorem Flow.code_body {flow : Flow} {function : String} {n : Nat} {l : CodeLine}
    (hl : l ∈ (flow.code function n).1) :
    l ≠ .empty ∧ ∀ name, l = .label name → isGeneratedName name = true := by
  have hgenerated := flow.code_generated function n
  constructor
  · rintro rfl
    exact hgenerated.stays _ hl
  · rintro name rfl
    exact hgenerated.isGeneratedName (label_mem_iff.mp hl)

def labelsFor (fs : List Function) : List String := handedOut 0 (fs.flatMap fun f => f.body.stems)

theorem mem_labelsFor {fs : List Function} {k : Nat} {name : String}
    (h : (labelsFor fs)[k]? = some name) : ∃ stem ∈ labelStems, name = generatedLabel stem k := by
  rw [labelsFor, getElem?_handedOut, Nat.zero_add] at h
  obtain ⟨stem, hstem, rfl⟩ := Option.map_eq_some_iff.mp h
  exact ⟨stem, (bodiesOf_generated fs).known (List.mem_of_getElem? hstem), rfl⟩

theorem ofFunctions_getElem? {fs : List Function} {i : Nat} {l : CodeLine}
    (h : (Progress.ofFunctions fs).code[i]? = some l) :
    ∃ f ∈ fs, ∃ before n after,
      (Progress.ofFunctions fs).code = before ++ (f.code n).1 ++ after ∧
      before.length ≤ i ∧ (f.code n).1[i - before.length]? = some l := by
  induction fs using List.reverseRecOn with
  | nil => simp [Progress.ofFunctions] at h
  | append_singleton fs f ih =>
    rw [Progress.ofFunctions_concat] at h ⊢
    simp only [Progress.add] at h ⊢
    by_cases hi : i < (Progress.ofFunctions fs).code.length
    · rw [List.getElem?_append_left hi] at h
      obtain ⟨g, hg, before, n, after, hcode, hbefore, hline⟩ := ih h
      refine ⟨g, List.mem_append_left _ hg, before, n,
        after ++ (f.code (Progress.ofFunctions fs).labels).1, ?_, hbefore, hline⟩
      rw [hcode]
      simp only [List.append_assoc]
    · rw [List.getElem?_append_right (Nat.le_of_not_lt hi)] at h
      exact ⟨f, by simp, _, _, [], by simp, Nat.le_of_not_lt hi, h⟩

/-- A branch or a jump stands in the body of a function, and so does the label it leads to. -/
theorem ofFunctions_jump {fs : List Function} {i : Nat} {m : Mnemonic} {operand : CodeOperand}
    (h : (Progress.ofFunctions fs).code[i]? = some (.instruction m operand))
    (hjump : m.isBranch = true ∨ m = .jmp) :
    ∃ f ∈ fs, ∃ before n after name,
      (Progress.ofFunctions fs).code = before ++ .label f.name :: (f.body.code f.name n).1 ++
        leaveCode f.name :: .empty :: after ∧
      before.length < i ∧ i ≤ before.length + (f.body.code f.name n).1.length ∧
      operand = .label name ∧ name ∈ labelsOf (f.body.code f.name n).1 := by
  obtain ⟨f, hf, before, n, after, hcode, hbefore, hline⟩ := ofFunctions_getElem? h
  obtain ⟨k, rfl⟩ := Nat.exists_eq_add_of_le hbefore
  rw [Nat.add_sub_cancel_left] at hline
  have hline : (.label f.name :: ((f.body.code f.name n).1 ++ [leaveCode f.name, .empty]))[k]? =
      some (.instruction m operand) := by
    simpa [Function.code] using hline
  cases k with
  | zero => simp at hline
  | succ k =>
  rw [List.getElem?_cons_succ] at hline
  by_cases hk : k < (f.body.code f.name n).1.length
  · rw [List.getElem?_append_left hk] at hline
    obtain ⟨name, hname, rfl⟩ := ((f.body.code_generated f.name n).stays _
      (List.mem_of_getElem? hline)).resolve_right fun hstraight => hstraight.1 hjump
    rw [List.append_nil] at hname
    refine ⟨f, hf, before, n, after, name, ?_, by omega, by omega, rfl, hname⟩
    rw [hcode]
    simp [Function.code]
  · -- Behind the body there are only the closing instruction and an empty line.
    rw [List.getElem?_append_right (Nat.le_of_not_lt hk)] at hline
    have hlast := List.mem_of_getElem? hline
    have hstraight : (leaveCode f.name).isStraight = true := by
      unfold leaveCode
      split <;> rfl
    simp only [List.mem_cons, List.not_mem_nil, or_false, reduceCtorEq] at hlast
    rw [← hlast] at hstraight
    rcases hjump with hjump | hjump <;> simp [CodeLine.isStraight, hjump] at hstraight

/-- Labels are handed out with the numbers from 0 on, each with one of the nine stems. No two are the
same and each is defined by one line. Every branch and every jump leads to one of them, between the
label of its function and the instruction that closes it. -/
theorem compile_labels_sound {current : List String} {options : Options} {files : List SourceFile}
    {c : Compiled} (h : compile current options files = .ok c)
    (hnames : ∀ name ∈ c.functions, isGeneratedName name = false) :
    ∃ (functions : List Function) (allocation : Allocation) (start last : Pass),
      readFunctions current options files = .ok functions ∧
      c.functions = functions.map Function.name ∧
      files.foldlM (Allocation.addFile current) { next := options.zeroPageBase } = .ok allocation ∧
      Pass.addInit { constants := options.constants, allocation } = .ok start ∧
      files.foldlM (Pass.file current) start = .ok last ∧
      last.emitter.labels = (labelsFor functions).length ∧
      (∀ k name, (labelsFor functions)[k]? = some name →
        ∃ stem ∈ labelStems, name = generatedLabel stem k) ∧
      (labelsFor functions).Nodup ∧
      (∀ name ∈ labelsFor functions, (c.lines.map Prod.fst).count (.label name) = 1) ∧
      ∀ i m operand, (c.lines.map Prod.fst)[i]? = some (.instruction m operand) →
        m.isBranch = true ∨ m = .jmp →
        ∃ f ∈ c.functions, ∃ before body after name,
          c.lines.map Prod.fst =
            before ++ .label f :: body ++ leaveCode f :: .empty :: after ∧
          (∀ l ∈ body, l ≠ .empty ∧ ∀ g ∈ c.functions, l ≠ .label g) ∧
          before.length < i ∧ i ≤ before.length + body.length ∧
          operand = .label name ∧ name ∈ labelsFor functions ∧ .label name ∈ body := by
  obtain ⟨allocation, start, last, r, r', hallocation, hstart, hlast, rfl, hr, hr', -, hend⟩ :=
    compile_stages h
  have hcode : last.emitter.lines.map Prod.fst = (Progress.ofFunctions r'.functions).code :=
    congrArg Progress.code hend.progress
  have hcounter : last.emitter.labels = (Progress.ofFunctions r'.functions).labels :=
    congrArg Progress.labels hend.progress
  have hgenerated := bodiesOf_generated r'.functions
  have hperm : (generatedLabels r'.functions).Perm (labelsFor r'.functions) := hgenerated.labels
  have hapart : ∀ name, isGeneratedName name = true → name ∉ r'.functions.map Function.name := by
    intro name hname hfunction
    simp [hnames name (hend.names ▸ hfunction)] at hname
  refine ⟨r'.functions, allocation, start, last, ?_, hend.names, hallocation, hstart, hlast, ?_,
    fun k name => mem_labelsFor, ?_, ?_, ?_⟩
  · simp [readFunctions, hallocation, hr, hr']
  · rw [hcounter, ← bodiesOf_labels, labelsFor, length_handedOut]
    simpa using hgenerated.counter
  · exact nodup_handedOut hgenerated.known
  · intro name hname
    rw [hcode, count_label, (labelsOf_ofFunctions _).count_eq, List.count_append,
      List.count_eq_zero.mpr (hapart name ?_), Nat.zero_add]
    · exact List.count_eq_one_of_mem hgenerated.nodup (hperm.mem_iff.mpr hname)
    · exact hgenerated.isGeneratedName (hperm.mem_iff.mpr hname)
  · intro i m operand hline hjump
    rw [hcode] at hline ⊢
    obtain ⟨f, hf, before, n, after, name, hsplit, hlow, hhigh, rfl, hname⟩ :=
      ofFunctions_jump hline hjump
    have hbody : CodeLine.label name ∈ (f.body.code f.name n).1 := label_mem_iff.mpr hname
    refine ⟨f.name, hend.names ▸ List.mem_map_of_mem hf, before, _, after, name, hsplit, ?_, hlow,
      hhigh, rfl, ?_, hbody⟩
    · intro l hl
      refine ⟨(Flow.code_body hl).1, ?_⟩
      rintro g hg rfl
      exact hapart g ((Flow.code_body hl).2 g rfl) (hend.names ▸ hg)
    · have hmem : name ∈ labelsOf (Progress.ofFunctions r'.functions).code := by
        rw [hsplit]
        exact label_mem_iff.mp (by simp [hbody])
      rw [(labelsOf_ofFunctions _).mem_iff, List.mem_append] at hmem
      refine hperm.mem_iff.mp (hmem.resolve_left ?_)
      exact hapart name ((Flow.code_body hbody).2 name rfl)

/-- Blocks in a block, with a comparison and a shift that take labels themselves. -/
def pulseSource : SourceFile := .ofText (.ofText "pulse")
  "unsigned char level;
void Half() \x7b
  level = level >> 1;
\x7d
void Update() \x7b
  while (level <= 9) \x7b
    if (level == 3) \x7b
      Half();
    \x7d
    else \x7b
      level++;
    \x7d
  \x7d
\x7d"

theorem pulse_labels_sound : ∃ (c : Compiled) (functions : List Function),
    compile [] {} [pulseSource] = .ok c ∧
      (∀ name ∈ c.functions, isGeneratedName name = false) ∧
      labelsFor functions = ["CSHIFT0", "CSHIFTE1", "CWHILES2", "CWHILEE3", "CCMPOK4", "CIFEND5",
        "CIFELSE6"] ∧
      ∀ name ∈ labelsFor functions, (c.lines.map Prod.fst).count (.label name) = 1 := by
  obtain ⟨c, hcompile⟩ : ∃ c, compile [] {} [pulseSource] = .ok c :=
    exists_eq_ok_of_isSome (by decide +kernel)
  have hread : ((readFunctions [] {} [pulseSource]).toOption.map fun fs =>
      (fs.all fun f => !isGeneratedName f.name, labelsFor fs)) = some (true, ["CSHIFT0", "CSHIFTE1",
        "CWHILES2", "CWHILEE3", "CCMPOK4", "CIFEND5", "CIFELSE6"]) := by
    decide +kernel
  obtain ⟨fs, hfs, hread⟩ := Option.map_eq_some_iff.mp hread
  obtain ⟨hplain, hlabels⟩ := Prod.mk.inj hread
  obtain ⟨gs, hgs, hnamed, -⟩ := compile_eq_code hcompile
  obtain rfl : fs = gs := Except.ok.inj ((eq_ok_of_toOption hfs).symm.trans hgs)
  have hnames : ∀ name ∈ c.functions, isGeneratedName name = false := by
    rw [hnamed]
    simpa using hplain
  obtain ⟨functions, -, -, -, hfunctions, -, -, -, -, -, -, -, hcount, -⟩ :=
    compile_labels_sound hcompile hnames
  obtain rfl : fs = functions := Except.ok.inj (hgs.symm.trans hfunctions)
  exact ⟨c, fs, hcompile, hnames, hlabels, hcount⟩

end Toolchain6502.C
