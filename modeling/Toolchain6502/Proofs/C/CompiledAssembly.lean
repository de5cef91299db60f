import Toolchain6502.Proofs.Assembly.ByteLines
import Toolchain6502.Proofs.C.Attribution
import Toolchain6502.Proofs.C.BranchSpans
import Toolchain6502.Proofs.C.CompiledCode
import Toolchain6502.Proofs.C.Ranges

namespace Toolchain6502.C

theorem reserved_eq_false_iff {code : Code} :
    (∀ l ∈ code, l.reserved = false) ↔ ∀ name ∈ targetsOf code, isAccumulator name = false := by
  constructor
  · intro h name hname
    obtain ⟨l, hl, hl'⟩ := List.mem_filterMap.mp hname
    split at hl' <;> simp at hl'
    subst hl'
    exact h _ hl
  · intro h l hl
    cases l with
    | instruction m operand =>
      cases operand with
      | label name => exact h name (List.mem_filterMap.mpr ⟨_, hl, rfl⟩)
      | _ => rfl
    | _ => rfl

/-- A generated label ends with a digit, so it is not the accumulator. -/
theorem isAccumulator_generatedLabel (stem : String) (n : Nat) :
    isAccumulator (generatedLabel stem n) = false := by
  have hdigits : Nat.toDigits 10 n ≠ [] := Nat.toDigits_ne_nil
  have hlast : (generatedLabel stem n).toList.getLast? = (Nat.toDigits 10 n).getLast? := by
    rw [generatedLabel_toList, List.getLast?_append_of_ne_nil _ hdigits]
  obtain ⟨d, hd⟩ := Option.isSome_iff_exists.mp (List.getLast?_isSome.mpr hdigits)
  have hdigit : d.isDigit = true :=
    Nat.isDigit_of_mem_toDigits (by decide) (by decide) (List.mem_of_getLast? hd)
  by_contra hname
  simp only [isAccumulator, Bool.not_eq_false, Bool.or_eq_true, decide_eq_true_eq] at hname
  rcases hname with hname | hname <;> rw [hname, hd] at hlast <;>
    obtain rfl := Option.some.inj hlast <;> exact absurd hdigit (by decide)

section

variable {fs : List Function}

theorem ofFunctions_reserved_iff :
    (∀ l ∈ (Progress.ofFunctions fs).code, l.reserved = false) ↔
      ∀ f ∈ fs, ∀ name ∈ f.body.calls, isAccumulator name = false := by
  rw [reserved_eq_false_iff]
  constructor
  · intro h f hf name hname
    exact h name ((mem_targetsOf_ofFunctions fs name).1 f hf hname)
  · intro h name hname
    rcases (mem_targetsOf_ofFunctions fs name).2 hname with hgenerated | ⟨f, hf, hcall⟩
    · obtain ⟨stem, -, n, rfl⟩ := (bodiesOf_generated fs).exists_label hgenerated
      exact isAccumulator_generatedLabel stem n
    · exact h f hf name hcall

/-- If all functions that are called are there, then so is every place. -/
theorem ofFunctions_known
    (hcalls : ∀ f ∈ fs, ∀ name ∈ f.body.calls, name ∈ fs.map Function.name) :
    ∀ name ∈ targetsOf (Progress.ofFunctions fs).code,
      name ∈ labelsOf (Progress.ofFunctions fs).code := by
  intro name hname
  rw [(labelsOf_ofFunctions fs).mem_iff, List.mem_append]
  rcases (mem_targetsOf_ofFunctions fs name).2 hname with hgenerated | ⟨f, hf, hcall⟩
  · exact .inr hgenerated
  · exact .inl (hcalls f hf name hcall)

/-- Functions whose names and branches the assembler takes. -/
structure Assemblable (fs : List Function) : Prop where
  apart : ∀ f ∈ fs, f.name ∉ generatedLabels fs
  callable : ∀ f ∈ fs, ∀ name ∈ f.body.calls, isAccumulator name = false
  short : ∀ f ∈ fs, f.body.short = true

theorem ofFunctions_assemblable_iff (hnames : (fs.map Function.name).Nodup) :
    ((∀ l ∈ (Progress.ofFunctions fs).code, l.reserved = false) ∧
      (labelsOf (Progress.ofFunctions fs).code).Nodup ∧ Near (Progress.ofFunctions fs).code) ↔
        Assemblable fs := by
  rw [ofFunctions_reserved_iff]
  constructor
  · rintro ⟨hcallable, hdistinct, hnear⟩
    exact ⟨((labelsOf_nodup_iff fs).mp hdistinct).2, hcallable,
      (ofFunctions_near_iff hdistinct).mp hnear⟩
  · rintro ⟨hapart, hcallable, hshort⟩
    have hdistinct := (labelsOf_nodup_iff fs).mpr ⟨hnames, hapart⟩
    exact ⟨hcallable, hdistinct, (ofFunctions_near_iff hdistinct).mpr hshort⟩

end

/-- A source that the compiler takes, and whose calls all lead to functions that are there, is
assembled wherever its code has room, just when no function is named like a generated label, no
function that is called is named like the accumulator, and no branch is too long. The label table
then has the functions and the generated labels, and no other name. -/
theorem compiled_assembles_iff {current : List String} {options : Options}
    {files : List SourceFile} {compiled : Compiled}
    (hcompile : compile current options files = .ok compiled) (hoptions : options.InRange) :
    ∃ functions, readFunctions current options files = .ok functions ∧
      compiled.functions = functions.map Function.name ∧
      ((∀ f ∈ functions, ∀ name ∈ f.body.calls, name ∈ compiled.functions) →
        ∀ origin : Nat, origin ≤ 0xFFFF →
          origin + codeSize (compiled.lines.map Prod.fst) ≤ 0x10000 →
          ((∃ image, Assembly.assembleSource origin compiled.assembly.text = .ok image) ↔
            Assemblable functions) ∧
          ∀ image, Assembly.assembleSource origin compiled.assembly.text = .ok image →
            (image.labels.map Prod.fst).Perm
              (compiled.functions ++ generatedLabels functions)) := by
  obtain ⟨functions, hfunctions, hnames, hlines⟩ := compile_eq_code hcompile
  refine ⟨functions, hfunctions, hnames, ?_⟩
  intro hcalls origin horigin hroom
  -- the text is read back as the lines that were written
  have hnamed : ∀ l ∈ compiled.lines.map Prod.fst, l.named = true := by
    rw [hlines]
    exact ofFunctions_named (readFunctions_named hfunctions)
  have hfits : ∀ l ∈ compiled.lines.map Prod.fst, l.fits = true := by
    rw [hlines]
    exact readFunctions_fitting hoptions hfunctions
  obtain ⟨rows, hspelled, hread⟩ := readSource_codeText hnamed hfits Assembly.mergedName
  have hassemble (image : Assembly.Image) :
      Assembly.assembleSource origin compiled.assembly.text = .ok image ↔
        Assembly.assemble origin [] rows.flatten = .ok image := by
    rw [Assembly.assembleSource_eq_ok, Compiled.assembly, hread]
    have hlast : (origin : Int) ≤ 0xFFFF := by omega
    simp [hlast]
  have hformed := Assembly.readSource_formed hread
  rw [hlines] at hspelled hfits hroom
  rw [hnames] at hcalls ⊢
  have hdistinct : (functions.map Function.name).Nodup := hnames ▸ compile_functions_nodup hcompile
  simp only [hassemble]
  constructor
  · rw [hspelled.assembles_iff hfits hformed (ofFunctions_known hcalls) hroom,
      ofFunctions_assemblable_iff hdistinct]
  · intro image himage
    rw [hspelled.image_labels hfits hformed himage]
    exact labelsOf_ofFunctions functions

def halfSource : SourceFile := .ofText (.ofText "half")
  "unsigned char level;
void Half() \x7b
  level = level >> 1;
\x7d
void Update() \x7b
  if (level > 3) \x7b
    Half();
  \x7d
\x7d"

def halfFunctions : List Function := [
  ⟨"Half", .seq .skip (.act (.assign 0x40
    (.binary .shr (.term (.byte 0x40)) (.term (.immediate (.whole 1))))))⟩,
  ⟨"Update", .seq .skip (.branch ⟨.term (.byte 0x40), .gt, .term (.immediate (.whole 3))⟩
    (.seq .skip (.act (.call "Half"))) .skip)⟩]

theorem halfFunctions_assemblable : Assemblable halfFunctions := by
  refine ⟨?_, ?_, ?_⟩ <;> decide +kernel

theorem half_assembles : ∃ (compiled : Compiled) (image : Assembly.Image),
    compile [] {} [halfSource] = .ok compiled ∧
      Assembly.assembleSource 0x200 compiled.assembly.text = .ok image ∧
      (image.labels.map Prod.fst).Perm
        ["Half", "Update", "CSHIFT0", "CSHIFTE1", "CIFELSE3", "CIFEND2"] := by
  obtain ⟨compiled, hcompile⟩ : ∃ compiled, compile [] {} [halfSource] = .ok compiled :=
    exists_eq_ok_of_isSome (by decide +kernel)
  obtain ⟨functions, hfunctions, hnames, hassembles⟩ :=
    compiled_assembles_iff hcompile ⟨by simp, by decide⟩
  have hread : readFunctions [] {} [halfSource] = .ok halfFunctions :=
    eq_ok_of_toOption (by decide +kernel)
  obtain rfl : halfFunctions = functions := Except.ok.inj (hread.symm.trans hfunctions)
  obtain ⟨functions', hfunctions', -, hlines⟩ := compile_eq_code hcompile
  obtain rfl : halfFunctions = functions' := Except.ok.inj (hread.symm.trans hfunctions')
  have hcalls : ∀ f ∈ halfFunctions, ∀ name ∈ f.body.calls, name ∈ compiled.functions := by
    rw [hnames]
    decide
  have hroom : 0x200 + codeSize (compiled.lines.map Prod.fst) ≤ 0x10000 := by
    rw [hlines]
    decide +kernel
  obtain ⟨hiff, hlabels⟩ := hassembles hcalls 0x200 (by decide) hroom
  obtain ⟨image, himage⟩ := hiff.mpr halfFunctions_assemblable
  refine ⟨compiled, image, hcompile, himage, ?_⟩
  have hperm := hlabels image himage
  rw [hnames] at hperm
  exact hperm

/-- A function that is called, and has the accumulator's name. -/
def accumulatorSource : SourceFile := .ofText (.ofText "accumulator")
  "void A() \x7b
\x7d
void Update() \x7b
    A();
\x7d
"

/-- The call leads to a function that is there, and yet the text is not assembled. -/
theorem accumulator_call_refused : ∃ (compiled : Compiled) (e : Failure),
    compile [] {} [accumulatorSource] = .ok compiled ∧ compiled.functions = ["A", "Update"] ∧
      codeSize (compiled.lines.map Prod.fst) = 5 ∧
      Assembly.assembleSource 0x200 compiled.assembly.text = .error e := by
  have hrefused : ((compile [] {} [accumulatorSource]).toOption.map fun compiled =>
      (compiled.functions, codeSize (compiled.lines.map Prod.fst),
        (Assembly.assembleSource 0x200 compiled.assembly.text).toOption.isNone)) =
      some (["A", "Update"], 5, true) := by
    decide +kernel
  obtain ⟨compiled, hcompile, hrefused⟩ := Option.map_eq_some_iff.mp hrefused
  simp only [Prod.mk.injEq] at hrefused
  obtain ⟨e, he⟩ := exists_eq_error_of_isNone hrefused.2.2
  exact ⟨compiled, e, eq_ok_of_toOption hcompile, hrefused.1, hrefused.2.1, he⟩

end Toolchain6502.C
