import Toolchain6502.Proofs.C.CodeLayout
import Toolchain6502.Proofs.C.Progress

namespace Toolchain6502.C

open Cpu

def Statement.stems : Statement → List String
  | assign _ value | store _ value => value.stems
  | leave | call _ | increment _ | decrement _ => []

def LoopKind.stems : LoopKind → List String
  | whileLoop => ["CWHILES", "CWHILEE"]
  | forLoop => ["CFORS", "CFORE"]

/-- The stems of the labels that a block takes. Its own come before those of its parts. -/
def Flow.stems : Flow → List String
  | skip => []
  | act s => s.stems
  | seq first second => first.stems ++ second.stems
  | branch c yes no => ["CIFEND", "CIFELSE"] ++ (c.stems ++ yes.stems ++ no.stems)
  | loop kind c body => kind.stems ++ ((c.map Condition.stems).getD [] ++ body.stems)

def Statement.calls : Statement → List String
  | call name => [name]
  | _ => []

def Flow.calls : Flow → List String
  | skip => []
  | act s => s.calls
  | seq first second => first.calls ++ second.calls
  | branch _ yes no => yes.calls ++ no.calls
  | loop _ _ body => body.calls

theorem targetsOf_append (first second : Code) :
    targetsOf (first ++ second) = targetsOf first ++ targetsOf second :=
  List.filterMap_append

theorem mem_targetsOf_iff {code : Code} {name : String} :
    name ∈ targetsOf code ↔ ∃ m, toLabel m name ∈ code := by
  rw [targetsOf, List.mem_filterMap]
  constructor
  · rintro ⟨l, hl, hname⟩
    split at hname
    · obtain rfl := Option.some.inj hname
      exact ⟨_, hl⟩
    · simp at hname
  · rintro ⟨m, hl⟩
    exact ⟨_, hl, rfl⟩

theorem Address.access_targets (a : Address) (m : Mnemonic) : targetsOf (a.access m) = [] := by
  obtain ⟨base, _ | (_ | _)⟩ := a <;> rfl

/-- Code that takes two labels first, for lines that stand around its parts. -/
theorem Generated.enclose {calls stems : List String} {n : Nat} {s t : String} {inner : Code × Nat}
    (hknown : [s, t] ⊆ labelStems)
    (h : Generated [generatedLabel s n, generatedLabel t (n + 1)] calls (n + 2) stems inner)
    (code : Code) (hlabels : (labelsOf code).Perm
      ([generatedLabel s n, generatedLabel t (n + 1)] ++ labelsOf inner.1))
    (hlines : ∀ l ∈ code, l ∈ inner.1 ∨ (∃ name, l = .label name) ∨
      ∃ name ∈ [generatedLabel s n, generatedLabel t (n + 1)], l = toLabel .jmp name) :
    Generated [] calls n ([s, t] ++ stems) (code, inner.2) where
  known := List.append_subset.mpr ⟨hknown, h.known⟩
  counter := by
    rw [h.counter, List.length_append]
    exact Nat.add_assoc n 2 stems.length
  labels := by
    rw [handedOut_append]
    exact hlabels.trans (h.labels.append_left _)
  stays := by
    have hown : [generatedLabel s n, generatedLabel t (n + 1)] ⊆ labelsOf code ++ [] := by
      intro name hname
      rw [List.append_nil]
      exact hlabels.mem_iff.mpr (List.mem_append_left _ hname)
    intro l hl
    rcases hlines l hl with hin | ⟨name, rfl⟩ | ⟨name, hname, rfl⟩
    · refine (h.stays l hin).mono (List.append_subset.mpr ⟨?_, hown⟩) (List.Subset.refl _)
      intro name hname
      rw [List.append_nil]
      exact hlabels.mem_iff.mpr (List.mem_append_right _ hname)
    · trivial
    · exact .inl ⟨name, hown hname, rfl⟩

theorem testCode_generated (c : Option Condition) (n : Nat) (otherwise : String) :
    Generated [otherwise] [] n ((c.map Condition.stems).getD []) (testCode n otherwise c) := by
  cases c with
  | none => exact .of_straight rfl n
  | some c => exact c.code_generated n otherwise

theorem Statement.code_generated (s : Statement) (function : String) (n : Nat) :
    Generated [] s.calls n s.stems (s.code function n) := by
  cases s with
  | assign address value => exact (value.code_generated n).append_straight [onByte .sta address] rfl
  | store address value =>
    exact (value.code_generated n).append_straight _ (address.access_straight (m := .sta) rfl)
  | call name =>
    refine ⟨List.nil_subset _, rfl, .refl _, ?_⟩
    simp [code, calls, CodeLine.StaysAt, toLabel, Mnemonic.isBranch, @eq_comm _ _ name]
  | leave =>
    refine .of_straight ?_ n
    unfold leaveCode
    split <;> rfl
  | increment _ | decrement _ => exact .of_straight rfl n

theorem LoopKind.stems_eq (kind : LoopKind) : ∃ s t, kind.stems = [s, t] ∧ [s, t] ⊆ labelStems ∧
    (∀ n, kind.startLabel n = generatedLabel s n) ∧ ∀ n, kind.endLabel n = generatedLabel t n := by
  cases kind with
  | whileLoop => exact ⟨_, _, rfl, by decide, fun _ => rfl, fun _ => rfl⟩
  | forLoop => exact ⟨_, _, rfl, by decide, fun _ => rfl, fun _ => rfl⟩

/-- Instructions lead to labels of the same code, or call functions. -/
theorem Flow.code_generated (flow : Flow) (function : String) (n : Nat) :
    Generated [] flow.calls n flow.stems (flow.code function n) := by
  have hjump (target : String) (l : CodeLine) :
      labelsOf [toLabel .jmp target, l] = labelsOf [l] := rfl
  have hlabel (name : String) : labelsOf [.label name] = [name] := rfl
  -- A block takes its own two labels before its parts do, and places them around the parts.
  induction flow generalizing n with
  | skip => exact .of_straight rfl n
  | act s => exact s.code_generated function n
  | seq first second ih ih' =>
    exact ((ih n).mono (List.Subset.refl _) (List.subset_append_left _ _)).append
      ((ih' _).mono (List.Subset.refl _) (List.subset_append_right _ _))
  | branch c yes no ih ih' =>
    have htest := (c.code_generated (n + 2) (generatedLabel "CIFELSE" (n + 1))).mono
      (by simp : _ ⊆ [generatedLabel "CIFEND" n, generatedLabel "CIFELSE" (n + 1)])
      (List.nil_subset (yes.calls ++ no.calls))
    have hparts := (htest.append ((ih _).mono (List.nil_subset _)
      (List.subset_append_left _ _))).append ((ih' _).mono (List.nil_subset _)
      (List.subset_append_right _ _))
    refine hparts.enclose (by decide) ((Flow.branch c yes no).code function n).1 ?_ ?_
    · refine List.perm_iff_count.mpr fun name => ?_
      simp only [Flow.code, labelsOf_append, List.count_append, hjump, hlabel, List.count_cons,
        List.count_nil]
      omega
    · intro l hl
      simp only [Flow.code, List.mem_append, List.mem_cons, List.not_mem_nil, or_false] at hl
      rcases hl with (((hl | hl) | rfl | rfl) | hl) | rfl
      · exact .inl (by simp [hl])
      · exact .inl (by simp [hl])
      · exact .inr (.inr ⟨_, by simp, rfl⟩)
      · exact .inr (.inl ⟨_, rfl⟩)
      · exact .inl (by simp [hl])
      · exact .inr (.inl ⟨_, rfl⟩)
  | loop kind c body ih =>
    obtain ⟨s, t, hstems, hknown, hstart, hend⟩ := kind.stems_eq
    have htest := (testCode_generated c (n + 2) (kind.endLabel (n + 1))).mono
      (by simp [hend] : _ ⊆ [generatedLabel s n, generatedLabel t (n + 1)])
      (List.nil_subset body.calls)
    have hparts := htest.append ((ih _).mono (List.nil_subset _) (List.Subset.refl _))
    have hall := hparts.enclose hknown ((Flow.loop kind c body).code function n).1 ?_ ?_
    · rw [← hstems] at hall
      exact hall
    · refine List.perm_iff_count.mpr fun name => ?_
      simp only [Flow.code, labelsOf_append, List.count_append, hjump, hlabel, List.count_cons,
        List.count_nil, hstart, hend]
      omega
    · intro l hl
      simp only [Flow.code, List.mem_append, List.mem_cons, List.not_mem_nil, or_false] at hl
      rcases hl with ((rfl | hl) | hl) | rfl | rfl
      · exact .inr (.inl ⟨_, rfl⟩)
      · exact .inl (by simp [hl])
      · exact .inl (by simp [hl])
      · exact .inr (.inr ⟨_, by simp [hstart], rfl⟩)
      · exact .inr (.inl ⟨_, rfl⟩)

/-- The functions that a block calls lead out of its own code, and nothing else does. -/
theorem Flow.mem_targetsOf {flow : Flow} {function : String} {n : Nat} {name : String}
    (h : name ∈ targetsOf (flow.code function n).1) :
    name ∈ labelsOf (flow.code function n).1 ∨ name ∈ flow.calls := by
  obtain ⟨m, hline⟩ := mem_targetsOf_iff.mp h
  rcases (flow.code_generated function n).stays _ hline with ⟨target, htarget, heq⟩ | ⟨-, hcalls⟩
  · obtain rfl := CodeOperand.label.inj heq
    exact .inl (by simpa using htarget)
  · exact .inr (hcalls name rfl)

theorem Flow.calls_subset_targetsOf (flow : Flow) (function : String) (n : Nat) :
    flow.calls ⊆ targetsOf (flow.code function n).1 := by
  induction flow generalizing n with
  | skip => exact List.nil_subset _
  | act s =>
    cases s with
    | call name => exact List.Subset.refl _
    | _ => exact List.nil_subset _
  | seq first second ih ih' =>
    simp only [code, targetsOf_append]
    exact List.append_subset.mpr ⟨List.subset_append_of_subset_left _ (ih n),
      List.subset_append_of_subset_right _ (ih' _)⟩
  | branch c yes no ih ih' =>
    intro name hname
    simp only [code, targetsOf_append, List.mem_append]
    rcases List.mem_append.mp hname with hname | hname
    · exact .inl (.inl (.inl (.inr (ih _ hname))))
    · exact .inl (.inr (ih' _ hname))
  | loop kind c body ih =>
    intro name hname
    simp only [code, targetsOf_append, List.mem_append]
    exact .inl (.inr (ih _ hname))

theorem count_label (code : Code) (name : String) :
    code.count (.label name) = (labelsOf code).count name := by
  induction code with
  | nil => rfl
  | cons l rest ih =>
    cases l with
    | label other =>
      have hlabels : labelsOf (.label other :: rest) = other :: labelsOf rest := rfl
      rw [hlabels, List.count_cons, List.count_cons, ih]
      simp
    | _ =>
      rw [List.count_cons, ih]
      simp [labelsOf]

def bodiesOf (fs : List Function) : Progress :=
  fs.foldl (fun p f => p.add (f.body.code f.name)) {}

def generatedLabels (fs : List Function) : List String := labelsOf (bodiesOf fs).code

theorem bodiesOf_concat (fs : List Function) (f : Function) :
    bodiesOf (fs ++ [f]) = (bodiesOf fs).add (f.body.code f.name) := by
  simp [bodiesOf]

theorem bodiesOf_labels (fs : List Function) :
    (bodiesOf fs).labels = (Progress.ofFunctions fs).labels := by
  induction fs using List.reverseRecOn with
  | nil => rfl
  | append_singleton fs f ih =>
    simp [bodiesOf_concat, Progress.ofFunctions_concat, Progress.add, Function.code, ih]

theorem bodiesOf_generated (fs : List Function) :
    Generated [] (fs.flatMap fun f => f.body.calls) 0 (fs.flatMap fun f => f.body.stems)
      ((bodiesOf fs).code, (bodiesOf fs).labels) := by
  induction fs using List.reverseRecOn with
  | nil => exact .of_straight rfl 0
  | append_singleton fs f ih =>
    rw [bodiesOf_concat, List.flatMap_append, List.flatMap_append, List.flatMap_singleton,
      List.flatMap_singleton]
    exact (ih.mono (List.Subset.refl _) (List.subset_append_left _ _)).append
      ((f.body.code_generated f.name _).mono (List.Subset.refl _) (List.subset_append_right _ _))

/-- The labels of the code are the names of the functions and the generated ones. -/
theorem labelsOf_ofFunctions (fs : List Function) :
    (labelsOf (Progress.ofFunctions fs).code).Perm
      (fs.map Function.name ++ generatedLabels fs) := by
  induction fs using List.reverseRecOn with
  | nil => exact .refl _
  | append_singleton fs f ih =>
    have hbody : labelsOf (f.code (Progress.ofFunctions fs).labels).1 =
        f.name :: labelsOf (f.body.code f.name (bodiesOf fs).labels).1 := by
      rw [bodiesOf_labels]
      simp [Function.code, labelsOf, leaveCode, plain]
    rw [Progress.ofFunctions_concat, generatedLabels, bodiesOf_concat]
    simp only [Progress.add, labelsOf_append, hbody, List.map_append, List.map_cons, List.map_nil]
    refine List.perm_iff_count.mpr fun name => ?_
    have hcount := List.perm_iff_count.mp ih name
    simp only [generatedLabels, List.count_append, List.count_cons, List.count_nil] at hcount ⊢
    omega

theorem labelsOf_nodup_iff (fs : List Function) :
    (labelsOf (Progress.ofFunctions fs).code).Nodup ↔
      (fs.map Function.name).Nodup ∧ ∀ f ∈ fs, f.name ∉ generatedLabels fs := by
  rw [(labelsOf_ofFunctions fs).nodup_iff, List.nodup_append]
  have hgenerated : (generatedLabels fs).Nodup := (bodiesOf_generated fs).nodup
  constructor
  · rintro ⟨hnames, -, hapart⟩
    refine ⟨hnames, fun f hf hmem => ?_⟩
    exact hapart f.name (List.mem_map_of_mem hf) f.name hmem rfl
  · rintro ⟨hnames, hapart⟩
    refine ⟨hnames, hgenerated, ?_⟩
    rintro name hname _ hmem rfl
    obtain ⟨f, hf, rfl⟩ := List.mem_map.mp hname
    exact hapart f hf hmem

/-- Functions that are called are targets, and all other targets are generated labels. -/
theorem mem_targetsOf_ofFunctions (fs : List Function) (name : String) :
    (∀ f ∈ fs, name ∈ f.body.calls → name ∈ targetsOf (Progress.ofFunctions fs).code) ∧
      (name ∈ targetsOf (Progress.ofFunctions fs).code →
        name ∈ generatedLabels fs ∨ ∃ f ∈ fs, name ∈ f.body.calls) := by
  induction fs using List.reverseRecOn with
  | nil => simp [Progress.ofFunctions, targetsOf]
  | append_singleton fs f ih =>
    have hbody : targetsOf (f.code (Progress.ofFunctions fs).labels).1 =
        targetsOf (f.body.code f.name (bodiesOf fs).labels).1 := by
      rw [bodiesOf_labels]
      simp [Function.code, targetsOf, leaveCode, plain]
    rw [Progress.ofFunctions_concat, generatedLabels, bodiesOf_concat]
    simp only [Progress.add, targetsOf_append, labelsOf_append, hbody, List.mem_append]
    constructor
    · rintro g (hg | hg) hcall
      · exact .inl (ih.1 g hg hcall)
      · obtain rfl := List.mem_singleton.mp hg
        exact .inr (g.body.calls_subset_targetsOf g.name _ hcall)
    · rintro (hname | hname)
      · rcases ih.2 hname with hgenerated | ⟨g, hg, hcall⟩
        · exact .inl (.inl hgenerated)
        · exact .inr ⟨g, .inl hg, hcall⟩
      · rcases f.body.mem_targetsOf hname with hgenerated | hcall
        · exact .inl (.inr hgenerated)
        · exact .inr ⟨f, .inr (List.mem_singleton.mpr rfl), hcall⟩

end Toolchain6502.C
