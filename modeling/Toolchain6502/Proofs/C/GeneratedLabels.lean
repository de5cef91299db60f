import Toolchain6502.Proofs.C.LineRun

namespace Toolchain6502.C

open Cpu

def labelStems : List String :=
  ["CIFEND", "CIFELSE", "CWHILES", "CWHILEE", "CFORS", "CFORE", "CCMPOK", "CSHIFT", "CSHIFTE"]

def numberOf (name : String) : Nat :=
  Nat.ofDigitChars 10 (name.toList.reverse.takeWhile Char.isDigit).reverse 0

theorem generatedLabel_toList (stem : String) (n : Nat) :
    (generatedLabel stem n).toList = stem.toList ++ Nat.toDigits 10 n := by
  simp [generatedLabel, ToString.toString]

/-- The last character of a stem keeps it apart from the number. -/
theorem numberOf_generatedLabel {stem : String} (h : stem ∈ labelStems) (n : Nat) :
    numberOf (generatedLabel stem n) = n := by
  have hletters : labelStems.all (fun stem => stem.toList.reverse.head?.any (!·.isDigit)) = true := by
    decide +kernel
  have hlast : ∀ c ∈ stem.toList.reverse.head?, ¬c.isDigit = true := by
    intro c hc
    have hstem := List.all_eq_true.mp hletters stem h
    rw [Option.mem_def] at hc
    simpa [hc] using hstem
  have hdigits : ∀ d ∈ (Nat.toDigits 10 n).reverse, d.isDigit = true := by
    intro d hd
    exact Nat.isDigit_of_mem_toDigits (by decide) (by decide) (List.mem_reverse.mp hd)
  have hstop : stem.toList.reverse.takeWhile Char.isDigit = [] := by
    cases hstem : stem.toList.reverse with
    | nil => rfl
    | cons c cs => exact List.takeWhile_cons_of_neg (hlast c (by simp [hstem]))
  unfold numberOf
  rw [generatedLabel_toList, List.reverse_append, List.takeWhile_append_of_pos hdigits, hstop,
    List.append_nil, List.reverse_reverse]
  exact Nat.ofDigitChars_ten_toDigits

@[simp]
theorem labelsOf_append (first second : Code) :
    labelsOf (first ++ second) = labelsOf first ++ labelsOf second :=
  List.filterMap_append

/-- The labels with these stems, numbered from `n` on. -/
def handedOut (n : Nat) : List String → List String
  | [] => []
  | stem :: rest => generatedLabel stem n :: handedOut (n + 1) rest

theorem handedOut_append (n : Nat) (first second : List String) :
    handedOut n (first ++ second) = handedOut n first ++ handedOut (n + first.length) second := by
  induction first generalizing n with
  | nil => rfl
  | cons stem rest ih =>
    simp only [List.cons_append, handedOut, ih, List.length_cons]
    rw [Nat.add_right_comm, Nat.add_assoc]

theorem getElem?_handedOut (n : Nat) (stems : List String) (k : Nat) :
    (handedOut n stems)[k]? = stems[k]?.map (generatedLabel · (n + k)) := by
  induction stems generalizing n k with
  | nil => rfl
  | cons stem rest ih =>
    cases k with
    | zero => rfl
    | succ k =>
      simp only [handedOut, List.getElem?_cons_succ, ih]
      rw [Nat.add_right_comm, Nat.add_assoc]

theorem length_handedOut (n : Nat) (stems : List String) :
    (handedOut n stems).length = stems.length := by
  induction stems generalizing n with
  | nil => rfl
  | cons stem rest ih => simp [handedOut, ih]

section

variable {n : Nat} {stems : List String} {name : String}

theorem exists_of_mem_handedOut (h : name ∈ handedOut n stems) :
    ∃ stem ∈ stems, ∃ k, n ≤ k ∧ k < n + stems.length ∧ name = generatedLabel stem k := by
  obtain ⟨k, hk⟩ := List.getElem?_of_mem h
  have hlength := (List.getElem?_eq_some_iff.mp hk).1
  rw [length_handedOut] at hlength
  rw [getElem?_handedOut] at hk
  obtain ⟨stem, hstem, rfl⟩ := Option.map_eq_some_iff.mp hk
  exact ⟨stem, List.mem_of_getElem? hstem, n + k, by omega, by omega, rfl⟩

theorem numberOf_of_mem_handedOut (hstems : stems ⊆ labelStems) (h : name ∈ handedOut n stems) :
    n ≤ numberOf name ∧ numberOf name < n + stems.length := by
  obtain ⟨stem, hstem, k, hlow, hhigh, rfl⟩ := exists_of_mem_handedOut h
  rw [numberOf_generatedLabel (hstems hstem)]
  exact ⟨hlow, hhigh⟩

theorem nodup_handedOut (hstems : stems ⊆ labelStems) : (handedOut n stems).Nodup := by
  induction stems generalizing n with
  | nil => exact .nil
  | cons stem rest ih =>
    obtain ⟨hstem, hrest⟩ := List.cons_subset.mp hstems
    refine List.nodup_cons.mpr ⟨fun hmem => ?_, ih hrest⟩
    have hlow := (numberOf_of_mem_handedOut hrest hmem).1
    rw [numberOf_generatedLabel hstem] at hlow
    omega

end

/-- A label, or an instruction that leads to one of some names. What is neither a branch nor a jump
may also lead nowhere, or call a function. -/
def CodeLine.StaysAt (names calls : List String) : CodeLine → Prop
  | label _ => True
  | instruction m operand => (∃ name ∈ names, operand = .label name) ∨
      ¬(m.isBranch = true ∨ m = .jmp) ∧ ∀ name, operand = .label name → name ∈ calls
  | written _ _ | empty => False

theorem CodeLine.StaysAt.mono {names more calls others : List String} {l : CodeLine}
    (h : l.StaysAt names calls) (hmore : names ⊆ more) (hothers : calls ⊆ others) :
    l.StaysAt more others := by
  cases l with
  | label _ => trivial
  | instruction m operand =>
    rcases h with ⟨name, hname, hoperand⟩ | ⟨hstraight, hcalls⟩
    · exact .inl ⟨name, hmore hname, hoperand⟩
    · exact .inr ⟨hstraight, fun name hname => hothers (hcalls name hname)⟩
  | written _ _ | empty => exact h.elim

/-- An instruction that is neither a branch nor a jump nor a call. -/
def CodeLine.isStraight : CodeLine → Bool
  | instruction m operand => !(m.isBranch || m = .jmp || operand.isLabel)
  | _ => false

theorem CodeLine.staysAt_of_isStraight {l : CodeLine} (h : l.isStraight = true)
    (names calls : List String) : l.StaysAt names calls := by
  cases l with
  | instruction m operand =>
    simp only [isStraight, Bool.not_eq_true', Bool.or_eq_false_iff, decide_eq_false_iff_not] at h
    refine .inr ⟨by simp [h.1.1, h.1.2], ?_⟩
    rintro name rfl
    simp [CodeOperand.isLabel] at h
  | _ => simp [isStraight] at h

/-- Code that takes labels from the number `n` on, one for each stem, and defines each of them once.
It leads to no names but these and some others that are given, and calls only given functions. -/
structure Generated (others calls : List String) (n : Nat) (stems : List String)
    (code : Code × Nat) : Prop where
  known : stems ⊆ labelStems
  counter : code.2 = n + stems.length
  labels : (labelsOf code.1).Perm (handedOut n stems)
  stays : ∀ l ∈ code.1, l.StaysAt (labelsOf code.1 ++ others) calls

namespace Generated

variable {others calls : List String} {n : Nat} {first second : List String} {a b : Code × Nat}

theorem mono (h : Generated others calls n first a) {more : List String} (hmore : others ⊆ more)
    {called : List String} (hcalled : calls ⊆ called) : Generated more called n first a := by
  refine { h with stays := fun l hl => (h.stays l hl).mono ?_ hcalled }
  exact List.append_subset.mpr ⟨List.subset_append_left _ _,
    List.subset_append_of_subset_right _ hmore⟩

theorem append (h : Generated others calls n first a) (h' : Generated others calls a.2 second b) :
    Generated others calls n (first ++ second) (a.1 ++ b.1, b.2) where
  known := List.append_subset.mpr ⟨h.known, h'.known⟩
  counter := by
    rw [h'.counter, h.counter, List.length_append, Nat.add_assoc]
  labels := by
    rw [labelsOf_append, handedOut_append, ← h.counter]
    exact h.labels.append h'.labels
  stays := by
    intro l hl
    rw [labelsOf_append]
    rcases List.mem_append.mp hl with hl | hl
    · refine (h.stays l hl).mono (List.append_subset.mpr ⟨?_, List.subset_append_right _ _⟩)
        (List.Subset.refl _)
      exact List.subset_append_of_subset_left _ (List.subset_append_left _ _)
    · refine (h'.stays l hl).mono (List.append_subset.mpr ⟨?_, List.subset_append_right _ _⟩)
        (List.Subset.refl _)
      exact List.subset_append_of_subset_left _ (List.subset_append_right _ _)

theorem of_straight {x : Code} (h : x.all CodeLine.isStraight = true) (n : Nat) :
    Generated others calls n [] (x, n) := by
  rw [List.all_eq_true] at h
  have hnone : labelsOf x = [] := by
    refine List.filterMap_eq_nil_iff.mpr fun l hl => ?_
    have hstraight := h l hl
    cases l with
    | label name => simp [CodeLine.isStraight] at hstraight
    | _ => rfl
  refine ⟨List.nil_subset _, rfl, ?_, fun l hl => CodeLine.staysAt_of_isStraight (h l hl) _ _⟩
  rw [hnone]
  exact .nil

theorem append_straight (h : Generated others calls n first a) (x : Code)
    (hx : x.all CodeLine.isStraight = true) : Generated others calls n first (a.1 ++ x, a.2) := by
  have happend := h.append (.of_straight hx a.2)
  rwa [List.append_nil] at happend

theorem nodup (h : Generated others calls n first a) : (labelsOf a.1).Nodup :=
  h.labels.nodup_iff.mpr (nodup_handedOut h.known)

theorem exists_label (h : Generated others calls n first a) {name : String}
    (hname : name ∈ labelsOf a.1) : ∃ stem ∈ labelStems, ∃ k, name = generatedLabel stem k := by
  obtain ⟨stem, hstem, k, -, -, rfl⟩ := exists_of_mem_handedOut (h.labels.mem_iff.mp hname)
  exact ⟨stem, h.known hstem, k, rfl⟩

/-- A label whose number was taken before is not one of these. -/
theorem not_mem (h : Generated others calls n first a) {name : String} (hname : numberOf name < n) :
    name ∉ labelsOf a.1 := by
  intro hmem
  have hlow := (numberOf_of_mem_handedOut h.known (h.labels.mem_iff.mp hmem)).1
  omega

end Generated

def BinOp.stems : BinOp → List String
  | shl | shr => ["CSHIFT", "CSHIFTE"]
  | add | sub | and | xor | or => []

def Expr.stems : Expr → List String
  | term _ | memory _ => []
  | complement e => e.stems
  | binary op left right => left.stems ++ right.stems ++ op.stems

def Comparison.stems : Comparison → List String
  | le => ["CCMPOK"]
  | eq | ne | lt | gt | ge => []

def Condition.stems (c : Condition) : List String := c.left.stems ++ c.right.stems ++ c.op.stems

theorem shiftCode_generated {shift : Mnemonic} (hshift : (plain shift).isStraight = true) (n : Nat) :
    Generated [] [] n ["CSHIFT", "CSHIFTE"] (shiftCode shift n, n + 2) where
  known := by decide
  counter := rfl
  labels := .refl _
  stays := by
    have hlabels : labelsOf (shiftCode shift n) =
      [generatedLabel "CSHIFT" n, generatedLabel "CSHIFTE" (n + 1)] := rfl
    simp_all [shiftCode, CodeLine.StaysAt, CodeLine.isStraight, CodeOperand.isLabel, plain, onByte,
      withValue, toLabel, Mnemonic.isBranch]

theorem BinOp.code_generated (op : BinOp) (n : Nat) :
    Generated [] [] n op.stems (op.code n) := by
  cases op with
  | shl | shr => exact shiftCode_generated rfl n
  | add | sub | and | xor | or => exact .of_straight rfl n

theorem Term.load_straight (t : Term) : t.load.all CodeLine.isStraight = true := by
  cases t <;> rfl

theorem Address.access_straight {m : Mnemonic} (hm : (plain m).isStraight = true) (a : Address) :
    (a.access m).all CodeLine.isStraight = true := by
  obtain ⟨base, _ | (_ | _)⟩ := a <;>
    simpa [access, CodeLine.isStraight, CodeOperand.isLabel, onByte, plain, Mnemonic.isBranch]
      using hm

/-- The labels of an expression have the numbers between the one that its code starts from and the
one that it leaves free. -/
theorem Expr.code_generated (e : Expr) (n : Nat) : Generated [] [] n e.stems (e.code n) := by
  induction e generalizing n with
  | term t => exact .of_straight t.load_straight n
  | memory a => exact .of_straight (a.access_straight rfl) n
  | complement e ih => exact (ih n).append_straight [withValue .eor 0xFF] rfl
  | binary op left right ihl ihr =>
    have hleft := (ihl n).append_straight [onByte .sta leftByte] rfl
    have hright := (hleft.append (ihr _)).append_straight
      [onByte .sta rightByte, onByte .lda leftByte] rfl
    exact hright.append (op.code_generated _)

theorem Comparison.code_generated (op : Comparison) (n : Nat) (otherwise : String) :
    Generated [otherwise] [] n op.stems (op.code n otherwise) := by
  cases op with
  | le =>
    refine ⟨by decide, rfl, .refl _, ?_⟩
    simp [code, CodeLine.StaysAt, toLabel, labelsOf]
  | eq | ne | lt | gt | ge =>
    refine ⟨by decide, rfl, .refl _, ?_⟩
    simp [code, CodeLine.StaysAt, toLabel, labelsOf]

theorem Condition.code_generated (c : Condition) (n : Nat) (otherwise : String) :
    Generated [otherwise] [] n c.stems (c.code n otherwise) := by
  have hleft := (c.left.code_generated n).append_straight [onByte .sta comparedByte] rfl
  have hright := (hleft.append (c.right.code_generated _)).append_straight
    [onByte .sta rightByte, onByte .lda comparedByte, onByte .cmp rightByte] rfl
  exact (hright.mono (List.nil_subset [otherwise]) (List.Subset.refl _)).append
    (c.op.code_generated _ otherwise)

end Toolchain6502.C
