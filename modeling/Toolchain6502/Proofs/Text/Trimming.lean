import Mathlib.Data.List.Basic
import Mathlib.Data.List.TakeDrop
import Mathlib.Data.List.TakeWhile
import Mathlib.Tactic.Common
import Toolchain6502.Text.Blank
import Toolchain6502.Text.Split

namespace Toolchain6502.Text

variable {phrase text before after front blanks : List Char} {c separator : Char}

theorem eq_of_cut?_eq_some (h : cut? phrase text = some (before, after)) :
    text = before ++ phrase ++ after := by
  induction text generalizing before with
  | nil =>
    unfold cut? at h
    split at h
    · rename_i hempty
      obtain ⟨rfl, rfl⟩ := Prod.mk.inj (Option.some.inj h)
      simp [List.isEmpty_iff.mp hempty]
    · simp at h
  | cons c cs ih =>
    unfold cut? at h
    split at h
    · rename_i rest hrest
      obtain ⟨rfl, rfl⟩ := Prod.mk.inj (Option.some.inj h)
      simpa using (List.isPrefixOf?_eq_some_iff_append_eq.mp hrest).symm
    · obtain ⟨⟨left, right⟩, hcut, hpair⟩ := Option.map_eq_some_iff.mp h
      obtain ⟨rfl, rfl⟩ := Prod.mk.inj hpair
      simp [ih hcut]

theorem isSome_cut?_of_infix (h : phrase <:+: text) : (cut? phrase text).isSome = true := by
  induction text with
  | nil => simp [cut?, List.infix_nil.mp h]
  | cons c cs ih =>
    unfold cut?
    split
    · rfl
    · rename_i hnone
      rw [Option.isSome_map]
      apply ih
      apply (List.infix_cons_iff.mp h).resolve_left
      rintro ⟨rest, hrest⟩
      rw [List.isPrefixOf?_eq_some_iff_append_eq.mpr hrest] at hnone
      simp at hnone

theorem cut?_eq_none_iff : cut? phrase text = none ↔ ¬phrase <:+: text := by
  constructor
  · intro h hoccurs
    simpa [h] using isSome_cut?_of_infix hoccurs
  · intro h
    cases hcut : cut? phrase text with
    | none => rfl
    | some ends => exact absurd ⟨_, _, (eq_of_cut?_eq_some hcut).symm⟩ h

theorem not_infix_of_not_mem (hc : c ∈ phrase) (h : c ∉ text) : ¬phrase <:+: text :=
  fun hoccurs => h (hoccurs.subset hc)

theorem cut?_eq_none (hc : c ∈ phrase) (h : c ∉ text) : cut? phrase text = none :=
  cut?_eq_none_iff.mpr (not_infix_of_not_mem hc h)

/-- A text is cut at a phrase if no occurrence of the phrase begins earlier. -/
theorem cut?_append (after : List Char)
    (h : ∀ tail, tail <:+ before → tail ≠ [] → ¬phrase <+: tail ++ (phrase ++ after)) :
    cut? phrase (before ++ (phrase ++ after)) = some (before, after) := by
  induction before with
  | nil =>
    have hprefix : phrase.isPrefixOf? (phrase ++ after) = some after :=
      List.isPrefixOf?_eq_some_iff_append_eq.mpr rfl
    rw [List.nil_append]
    unfold cut?
    split
    · next hnil => simp_all
    · next heq => rw [← heq, hprefix]
  | cons c before ih =>
    have hnone : phrase.isPrefixOf? (c :: (before ++ (phrase ++ after))) = none := by
      cases hprefix : phrase.isPrefixOf? (c :: (before ++ (phrase ++ after))) with
      | none => rfl
      | some rest =>
        refine absurd ⟨rest, ?_⟩ (h (c :: before) List.suffix_rfl (by simp))
        exact List.isPrefixOf?_eq_some_iff_append_eq.mp hprefix
    have hrest := ih fun tail htail => h tail (htail.trans (List.suffix_cons c before))
    rw [List.cons_append, cut?, hnone, hrest]
    rfl

theorem cut?_singleton_append (h : c ∉ before) (after : List Char) :
    cut? [c] (before ++ c :: after) = some (before, after) := by
  refine cut?_append after fun tail htail hne hprefix => ?_
  obtain ⟨d, cs, rfl⟩ := List.exists_cons_of_ne_nil hne
  obtain ⟨rfl, -⟩ := List.cons_prefix_cons.mp hprefix
  exact h (htail.subset List.mem_cons_self)

theorem length_le_of_cut? {back : List Char} (h : cut? phrase text = some (before, after))
    (htext : text = front ++ (phrase ++ back)) : before.length ≤ front.length := by
  induction text generalizing before front with
  | nil =>
    have hbefore := congrArg List.length (eq_of_cut?_eq_some h)
    simp only [List.length_append, List.length_nil] at hbefore
    omega
  | cons c text ih =>
    unfold cut? at h
    split at h
    · obtain ⟨rfl, -⟩ := Prod.mk.inj (Option.some.inj h)
      simp
    · next hnone =>
      obtain ⟨⟨before', after'⟩, hcut, heq⟩ := Option.map_eq_some_iff.mp h
      obtain ⟨rfl, rfl⟩ := Prod.mk.inj heq
      cases front with
      | nil =>
        rw [htext, List.nil_append, List.isPrefixOf?_eq_some_iff_append_eq.mpr rfl] at hnone
        simp at hnone
      | cons d front =>
        exact Nat.succ_le_succ (ih hcut (List.cons.inj htext).2)

theorem not_mem_of_cut? (h : cut? [c] text = some (before, after)) : c ∉ before := by
  intro hmem
  obtain ⟨front, back, rfl⟩ := List.append_of_mem hmem
  have htext : text = front ++ ([c] ++ (back ++ c :: after)) := by simp [eq_of_cut?_eq_some h]
  have hlength := length_le_of_cut? h htext
  rw [List.length_append, List.length_cons] at hlength
  omega

section
variable {phrase left right : List Char} {c : Char}

theorem prefix_append_cons_iff (hc : c ∉ phrase) :
    phrase <+: left ++ c :: right ↔ phrase <+: left := by
  refine ⟨fun h => ?_, fun h => h.trans (List.prefix_append _ _)⟩
  have hleft : left <+: left ++ c :: right := List.prefix_append _ _
  rcases List.prefix_or_prefix_of_prefix h hleft with h' | ⟨more, rfl⟩
  · exact h'
  · rw [List.prefix_append_right_inj] at h
    cases more with
    | nil => simp
    | cons d more =>
      obtain ⟨rfl, -⟩ := List.cons_prefix_cons.mp h
      simp at hc

/-- What has no separator stands on one of its sides. -/
theorem infix_append_cons_iff (hc : c ∉ phrase) :
    phrase <:+: left ++ c :: right ↔ phrase <:+: left ∨ phrase <:+: right := by
  induction left with
  | nil =>
    have hhead : phrase <+: [] ++ c :: right ↔ phrase <+: [] := prefix_append_cons_iff hc
    rw [List.nil_append] at hhead ⊢
    rw [List.infix_cons_iff, hhead, List.prefix_nil, List.infix_nil]
  | cons d left ih =>
    have hhead : phrase <+: d :: left ++ c :: right ↔ phrase <+: d :: left :=
      prefix_append_cons_iff hc
    rw [List.cons_append] at hhead ⊢
    rw [List.infix_cons_iff, List.infix_cons_iff, hhead, ih, or_assoc]

end

theorem eq_of_cutLast?_eq_some (h : cutLast? c text = some (before, after)) :
    text = before ++ c :: after := by
  unfold cutLast? at h
  rw [List.span_eq_takeWhile_dropWhile] at h
  split at h
  · rename_i behind d front hspan
    obtain ⟨hbehind, hfront⟩ := Prod.mk.inj hspan
    obtain ⟨rfl, rfl⟩ := Prod.mk.inj (Option.some.inj h)
    have hd : d = c := by
      have hhead := List.head?_dropWhile_not (fun x => decide (x ≠ c)) text.reverse
      rw [hfront] at hhead
      simpa using hhead
    have htext : text.reverse = behind ++ d :: front := by
      rw [← hbehind, ← hfront, List.takeWhile_append_dropWhile]
    rw [← List.reverse_reverse text, htext, hd]
    simp
  · simp at h

theorem cutLast?_append (h : c ∉ after) (before : List Char) :
    cutLast? c (before ++ c :: after) = some (before, after) := by
  have hspan : (before ++ c :: after).reverse.span (· ≠ c) = (after.reverse, c :: before.reverse) := by
    have hafter : ∀ d ∈ after.reverse, decide (d ≠ c) = true := by
      rintro d hd
      exact decide_eq_true fun heq => h (heq ▸ List.mem_reverse.mp hd)
    rw [List.reverse_append, List.reverse_cons, List.append_assoc, List.singleton_append,
      List.span_eq_takeWhile_dropWhile, List.takeWhile_append_of_pos hafter,
      List.dropWhile_append_of_pos hafter]
    simp
  rw [cutLast?, hspan]
  simp

theorem dropEnd?_eq_some {ending body : List Char} :
    dropEnd? ending text = some body ↔ text = body ++ ending := by
  simp only [dropEnd?, Option.map_eq_some_iff, List.isPrefixOf?_eq_some_iff_append_eq]
  constructor
  · rintro ⟨front, hfront, rfl⟩
    rw [← List.reverse_reverse text, ← hfront]
    simp
  · rintro rfl
    exact ⟨body.reverse, by simp, by simp⟩

theorem split_of_not_mem (h : separator ∉ text) : split separator text = [text] := by
  induction text with
  | nil => rfl
  | cons c text ih =>
    simp only [List.mem_cons, not_or] at h
    rw [split, if_neg (Ne.symm h.1), ih h.2]

theorem split_append_separator (h : separator ∉ text) (rest : List Char) :
    split separator (text ++ separator :: rest) = text :: split separator rest := by
  induction text with
  | nil => simp [split]
  | cons c text ih =>
    simp only [List.mem_cons, not_or] at h
    rw [List.cons_append, split, if_neg (Ne.symm h.1), ih h.2]

theorem split_ne_nil (separator : Char) (text : List Char) : split separator text ≠ [] := by
  cases text with
  | nil => simp [split]
  | cons c text =>
    unfold split
    split
    · simp
    · split <;> simp

/-- The parts and the separators between them are all of the text. -/
theorem intercalate_split (separator : Char) (text : List Char) :
    [separator].intercalate (split separator text) = text := by
  induction text with
  | nil => rfl
  | cons c text ih =>
    obtain ⟨part, rest, hparts⟩ := List.exists_cons_of_ne_nil (split_ne_nil separator text)
    rw [hparts] at ih
    unfold split
    split
    · rename_i hc
      rw [hparts, List.intercalate_cons_cons, ih, hc]
      rfl
    · rw [hparts]
      cases rest <;> simp_all [List.intercalate_cons_cons]

theorem not_mem_of_mem_split {part : List Char} (h : part ∈ split separator text) :
    separator ∉ part := by
  induction text generalizing part with
  | nil => simp_all [split]
  | cons c text ih =>
    unfold split at h
    split at h
    · rcases List.mem_cons.mp h with rfl | h
      · simp
      · exact ih h
    · rename_i hc
      split at h
      · rw [List.mem_singleton.mp h, List.mem_singleton]
        exact Ne.symm hc
      · rename_i first rest hparts
        rw [hparts] at ih
        rcases List.mem_cons.mp h with rfl | h
        · simp [Ne.symm hc, ih List.mem_cons_self]
        · exact ih (List.mem_cons_of_mem _ h)

theorem split_intercalate {parts : List (List Char)} (hne : parts ≠ [])
    (h : ∀ part ∈ parts, separator ∉ part) :
    split separator ([separator].intercalate parts) = parts := by
  induction parts with
  | nil => exact absurd rfl hne
  | cons part rest ih =>
    obtain ⟨hpart, hrest⟩ := List.forall_mem_cons.mp h
    cases rest with
    | nil => simpa using split_of_not_mem hpart
    | cons next rest =>
      rw [List.intercalate_cons_cons, List.append_assoc, List.singleton_append,
        split_append_separator hpart, ih (by simp) hrest]

structure Trimmed (text : List Char) : Prop where
  first : ∀ c ∈ text.head?, isBlank c = false
  last : ∀ c ∈ text.getLast?, isBlank c = false

theorem isBlank_of_mem_head?_trimLeft (h : c ∈ (trimLeft text).head?) : isBlank c = false := by
  have hhead := List.head?_dropWhile_not isBlank text
  rw [trimLeft, Option.mem_def] at h
  simpa [h] using hhead

theorem isBlank_of_mem_getLast?_trimRight (h : c ∈ (trimRight text).getLast?) :
    isBlank c = false := by
  rw [trimRight, List.getLast?_reverse] at h
  exact isBlank_of_mem_head?_trimLeft h

theorem exists_trimLeft_eq (text : List Char) :
    ∃ blanks, (∀ c ∈ blanks, isBlank c = true) ∧ text = blanks ++ trimLeft text :=
  ⟨text.takeWhile isBlank, fun _ hc => List.mem_takeWhile_imp hc,
    List.takeWhile_append_dropWhile.symm⟩

theorem exists_trimRight_eq (text : List Char) :
    ∃ blanks, (∀ c ∈ blanks, isBlank c = true) ∧ text = trimRight text ++ blanks := by
  obtain ⟨blanks, hblanks, htext⟩ := exists_trimLeft_eq text.reverse
  refine ⟨blanks.reverse, fun c hc => hblanks c (List.mem_reverse.mp hc), ?_⟩
  have hreverse := congrArg List.reverse htext
  rwa [List.reverse_reverse, List.reverse_append] at hreverse

theorem exists_trim_eq (text : List Char) :
    ∃ front back, (∀ c ∈ front, isBlank c = true) ∧ (∀ c ∈ back, isBlank c = true) ∧
      text = front ++ trim text ++ back := by
  obtain ⟨front, hfront, hleft⟩ := exists_trimLeft_eq text
  obtain ⟨back, hback, hright⟩ := exists_trimRight_eq (trimLeft text)
  refine ⟨front, back, hfront, hback, ?_⟩
  rw [List.append_assoc, trim, ← hright, ← hleft]

theorem mem_of_mem_trim (h : c ∈ trim text) : c ∈ text := by
  obtain ⟨front, back, -, -, htext⟩ := exists_trim_eq text
  rw [htext]
  exact List.mem_append_left _ (List.mem_append_right _ h)

theorem trimLeft_eq_self (h : ∀ c ∈ text.head?, isBlank c = false) : trimLeft text = text := by
  cases text with
  | nil => rfl
  | cons c cs => exact List.dropWhile_cons_of_neg (by simp [h c rfl])

theorem trimRight_eq_self (h : ∀ c ∈ text.getLast?, isBlank c = false) : trimRight text = text := by
  have hreverse : trimLeft text.reverse = text.reverse :=
    trimLeft_eq_self (by rwa [List.head?_reverse])
  rw [trimRight]
  exact (congrArg List.reverse hreverse).trans text.reverse_reverse

theorem Trimmed.trim_eq (h : Trimmed text) : trim text = text := by
  rw [trim, trimLeft_eq_self h.first, trimRight_eq_self h.last]

theorem trimLeft_append (hblanks : ∀ c ∈ blanks, isBlank c = true)
    (h : ∀ c ∈ text.head?, isBlank c = false) : trimLeft (blanks ++ text) = text := by
  rw [trimLeft, List.dropWhile_append_of_pos hblanks]
  exact trimLeft_eq_self h

theorem trimRight_append (hblanks : ∀ c ∈ blanks, isBlank c = true)
    (h : ∀ c ∈ text.getLast?, isBlank c = false) : trimRight (text ++ blanks) = text := by
  have hreverse : trimLeft (blanks.reverse ++ text.reverse) = text.reverse :=
    trimLeft_append (fun c hc => hblanks c (List.mem_reverse.mp hc)) (by rwa [List.head?_reverse])
  rw [trimRight, List.reverse_append]
  exact (congrArg List.reverse hreverse).trans text.reverse_reverse

/-- Only what stands behind the last character that is not blank is cut off. -/
theorem trimRight_append_left (hlast : ∀ c ∈ front.getLast?, isBlank c = false) (rest : List Char) :
    trimRight (front ++ rest) = front ++ trimRight rest := by
  obtain ⟨blanks, hblanks, hrest⟩ := exists_trimRight_eq rest
  have hend : ∀ c ∈ (front ++ trimRight rest).getLast?, isBlank c = false := by
    intro c hc
    by_cases hnil : trimRight rest = []
    · rw [hnil, List.append_nil] at hc
      exact hlast c hc
    · rw [List.getLast?_append_of_ne_nil _ hnil] at hc
      exact isBlank_of_mem_getLast?_trimRight hc
  conv_lhs => rw [hrest, ← List.append_assoc]
  exact trimRight_append hblanks hend

/-- What is cut off behind leaves the first character where it is. -/
theorem head?_trimRight (h : c ∈ (trimRight text).head?) : c ∈ text.head? := by
  obtain ⟨blanks, -, htext⟩ := exists_trimRight_eq text
  rw [htext, List.head?_append, Option.mem_def, Option.or_eq_some_iff]
  exact .inl h

theorem Trimmed.trim_append {back : List Char} (h : Trimmed text) (hne : text ≠ [])
    (hfront : ∀ c ∈ front, isBlank c = true) (hback : ∀ c ∈ back, isBlank c = true) :
    trim (front ++ text ++ back) = text := by
  have hhead : (text ++ back).head? = text.head? := List.head?_append_of_ne_nil text hne
  rw [trim, List.append_assoc, trimLeft_append hfront (hhead ▸ h.first), trimRight_append hback h.last]

theorem Trimmed.append_concat (h : Trimmed text) (hne : text ≠ []) (hc : isBlank c = false)
    (more : List Char) : Trimmed (text ++ (more ++ [c])) := by
  refine ⟨fun d hd => h.first d ?_, fun d hd => ?_⟩
  · rwa [List.head?_append_of_ne_nil _ hne] at hd
  · rw [← List.append_assoc, List.getLast?_concat] at hd
    exact Option.some.inj hd ▸ hc

theorem Trimmed.eq_nil_of_blanks (h : Trimmed (text ++ blanks))
    (hblanks : ∀ c ∈ blanks, isBlank c = true) : blanks = [] := by
  rcases List.eq_nil_or_concat' blanks with rfl | ⟨most, c, rfl⟩
  · rfl
  · have hlast := h.last c (by simp)
    have hblank := hblanks c (by simp)
    simp [hlast] at hblank

theorem trimmed_trim (text : List Char) : Trimmed (trim text) := by
  refine ⟨?_, fun c hc => isBlank_of_mem_getLast?_trimRight hc⟩
  intro c hc
  exact isBlank_of_mem_head?_trimLeft (head?_trimRight hc)

theorem trim_trim (text : List Char) : trim (trim text) = trim text := (trimmed_trim text).trim_eq

theorem trim_of_blanks (h : ∀ c ∈ blanks, isBlank c = true) : trim blanks = [] := by
  have hleft : trimLeft blanks = [] := List.dropWhile_eq_nil_iff.mpr h
  rw [trim, hleft]
  rfl

/-- Blanks around a text do not matter. -/
theorem trim_append_blanks {back : List Char} (text : List Char)
    (hfront : ∀ c ∈ front, isBlank c = true) (hback : ∀ c ∈ back, isBlank c = true) :
    trim (front ++ text ++ back) = trim text := by
  obtain ⟨first, last, hfirst, hlast, htext⟩ := exists_trim_eq text
  have hwhole : front ++ text ++ back = (front ++ first) ++ trim text ++ (last ++ back) := by
    conv_lhs => rw [htext]
    simp only [List.append_assoc]
  have hbefore := List.forall_mem_append.mpr ⟨hfront, hfirst⟩
  have hafter := List.forall_mem_append.mpr ⟨hlast, hback⟩
  rw [hwhole]
  by_cases hne : trim text = []
  · rw [hne, List.append_nil]
    exact trim_of_blanks (List.forall_mem_append.mpr ⟨hbefore, hafter⟩)
  · exact (trimmed_trim text).trim_append hne hbefore hafter

theorem trim_trimRight (text : List Char) : trim (trimRight text) = trim text := by
  obtain ⟨blanks, hblanks, htext⟩ := exists_trimRight_eq text
  have hnone : ∀ c ∈ ([] : List Char), isBlank c = true := by simp
  conv_rhs => rw [htext]
  exact (trim_append_blanks _ hnone hblanks).symm

theorem trim_cons (hc : isBlank c = false) (text : List Char) :
    trim (c :: text) = c :: trimRight text := by
  have hfirst : trimLeft (c :: text) = [c] ++ text := trimLeft_eq_self (by simpa using hc)
  rw [trim, hfirst, trimRight_append_left (by simpa using hc)]
  rfl

/-- Nothing but blanks is cut off. -/
theorem filter_trim (text : List Char) :
    (trim text).filter (!isBlank ·) = text.filter (!isBlank ·) := by
  obtain ⟨front, back, hfront, hback, htext⟩ := exists_trim_eq text
  have hnone {blanks : List Char} (h : ∀ c ∈ blanks, isBlank c = true) :
      blanks.filter (!isBlank ·) = [] := by
    rw [List.filter_eq_nil_iff]
    intro c hc
    simp [h c hc]
  conv_rhs => rw [htext, List.filter_append, List.filter_append, hnone hfront, hnone hback]
  simp

/-- A trimmed text ends as each of its ends does, once that has been trimmed. -/
theorem Trimmed.getLast?_eq (h : Trimmed text) (htext : text = before ++ after)
    (hafter : trim after ≠ []) : text.getLast? = (trim after).getLast? := by
  obtain ⟨front, back, -, hback, heq⟩ := exists_trim_eq after
  have hends : text = before ++ front ++ trim after ++ back := by
    rw [htext]
    conv_lhs => rw [heq]
    simp only [List.append_assoc]
  have hnone : back = [] := by
    by_contra hne
    obtain ⟨c, hc⟩ := Option.isSome_iff_exists.mp (List.getLast?_isSome.mpr hne)
    have hlast : text.getLast? = some c := by
      rw [hends, List.getLast?_append_of_ne_nil _ hne, hc]
    have hblank := hback c (List.mem_of_getLast? hc)
    rw [h.last c hlast] at hblank
    simp at hblank
  rw [hends, hnone, List.append_nil, List.getLast?_append_of_ne_nil _ hafter]

def Blanks (text : List Char) : Prop := ∀ c ∈ text, isBlank c = true

theorem blanks_nil : Blanks [] := by simp [Blanks]

theorem Blanks.not_mem (h : Blanks blanks) (hc : isBlank c = false) : c ∉ blanks := by
  intro hmem
  simp [h c hmem] at hc

/-- A text of tokens in order, with any blanks before, between and after them. -/
inductive Spaced : List (List Char) → List Char → Prop
  | nil {blanks : List Char} (h : Blanks blanks) : Spaced [] blanks
  | cons {blanks token rest : List Char} {tokens : List (List Char)} (hblanks : Blanks blanks)
      (h : Spaced tokens rest) : Spaced (token :: tokens) (blanks ++ token ++ rest)

theorem spaced_flatMap (h : Blanks blanks) (tokens : List (List Char)) :
    Spaced tokens (tokens.flatMap (blanks ++ ·)) := by
  induction tokens with
  | nil => exact .nil blanks_nil
  | cons token tokens ih => exact .cons h ih

end Toolchain6502.Text
