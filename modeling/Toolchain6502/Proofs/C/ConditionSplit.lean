import Mathlib.Data.List.Infix
import Toolchain6502.Proofs.C.AcceptedTexts
import Toolchain6502.Proofs.C.Precedence

namespace Toolchain6502.C

open Text

def compared (left : List Char) (op : Comparison) (right : List Char) : List Char :=
  left ++ ' ' :: (op.text.toList ++ ' ' :: right)

def Comparison.earlier (op : Comparison) : List Comparison := searched.takeWhile (· ≠ op)

/-- The search ends at the operator between the sides: no side holds an operator that is searched
before it, and the left side does not hold the operator itself. -/
@[mk_iff]
structure Foremost (left : List Char) (op : Comparison) (right : List Char) : Prop where
  apart : ∀ o ∈ op.earlier, ¬o.text.toList <:+: left ∧ ¬o.text.toList <:+: right
  first : ¬op.text.toList <:+: left

/-- No shift is in the way of a comparison. The search for `>` must not meet a `>>` on the left,
and before `<` is searched, all of the text is searched for `>`. -/
def Comparison.Clear : Comparison → Expr → Expr → Prop
  | gt, left, _ => left.uses .shr = false
  | lt, left, right => left.uses .shl = false ∧ left.uses .shr = false ∧ right.uses .shr = false
  | _, _, _ => True

section
variable {l r : List Char} {op : Comparison}

theorem Comparison.not_mem_text {c : Char} (hc : isRelational c = false) (op : Comparison) :
    c ∉ op.text.toList := by
  intro hmem
  cases op <;> simp_all [text, isRelational]

theorem Comparison.searched_eq (op : Comparison) :
    ∃ later, searched = op.earlier ++ op :: later := by
  cases op <;> exact ⟨_, rfl⟩

/-- No earlier operator is a part of a later one. -/
theorem Comparison.not_infix_of_mem_earlier {o : Comparison} (h : o ∈ op.earlier) :
    ¬o.text.toList <:+: op.text.toList := by
  revert h
  cases op <;> cases o <;> decide

theorem infix_compared_iff {o : Comparison} (h : o ∈ op.earlier) :
    o.text.toList <:+: compared l op r ↔ o.text.toList <:+: l ∨ o.text.toList <:+: r := by
  have hblank : ' ' ∉ o.text.toList := o.not_mem_text rfl
  rw [compared, infix_append_cons_iff hblank, infix_append_cons_iff hblank]
  simp [Comparison.not_infix_of_mem_earlier h]

theorem foremost_iff_compared : Foremost l op r ↔
    (∀ o ∈ op.earlier, ¬o.text.toList <:+: compared l op r) ∧ ¬op.text.toList <:+: l := by
  constructor
  · intro h
    refine ⟨fun o ho => ?_, h.first⟩
    rw [infix_compared_iff ho, not_or]
    exact h.apart o ho
  · intro h
    refine ⟨fun o ho => ?_, h.2⟩
    rw [← not_or, ← infix_compared_iff ho]
    exact h.1 o ho

theorem comparisonAt?_eq_some {text left right : List Char} {o : Comparison} :
    comparisonAt? text o = some (left, op, right) ↔
      o = op ∧ ∃ before after, cut? op.text.toList text = some (before, after) ∧
        trim before = left ∧ trim after = right := by
  rw [comparisonAt?, Option.map_eq_some_iff]
  constructor
  · rintro ⟨⟨before, after⟩, hcut, heq⟩
    obtain ⟨hleft, rfl, hright⟩ := by simpa only [Prod.mk.injEq] using heq
    exact ⟨rfl, before, after, hcut, hleft, hright⟩
  · rintro ⟨rfl, before, after, hcut, rfl, rfl⟩
    exact ⟨(before, after), hcut, rfl⟩

theorem comparisonAt?_eq_none {text : List Char} :
    comparisonAt? text op = none ↔ ¬op.text.toList <:+: text := by
  rw [comparisonAt?, Option.map_eq_none_iff, cut?_eq_none_iff]

/-- The search ends at the first operator that stands in the text. -/
theorem searched_eq_some_iff {text left right : List Char} :
    Comparison.searched.findSome? (comparisonAt? text) = some (left, op, right) ↔
      (∀ o ∈ op.earlier, ¬o.text.toList <:+: text) ∧
        comparisonAt? text op = some (left, op, right) := by
  rw [List.findSome?_eq_some_iff]
  constructor
  · rintro ⟨before, o, after, hsearched, hfound, hnone⟩
    obtain ⟨rfl, -⟩ := comparisonAt?_eq_some.mp hfound
    have hbefore : ∀ o' ∈ before, decide (o' ≠ o) = true := by
      intro o' ho'
      rw [decide_eq_true_eq]
      rintro rfl
      simp [hnone _ ho'] at hfound
    have hearlier : o.earlier = before := by
      rw [Comparison.earlier, hsearched, List.takeWhile_append_of_pos hbefore]
      simp
    rw [hearlier]
    exact ⟨fun o' ho' => comparisonAt?_eq_none.mp (hnone o' ho'), hfound⟩
  · rintro ⟨hearlier, hfound⟩
    obtain ⟨later, hsearched⟩ := op.searched_eq
    exact ⟨_, op, later, hsearched, hfound, fun o ho => comparisonAt?_eq_none.mpr (hearlier o ho)⟩

theorem splitCondition_eq_ok_iff {text left right : List Char} :
    splitCondition text = .ok (left, op, right) ↔
      (∀ o ∈ op.earlier, ¬o.text.toList <:+: text) ∧
        comparisonAt? text op = some (left, op, right) ∧ left ≠ [] ∧ right ≠ [] := by
  rw [← and_assoc, ← searched_eq_some_iff, splitCondition]
  cases hfound : Comparison.searched.findSome? (comparisonAt? text) with
  | none => simp [fail]
  | some found =>
    obtain ⟨left', op', right'⟩ := found
    by_cases hempty : left' = [] ∨ right' = []
    · have hside : (left'.isEmpty || right'.isEmpty) = true := by simpa using hempty
      simp only [hside, if_true, fail, reduceCtorEq, Option.some.injEq, Prod.mk.injEq, false_iff]
      rintro ⟨⟨rfl, rfl, rfl⟩, hleft, hright⟩
      exact hempty.elim hleft hright
    · have hside : (left'.isEmpty || right'.isEmpty) = false := by simpa using hempty
      simp only [hside, Bool.false_eq_true, if_false, Except.ok.injEq, Option.some.injEq]
      constructor
      · rintro h
        obtain ⟨rfl, rfl, rfl⟩ := by simpa only [Prod.mk.injEq] using h
        exact ⟨rfl, not_or.mp hempty⟩
      · exact fun h => h.1

/-- A condition is cut behind a part of its left side if that holds the operator. -/
theorem trim_ne_of_infix {before after rest : List Char} (hoccurs : op.text.toList <:+: l)
    (hcut : cut? op.text.toList (l ++ rest) = some (before, after)) : trim before ≠ trim l := by
  obtain ⟨front, back, hl⟩ := hoccurs
  have hwhole : l ++ rest = front ++ (op.text.toList ++ (back ++ rest)) := by
    simp [← hl]
  have hbefore : before <+: l ++ rest :=
    ⟨op.text.toList ++ after, by rw [eq_of_cut?_eq_some hcut, List.append_assoc]⟩
  have hprefix : before <+: front :=
    List.prefix_of_prefix_length_le hbefore ⟨_, hwhole.symm⟩ (length_le_of_cut? hcut hwhole)
  obtain ⟨more, rfl⟩ := hprefix
  intro htrim
  have hfilter : before.filter (!isBlank ·) = l.filter (!isBlank ·) := by
    rw [← filter_trim before, htrim, filter_trim]
  have hlength := congrArg List.length hfilter
  have hop : 0 < (op.text.toList.filter (!isBlank ·)).length := by
    cases op <;> decide
  simp only [← hl, List.filter_append, List.length_append] at hlength
  omega

theorem cut?_compared (h : ¬op.text.toList <:+: l) :
    cut? op.text.toList (compared l op r) = some (l ++ [' '], ' ' :: r) := by
  have hblank : ' ' ∉ op.text.toList := op.not_mem_text rfl
  have hwhole : compared l op r = (l ++ [' ']) ++ (op.text.toList ++ ' ' :: r) := by
    simp [compared]
  rw [hwhole]
  refine cut?_append _ fun tail htail hne hprefix => h ?_
  obtain ⟨t, rfl, ht⟩ := (List.suffix_concat_iff.mp htail).resolve_left hne
  rw [List.append_assoc, List.singleton_append, prefix_append_cons_iff hblank] at hprefix
  exact hprefix.isInfix.trans ht.isInfix

theorem splitCondition_compared_iff (op : Comparison) (hl : trim l ≠ []) (hr : trim r ≠ []) :
    splitCondition (compared l op r) = .ok (trim l, op, trim r) ↔ Foremost l op r := by
  rw [splitCondition_eq_ok_iff, foremost_iff_compared]
  refine and_congr_right fun _ => ⟨fun h => ?_, fun h => ?_⟩
  · obtain ⟨-, before, after, hcut, htrim, -⟩ := comparisonAt?_eq_some.mp h.1
    exact fun hoccurs => trim_ne_of_infix hoccurs hcut htrim
  · have hblank : Blanks [' '] := List.forall_mem_singleton.mpr rfl
    have hleft : trim (l ++ [' ']) = trim l := trim_append_blanks l blanks_nil hblank
    have hright : trim (' ' :: r) = trim r := by
      simpa using trim_append_blanks r hblank blanks_nil
    exact ⟨comparisonAt?_eq_some.mpr ⟨rfl, _, _, cut?_compared h, hleft, hright⟩, hl, hr⟩

end

section
variable {scope : Scope} {l r : List Char} {a b : Expr} {op : Comparison}

/-- Of the characters of comparisons, those of the shifts alone stand in an expression. -/
theorem relational_of_readExpression (hscope : scope.Named) (h : readExpression scope l = .ok a) :
    '=' ∉ l ∧ ('<' ∈ l ↔ a.uses .shl = true) ∧ ('>' ∈ l ↔ a.uses .shr = true) := by
  rw [mem_iff_uses hscope h rfl, mem_iff_uses hscope h rfl, mem_iff_uses hscope h rfl]
  refine ⟨?_, ?_, ?_⟩
  · rintro ⟨op, -, hop⟩
    cases op <;> simp [BinOp.text] at hop
  · constructor
    · rintro ⟨op, hop, hmem⟩
      cases op <;> simp_all [BinOp.text]
    · exact fun h => ⟨.shl, h, by simp [BinOp.text]⟩
  · constructor
    · rintro ⟨op, hop, hmem⟩
      cases op <;> simp_all [BinOp.text]
    · exact fun h => ⟨.shr, h, by simp [BinOp.text]⟩

theorem foremost_iff_clear (hscope : scope.Named) (hl : readExpression scope l = .ok a)
    (hr : readExpression scope r = .ok b) : Foremost l op r ↔ op.Clear a b := by
  obtain ⟨heql, hltl, hgtl⟩ := relational_of_readExpression hscope hl
  obtain ⟨heqr, -, hgtr⟩ := relational_of_readExpression hscope hr
  have hnone {o : Comparison} (ho : '=' ∈ o.text.toList) :
      ¬o.text.toList <:+: l ∧ ¬o.text.toList <:+: r :=
    ⟨not_infix_of_not_mem ho heql, not_infix_of_not_mem ho heqr⟩
  have heq := hnone (o := .eq) (by decide)
  have hne := hnone (o := .ne) (by decide)
  have hge := hnone (o := .ge) (by decide)
  have hle := hnone (o := .le) (by decide)
  have hgt {text : List Char} : Comparison.gt.text.toList <:+: text ↔ '>' ∈ text :=
    List.singleton_infix_iff _ _
  have hlt {text : List Char} : Comparison.lt.text.toList <:+: text ↔ '<' ∈ text :=
    List.singleton_infix_iff _ _
  rw [foremost_iff]
  cases op
  case lt =>
    simpa [Comparison.earlier, Comparison.searched, Comparison.Clear, heq, hne, hge, hle, hgt, hlt,
      hltl, hgtl, hgtr] using and_comm
  all_goals
    simp [Comparison.earlier, Comparison.searched, Comparison.Clear, heq, hne, hge, hle, hgt, hgtl]

theorem readCondition_eq_ok_iff {text : List Char} {cond : Condition} :
    readCondition scope text = .ok cond ↔
      ∃ left right, splitCondition text = .ok (left, cond.op, right) ∧
        readExpression scope left = .ok cond.left ∧
        readExpression scope right = .ok cond.right := by
  constructor
  · intro h
    obtain ⟨⟨left, op, right⟩, hsplit, h⟩ := bind_eq_ok.mp (inContext_eq_ok h)
    obtain ⟨a, ha, h⟩ := bind_eq_ok.mp h
    obtain ⟨b, hb, h⟩ := bind_eq_ok.mp h
    obtain rfl := Except.ok.inj h
    exact ⟨left, right, hsplit, ha, hb⟩
  · rintro ⟨left, right, hsplit, ha, hb⟩
    simp [readCondition, readSides, hsplit, ha, hb, inContext]

/-- A condition that is cut inside a shift is refused, as no side starts with the rest of one. -/
theorem readCondition_of_pair (hscope : scope.Named) (op : Comparison)
    {text front back : List Char} {c : Char}
    (hop : op.text.toList = [c]) (hc : isRelational c = true)
    (htext : text = front ++ c :: c :: back) (hfront : c ∉ front)
    (hearlier : ∀ o ∈ op.earlier, ¬o.text.toList <:+: text) :
    ∃ e, readCondition scope text = .error e := by
  cases hread : readCondition scope text with
  | error e => exact ⟨e, rfl⟩
  | ok cond =>
    obtain ⟨left, right, hsplit, -, hright⟩ := readCondition_eq_ok_iff.mp hread
    have hfound : comparisonAt? text op = some (trim front, op, trim (c :: back)) := by
      refine comparisonAt?_eq_some.mpr ⟨rfl, front, c :: back, ?_, rfl, rfl⟩
      rw [hop, htext]
      exact cut?_singleton_append hfront _
    obtain ⟨hfirst, hat, -, -⟩ := splitCondition_eq_ok_iff.mp hsplit
    have hsame := (searched_eq_some_iff.mpr ⟨hearlier, hfound⟩).symm.trans
      (searched_eq_some_iff.mpr ⟨hfirst, hat⟩)
    simp only [Option.some.injEq, Prod.mk.injEq] at hsame
    rw [← hsame.2.2, trim_cons (isBlank_of_isRelational hc)] at hright
    exact absurd hright (readExpression_ne_ok hscope hc _)

theorem exists_pair_compared (hscope : scope.Named) (hl : readExpression scope l = .ok a)
    (hr : readExpression scope r = .ok b) {c : Char} (hc : isRelational c = true)
    (h : c ∈ l ∨ c ∉ op.text.toList ∧ c ∈ r) :
    ∃ front back, compared l op r = front ++ c :: c :: back ∧ c ∉ front := by
  by_cases hmem : c ∈ l
  · obtain ⟨front, back, rfl, hfront⟩ := exists_pair_of_mem hscope hl hc hmem
    exact ⟨front, back ++ ' ' :: (op.text.toList ++ ' ' :: r), by simp [compared], hfront⟩
  · obtain ⟨hop, hcr⟩ := h.resolve_left hmem
    obtain ⟨front, back, rfl, hfront⟩ := exists_pair_of_mem hscope hr hc hcr
    have hblank : c ≠ ' ' := by
      rintro rfl
      simp [isRelational] at hc
    exact ⟨l ++ ' ' :: (op.text.toList ++ ' ' :: front), back, by simp [compared],
      by simp [hmem, hblank, hop, hfront]⟩

/-- A condition with a shift in its way is refused. -/
theorem readCondition_of_not_clear (hscope : scope.Named) (hl : readExpression scope l = .ok a)
    (hr : readExpression scope r = .ok b) (h : ¬op.Clear a b) :
    ∃ e, readCondition scope (compared l op r) = .error e := by
  obtain ⟨heql, hltl, hgtl⟩ := relational_of_readExpression hscope hl
  obtain ⟨heqr, -, hgtr⟩ := relational_of_readExpression hscope hr
  have hequals : ∀ o ∈ Comparison.gt.earlier, '=' ∈ o.text.toList := by decide
  have hearlier {text : List Char} (h : '=' ∉ text) :
      ∀ o ∈ Comparison.gt.earlier, ¬o.text.toList <:+: text :=
    fun o ho => not_infix_of_not_mem (hequals o ho) h
  -- `>` is searched before `<`, so the first of them ends the search, whatever stands between the
  -- sides.
  have hgreater {op : Comparison} (hop : '=' ∉ op.text.toList)
      (h : '>' ∈ l ∨ '>' ∉ op.text.toList ∧ '>' ∈ r) :
      ∃ e, readCondition scope (compared l op r) = .error e := by
    obtain ⟨front, back, htext, hfront⟩ := exists_pair_compared hscope hl hr rfl h
    have hnone : '=' ∉ compared l op r := by simp [compared, heql, heqr, hop]
    exact readCondition_of_pair hscope .gt rfl rfl htext hfront (hearlier hnone)
  cases op with
  | gt => exact hgreater (by decide) (.inl (hgtl.mpr (by simpa [Comparison.Clear] using h)))
  | lt =>
    by_cases hgt : '>' ∈ l ∨ '>' ∈ r
    · exact hgreater (by decide) (hgt.imp_right fun h => ⟨by decide, h⟩)
    · rw [not_or] at hgt
      have hmem : '<' ∈ l := by
        by_contra hlt
        simp_all [Comparison.Clear]
      obtain ⟨front, back, htext, hfront⟩ := exists_pair_compared hscope hl hr rfl (.inl hmem)
      have hnone : '=' ∉ compared l .lt r ∧ '>' ∉ compared l .lt r := by
        simp [compared, Comparison.text, heql, heqr, hgt]
      refine readCondition_of_pair hscope .lt rfl rfl htext hfront ?_
      exact List.forall_mem_append.mpr ⟨hearlier hnone.1, List.forall_mem_singleton.mpr
        (not_infix_of_not_mem List.mem_cons_self hnone.2)⟩
  | eq | ne | ge | le => simp [Comparison.Clear] at h

end

/-- The operator between two sides is where a condition is cut exactly if the search meets no other
one before it, and then the condition compares the two sides. In a scope of identifiers only shifts
can be in the way, and a condition with such a shift is refused. -/
theorem condition_split {scope : Scope} {l r : List Char} {a b : Expr}
    (hl : readExpression scope l = .ok a) (hr : readExpression scope r = .ok b)
    (op : Comparison) :
    (splitCondition (compared l op r) = .ok (trim l, op, trim r) ↔ Foremost l op r) ∧
      (Foremost l op r → readCondition scope (compared l op r) = .ok ⟨a, op, b⟩) ∧
      (scope.Named → (Foremost l op r ↔ op.Clear a b) ∧
        (¬op.Clear a b → ∃ e, readCondition scope (compared l op r) = .error e)) := by
  have hsplit := splitCondition_compared_iff op (trim_ne_nil_of_readExpression hl)
    (trim_ne_nil_of_readExpression hr)
  refine ⟨hsplit, fun h => ?_, fun hscope => ⟨foremost_iff_clear hscope hl hr,
    readCondition_of_not_clear hscope hl hr⟩⟩
  exact readCondition_eq_ok_iff.mpr
    ⟨trim l, trim r, hsplit.mpr h, readExpression_trim hl, readExpression_trim hr⟩

theorem Scope.named_of_all {scope : Scope}
    (haddresses : (scope.addresses.all fun entry => isIdentifier entry.1.toList) = true)
    (hconstants : (scope.constants.all fun entry => isIdentifier entry.1.toList) = true) :
    scope.Named :=
  ⟨fun _ _ h => List.all_eq_true.mp haddresses _ (mem_of_lookup h),
    fun _ _ h => List.all_eq_true.mp hconstants _ (mem_of_lookup h)⟩

/-- A shift to the left is not in the way of `>`, nor is any shift behind it. -/
theorem condition_split_shl :
    readExpression sampleScope "(x << 1)".toList =
        .ok (.binary .shl (.term (.byte 0x40)) (.term (.immediate 1))) ∧
      readExpression sampleScope "y >> 1 ".toList =
        .ok (.binary .shr (.term (.byte 0x41)) (.term (.immediate 1))) ∧
      sampleScope.Named ∧
      splitCondition (compared "(x << 1)".toList .gt "y >> 1 ".toList) =
        .ok (trim "(x << 1)".toList, .gt, trim "y >> 1 ".toList) ∧
      readCondition sampleScope (compared "(x << 1)".toList .gt "y >> 1 ".toList) =
        .ok ⟨.binary .shl (.term (.byte 0x40)) (.term (.immediate 1)), .gt,
          .binary .shr (.term (.byte 0x41)) (.term (.immediate 1))⟩ := by
  have hl : readExpression sampleScope "(x << 1)".toList =
      .ok (.binary .shl (.term (.byte 0x40)) (.term (.immediate 1))) :=
    eq_ok_of_toOption (by decide +kernel)
  have hr : readExpression sampleScope "y >> 1 ".toList =
      .ok (.binary .shr (.term (.byte 0x41)) (.term (.immediate 1))) :=
    eq_ok_of_toOption (by decide +kernel)
  have hscope : sampleScope.Named := Scope.named_of_all (by decide) (by decide)
  obtain ⟨hsplit, hread, hnamed⟩ := condition_split hl hr .gt
  have hforemost := (hnamed hscope).1.mpr rfl
  exact ⟨hl, hr, hscope, hsplit.mpr hforemost, hread hforemost⟩

/-- A shift to the right before `>` is taken for it. -/
theorem condition_cut_in_shift :
    readExpression sampleScope "x >> 1".toList =
        .ok (.binary .shr (.term (.byte 0x40)) (.term (.immediate 1))) ∧
      readExpression sampleScope "y".toList = .ok (.term (.byte 0x41)) ∧
      splitCondition (compared "x >> 1".toList .gt "y".toList) =
        .ok ("x".toList, .gt, "> 1 > y".toList) ∧
      trim "x >> 1".toList ≠ "x".toList :=
  ⟨eq_ok_of_toOption (by decide +kernel), eq_ok_of_toOption (by decide +kernel), rfl, by decide⟩

end Toolchain6502.C
