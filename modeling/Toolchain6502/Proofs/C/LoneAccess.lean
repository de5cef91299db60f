import Toolchain6502.Proofs.C.AcceptedTexts

namespace Toolchain6502.C

open Cpu Text

variable {rest name text : List Char} {ts : List Token} {e : Expr}

/-- Up to the bracket that closes it, an access goes on as one atom. -/
theorem spanAtom_of_bracketBody? {depth : Nat} {body : List Char}
    (h : bracketBody? depth rest = some body) : spanAtom (depth + 1) rest = ⟨rest, [], 0⟩ := by
  fun_induction bracketBody? depth rest generalizing body with
  | case1 => simp at h
  | case2 cs hempty =>
    obtain rfl := List.isEmpty_iff.mp hempty
    rfl
  | case3 => simp at h
  | case4 cs depth ih =>
    obtain ⟨inner, hinner, -⟩ := Option.map_eq_some_iff.mp h
    exact spanAtom_cons_iff.mpr ⟨by simp, ih hinner⟩
  | case5 cs depth ih =>
    obtain ⟨inner, hinner, -⟩ := Option.map_eq_some_iff.mp h
    exact spanAtom_cons_iff.mpr ⟨by simp, ih hinner⟩
  | case6 cs c depth hfirst hmore hopen ih =>
    obtain ⟨inner, hinner, -⟩ := Option.map_eq_some_iff.mp h
    have hclose : c ≠ ']' := by
      rintro rfl
      cases depth with
      | zero => exact hfirst rfl rfl
      | succ depth => exact hmore depth rfl rfl
    refine spanAtom_cons_iff.mpr ⟨by simp, ?_⟩
    rw [bracketDepth_of_ne hopen hclose]
    exact ih hinner

theorem spanAtom_append_whole {depth : Nat} {front back : List Char}
    (hfront : spanAtom depth front = ⟨front, [], 0⟩) (hback : spanAtom 0 back = ⟨back, [], 0⟩) :
    spanAtom depth (front ++ back) = ⟨front ++ back, [], 0⟩ := by
  induction front generalizing depth with
  | nil =>
    obtain rfl : depth = 0 := by simpa [spanAtom] using hfront
    exact hback
  | cons c front ih =>
    obtain ⟨hends, hinner⟩ := spanAtom_cons_iff.mp hfront
    exact spanAtom_cons_iff.mpr ⟨hends, ih hinner⟩

theorem WholeAtom.append {front back : List Char} (hfront : WholeAtom front)
    (hback : WholeAtom back) : WholeAtom (front ++ back) :=
  ⟨by simp [hfront.1], spanAtom_append_whole hfront.2 hback.2⟩

theorem wholeAtom_of_bodyText? {address : String}
    (hname : ∀ c ∈ name, endsAtom c = false ∧ c ≠ '[' ∧ c ≠ ']') (h : bodyText? rest = some address) :
    WholeAtom (name ++ '[' :: rest) := by
  obtain ⟨body, hbody, -⟩ := Option.map_eq_some_iff.mp h
  exact wholeAtom_opening hname (spanAtom_of_bracketBody? hbody)

/-- Every bracket that an atom opens is closed in it. -/
theorem count_of_spanAtom {depth : Nat} (h : spanAtom depth text = ⟨text, [], 0⟩) :
    depth + text.count '[' ≤ text.count ']' := by
  induction text generalizing depth with
  | nil =>
    obtain rfl : depth = 0 := by simpa [spanAtom] using h
    simp
  | cons c text ih =>
    have hrest := ih (spanAtom_cons_iff.mp h).2
    by_cases hopen : c = '['
    · subst hopen
      simp only [bracketDepth] at hrest
      simp
      omega
    by_cases hclose : c = ']'
    · subst hclose
      simp only [bracketDepth] at hrest
      simp
      omega
    rw [bracketDepth_of_ne hopen hclose] at hrest
    simpa [hopen, hclose] using hrest

theorem Scanned.count_le (h : Scanned ts text) : text.count '[' ≤ text.count ']' := by
  have hblank {blanks : List Char} (h : Blanks blanks) : blanks.count '[' = 0 :=
    List.count_eq_zero.mpr (h.not_mem rfl)
  induction h with
  | nil h => simp [hblank h]
  | @symbol blanks text t ts h ht _ ih =>
    have ht : t.text.count '[' = 0 := by
      cases t with
      | op o => cases o <;> rfl
      | complement => rfl
      | opening => rfl
      | closing => rfl
      | atom text => simp [Token.isAtom] at ht
    simp only [List.count_append, hblank h, ht]
    omega
  | atom h hatom _ _ ih =>
    have hatom := count_of_spanAtom hatom.2
    simp only [List.count_append, hblank h]
    omega

section
variable {scope : Scope}

theorem Parsed.apart (h : Parsed scope e ts) : ts.IsChain Token.Apart := by
  induction h with
  | atom h => exact .singleton _
  | complement _ ih => exact Token.Apart.cons rfl ih
  | binary _ _ ihl ihr => exact Token.Apart.append_cons rfl ihl ihr
  | parentheses _ ih => exact Token.Apart.cons rfl (Token.Apart.append_cons rfl ih .nil)

theorem Scanned.exists_atom {blanks : List Char} {c : Char} (h : Scanned ts (blanks ++ c :: text))
    (hblanks : Blanks blanks) (hc : endsAtom c = false) : ∃ atom us, ts = .atom atom :: us := by
  have hblank := isBlank_of_endsAtom hc
  have htokens := tokens_eq_ok_iff.mpr h
  rw [tokens_blanks hblanks] at htokens
  generalize hwhole : c :: text = whole at htokens
  cases tokens_eq_ok_iff.mp htokens with
  | nil h => simp [h c (by simp [← hwhole])] at hblank
  | @symbol front rest t us hfront ht _ =>
    obtain ⟨d, cs, htext, hends, -⟩ := Token.exists_text_eq ht
    rw [htext] at hwhole
    cases front with
    | nil =>
      obtain ⟨rfl, -⟩ := List.cons.inj hwhole
      simp [hends] at hc
    | cons b front =>
      obtain ⟨rfl, -⟩ := List.cons.inj hwhole
      simp [hfront c List.mem_cons_self] at hblank
  | atom => exact ⟨_, _, rfl⟩

/-- An expression does not go on with an atom behind an atom and a blank. -/
theorem not_parsed_of_gap {atom blanks : List Char} {c : Char} (hatom : WholeAtom atom)
    (hblanks : Blanks blanks) (hne : blanks ≠ []) (hc : endsAtom c = false)
    (h : Scanned ts (atom ++ (blanks ++ c :: text))) : ¬Parsed scope e ts := by
  have hends : ∀ d ∈ (blanks ++ c :: text).head?, endsAtom d = true := by
    intro d hd
    rw [List.head?_append_of_ne_nil _ hne] at hd
    simp [endsAtom, hblanks d (List.mem_of_mem_head? hd)]
  have htokens := tokens_eq_ok_iff.mpr h
  rw [tokens_atom hatom hends] at htokens
  cases hus : tokens (blanks ++ c :: text) with
  | error fault => simp [hus, Except.map] at htokens
  | ok us =>
    obtain rfl : .atom atom :: us = ts := by simpa [hus, Except.map] using htokens
    obtain ⟨next, vs, rfl⟩ := (tokens_eq_ok_iff.mp hus).exists_atom hblanks hc
    intro hparsed
    rcases (List.isChain_cons_cons.mp hparsed.apart).1 with hfirst | hnext
    · simp [Token.isAtom] at hfirst
    · simp [Token.isAtom] at hnext

theorem spriteField?_plain {name : String} {k : Nat} (h : spriteField? name = some k) :
    name.toList ≠ [] ∧ ∀ c ∈ name.toList, endsAtom c = false ∧ c ≠ '[' ∧ c ≠ ']' := by
  unfold spriteField? at h
  split at h
  case h_12 => simp at h
  all_goals simp [endsAtom, isBlank]

/-- The parts of a text that is read as the index and the field of a sprite. -/
theorem exists_eq_of_splitSprite? {token : List Char} {k : Nat}
    (h : splitSprite? rest = some (token, k)) :
    ∃ index gap space field back,
      rest = index ++ ']' :: (gap ++ '.' :: (space ++ field ++ back)) ∧ ']' ∉ index ∧
        Blanks gap ∧ Blanks space ∧ Blanks back ∧ spriteField? (String.ofList field) = some k := by
  unfold splitSprite? at h
  split at h
  · simp at h
  · next index after hcut =>
    split at h
    · next field hafter =>
      split at h
      · simp at h
      · obtain ⟨k, hk, heq⟩ := Option.map_eq_some_iff.mp h
        obtain ⟨-, rfl⟩ := Prod.mk.inj heq
        obtain ⟨gap, hgap, htext⟩ := exists_trimLeft_eq after
        obtain ⟨space, back, hspace, hback, hfield⟩ := exists_trim_eq field
        refine ⟨index, gap, space, trim field, back, ?_, not_mem_of_cut? hcut, hgap, hspace, hback,
          hk⟩
        rw [eq_of_cut?_eq_some hcut, ← hfield, ← hafter, ← htext, List.append_assoc]
        rfl
    · simp at h

/-- No bracket is opened inside those of a sprite whose text can be cut into tokens. -/
theorem not_mem_index_of_scanned {ts : List Token} {name index rest : List Char}
    (hname : ']' ∉ name) (hclose : ']' ∉ index) (hrest : ']' ∉ rest)
    (h : Scanned ts (name ++ '[' :: (index ++ ']' :: rest))) : '[' ∉ index := by
  have hcount := h.count_le
  simp only [List.count_append, List.count_cons_self, List.count_cons_of_ne, ne_eq, Char.reduceEq,
    not_false_eq_true, List.count_eq_zero.mpr hclose, List.count_eq_zero.mpr hrest,
    List.count_eq_zero.mpr hname] at hcount
  exact List.count_eq_zero.mp (by omega)

/-- The field of a sprite is in the atom of its index: a blank before it would end the atom. -/
theorem wholeAtom_of_splitSprite? {e : Expr} {ts : List Token} {name rest token : List Char}
    {k : Nat} (hname : ∀ c ∈ name, endsAtom c = false ∧ c ≠ '[' ∧ c ≠ ']')
    (h : splitSprite? rest = some (token, k)) (htrimmed : Trimmed (name ++ '[' :: rest))
    (hts : Scanned ts (name ++ '[' :: rest)) (hparsed : Parsed scope e ts) :
    WholeAtom (name ++ '[' :: rest) := by
  obtain ⟨index, gap, space, field, back, rfl, hclose, hgap, hspace, hback, hk⟩ :=
    exists_eq_of_splitSprite? h
  obtain ⟨hne, hplain⟩ := spriteField?_plain hk
  rw [String.toList_ofList] at hne hplain
  obtain rfl : back = [] := by
    have hends : Trimmed
        (name ++ '[' :: (index ++ ']' :: (gap ++ '.' :: (space ++ field))) ++ back) := by
      simpa using htrimmed
    exact hends.eq_nil_of_blanks hback
  rw [List.append_nil] at hts ⊢
  have hrest : ']' ∉ gap ++ '.' :: (space ++ field) := by
    have hfield : ']' ∉ field := fun hmem => (hplain ']' hmem).2.2 rfl
    simp [hgap.not_mem, hspace.not_mem, hfield, isBlank]
  have hopen := not_mem_index_of_scanned (fun hmem => (hname ']' hmem).2.2 rfl) hclose hrest hts
  have hindex := wholeAtom_brackets hname hopen hclose
  obtain rfl : gap = [] := by
    by_contra hblank
    have hapart : Scanned ts
        ((name ++ '[' :: (index ++ [']'])) ++ (gap ++ '.' :: (space ++ field))) := by
      simpa using hts
    exact not_parsed_of_gap hindex hgap hblank (by decide) hapart hparsed
  have hdot : WholeAtom ['.'] := by simp [WholeAtom, spanAtom, bracketDepth, endsAtom, isBlank]
  obtain rfl : space = [] := by
    by_contra hblank
    obtain ⟨c, cs, rfl⟩ := List.exists_cons_of_ne_nil hne
    have hc := (hplain c List.mem_cons_self).1
    have hapart : Scanned ts
        ((name ++ '[' :: (index ++ [']']) ++ ['.']) ++ (space ++ c :: cs)) := by
      simpa using hts
    exact not_parsed_of_gap (hindex.append hdot) hspace hblank hc hapart hparsed
  simpa using hindex.append (hdot.append (wholeAtom_of_plain hne hplain))

theorem exists_name_of_afterOpening? {openings : List String} {text rest : List Char}
    (h : afterOpening? openings text = some rest)
    (hopenings : (openings.all fun o => o.toList.getLast? = some '[' &&
      o.toList.dropLast.all fun c => !endsAtom c && c != '[' && c != ']') = true) :
    ∃ name, (∀ c ∈ name, endsAtom c = false ∧ c ≠ '[' ∧ c ≠ ']') ∧ text = name ++ '[' :: rest := by
  obtain ⟨o, ho, rfl⟩ := eq_of_afterOpening?_eq_some h
  have hparts := List.all_eq_true.mp hopenings o ho
  simp only [Bool.and_eq_true, decide_eq_true_eq, List.all_eq_true, Bool.not_eq_true', bne_iff_ne]
    at hparts
  obtain ⟨hlast, hname⟩ := hparts
  refine ⟨o.toList.dropLast, fun c hc => and_assoc.mp (hname c hc), ?_⟩
  rw [← List.dropLast_append_getLast? '[' hlast]
  simp

theorem wholeAtom_of_readAccess {access : String}
    (haccess : readAccess scope text = .ok (some access)) (he : readExpression scope text = .ok e) :
    WholeAtom (trim text) := by
  obtain ⟨ts, -, hts, hread⟩ := readExpression_eq_ok_iff.mp he
  have hscanned := hts.trim
  have htrimmed := trimmed_trim text
  unfold readAccess at haccess
  dsimp only at haccess
  split at haccess
  · next rest hopening =>
    obtain ⟨name, hname, htext⟩ := exists_name_of_afterOpening? hopening (by decide)
    rw [htext]
    exact wholeAtom_of_bodyText? hname (Except.ok.inj haccess)
  · split at haccess
    · next rest hopening =>
      obtain ⟨name, hname, htext⟩ := exists_name_of_afterOpening? hopening (by decide)
      obtain ⟨body, hbody, -⟩ := Option.map_eq_some_iff.mp (Except.ok.inj haccess)
      rw [htext]
      exact wholeAtom_of_bodyText? hname hbody
    · split at haccess
      · next rest hopening =>
        obtain ⟨name, hname, htext⟩ := exists_name_of_afterOpening? hopening (by decide)
        rw [htext] at hscanned htrimmed ⊢
        unfold spriteAccess at haccess
        split at haccess
        · simp at haccess
        · next hsplit =>
          exact wholeAtom_of_splitSprite? hname hsplit htrimmed hscanned (readTokens_parsed hread)
      · simp at haccess

theorem Parsed.readAtom {atom : List Char} (h : Parsed scope e [.atom atom]) :
    readAtom scope atom = .ok e := by
  generalize hts : [Token.atom atom] = ts at h
  cases h with
  | atom h =>
    obtain ⟨rfl, -⟩ := List.cons.inj hts
    exact h
  | complement => simp at hts
  | @binary op left right us vs => cases us <;> simp at hts
  | parentheses => simp at hts

theorem readAccess_trim (text : List Char) :
    readAccess scope (trim text) = readAccess scope text := by
  rw [readAccess, readAccess, trim_trim]

/-- Where an access is also read as an expression, the expression is the value at its address. -/
theorem exists_readTarget_eq {access : String} (haccess : readAccess scope text = .ok (some access))
    (he : readExpression scope text = .ok e) :
    ∃ place, readTarget scope access = .ok place ∧ e = .memory place := by
  have hatom := wholeAtom_of_readAccess haccess he
  obtain ⟨ts, -, hts, hread⟩ := readExpression_eq_ok_iff.mp (readExpression_trim he)
  have hone : Scanned [.atom (trim text)] (trim text) := by
    simpa using Scanned.atom blanks_nil hatom (by simp) (.nil blanks_nil)
  obtain rfl : ts = [.atom (trim text)] :=
    Except.ok.inj ((tokens_eq_ok_iff.mpr hts).symm.trans (tokens_eq_ok_iff.mpr hone))
  have hvalue := (readTokens_parsed hread).readAtom
  rw [C.readAtom, readAccess_trim, haccess] at hvalue
  obtain ⟨_, hsame, hvalue⟩ := bind_eq_ok.mp hvalue
  obtain rfl := Except.ok.inj hsame
  obtain ⟨place, hplace, hvalue⟩ := bind_eq_ok.mp hvalue
  refine ⟨place, ?_, (Except.ok.inj hvalue).symm⟩
  rw [readTarget, hplace]
  rfl

theorem dropEnd?_eq_none {body : List Char} {c : Char} (ending : List Char)
    (h : body.getLast? ≠ some c) :
    dropEnd? (ending ++ [c, ';']) (body ++ [';']) = none := by
  cases hend : dropEnd? (ending ++ [c, ';']) (body ++ [';']) with
  | none => rfl
  | some rest =>
    have htext : body ++ [';'] = (rest ++ ending ++ [c]) ++ [';'] := by
      simpa using dropEnd?_eq_some.mp hend
    rw [List.append_cancel_right htext] at h
    simp at h

/-- A text with a `=` is an assignment, unless it ends as a call or a step does. -/
theorem readStatement_of_cut? {text body left right value : List Char}
    (htext : trim text = body ++ [';']) (hend : ∀ c ∈ [')', '+', '-'], body.getLast? ≠ some c)
    (hcut : cut? ['='] (body ++ [';']) = some (left, right))
    (hvalue : dropEnd? [';'] (trim right) = some value) :
    readStatement scope text = readAssignment scope (trim left) (trim value) := by
  have hreturn : body ++ [';'] ≠ "return;".toList := by
    intro heq
    have hmem : '=' ∈ "return;".toList := by
      rw [← heq, eq_of_cut?_eq_some hcut]
      simp
    simp at hmem
  have hcall : dropEnd? "();".toList (body ++ [';']) = none :=
    dropEnd?_eq_none ['('] (hend ')' (by simp))
  have hmore : dropEnd? "++;".toList (body ++ [';']) = none :=
    dropEnd?_eq_none ['+'] (hend '+' (by simp))
  have hless : dropEnd? "--;".toList (body ++ [';']) = none :=
    dropEnd?_eq_none ['-'] (hend '-' (by simp))
  unfold readStatement
  simp only [htext, hreturn, callTarget?, hcall, hmore, hless, hcut, hvalue, Option.map_none,
    if_false]

/-- The value of an assignment is what stands between the blanks around it. -/
theorem readStatement_assignment {left front before value back : List Char} (hleft : Trimmed left)
    (hne : left ≠ []) (hequals : '=' ∉ left) (hfront : Blanks front) (hbefore : Blanks before)
    (hback : Blanks back) (hvalue : Trimmed value) (hsome : value ≠ [])
    (hlast : ∀ c ∈ value.getLast?, endsAtom c = false) :
    readStatement scope (left ++ front ++ '=' :: (before ++ value ++ back ++ [';'])) =
      readAssignment scope left value := by
  have htext : trim (left ++ front ++ '=' :: (before ++ value ++ back ++ [';'])) =
      left ++ front ++ '=' :: (before ++ value ++ back) ++ [';'] := by
    have hsemicolon := hleft.append_concat (c := ';') hne rfl
      (front ++ '=' :: (before ++ value ++ back))
    simpa using hsemicolon.trim_eq
  have hend : ∀ c ∈ [')', '+', '-'],
      (left ++ front ++ '=' :: (before ++ value ++ back)).getLast? ≠ some c := by
    intro c hc hat
    have hends : isBlank c = false ∧ endsAtom c = true := by
      simp only [List.mem_cons, List.not_mem_nil, or_false] at hc
      rcases hc with rfl | rfl | rfl <;> decide
    have hparts : left ++ front ++ '=' :: (before ++ value ++ back) =
        (left ++ front ++ '=' :: before) ++ (value ++ back) := by simp
    rw [hparts, List.getLast?_append_of_ne_nil _ (by simp [hsome])] at hat
    rcases List.eq_nil_or_concat' back with rfl | ⟨blanks, d, rfl⟩
    · simp [hlast c (by simpa using hat)] at hends
    · obtain rfl : d = c := by simpa using hat
      exact hback.not_mem hends.1 (by simp)
  have hcut : cut? ['='] (left ++ front ++ '=' :: (before ++ value ++ back) ++ [';']) =
      some (left ++ front, before ++ value ++ back ++ [';']) := by
    rw [List.append_assoc, List.cons_append]
    refine cut?_singleton_append ?_ _
    simp [hequals, hfront.not_mem, isBlank]
  have hdrop : dropEnd? [';'] (trim (before ++ value ++ back ++ [';'])) = some (value ++ back) := by
    have hsemicolon := hvalue.append_concat (c := ';') hsome rfl back
    rw [dropEnd?_eq_some]
    simpa using hsemicolon.trim_append (by simp) hbefore blanks_nil
  have hname : trim (left ++ front) = left := by simpa using hleft.trim_append hne blanks_nil hfront
  have hread : trim (value ++ back) = value := by
    simpa using hvalue.trim_append hsome blanks_nil hback
  rw [readStatement_of_cut? htext hend hcut hdrop, hname, hread]

theorem readAssignment_access {value : List Char} {address : Int} {access : String}
    {place : Address} (hname : isIdentifier name = true)
    (haddress : scope.address? (String.ofList name) = some address)
    (haccess : readAccess scope value = .ok (some access))
    (hplace : readTarget scope access = .ok place) :
    readAssignment scope name value = .ok (.assign address (.memory place)) := by
  have hword := IsWord.of_isIdentifier hname
  have hcheck : checkIdentifier name = .ok () := by simp [checkIdentifier, hword.ne_nil, hname]
  have hfound : findVariable scope name = .ok address := by simp [findVariable, haddress]
  have hvalue : readValue scope value = .ok (.memory place) := by
    simp [readValue, haccess, hplace]
  simp [readAssignment, hword.readAccess, hcheck, inContext, hfound, hvalue]

end

/-- An access that is assigned to a variable is loaded at once, and the code is that of the access
read as an expression. Only a number that cannot be written keeps the statement from being
compiled. -/
theorem statement_lone_access {scope : Scope} {name front rhs : List Char} {address : Int}
    {access : String} {e : Expr} (hname : isIdentifier name = true)
    (haddress : scope.address? (String.ofList name) = some address) (hfront : Blanks front)
    (haccess : readAccess scope rhs = .ok (some access)) (he : readExpression scope rhs = .ok e) :
    ∃ place, readTarget scope access = .ok place ∧ e = .memory place ∧
      ∀ (p : Pass) (function : String), p.scope = scope →
        p.statement function (name ++ front ++ '=' :: (rhs ++ [';'])) =
            p.generate place.check (fun n => (place.access .lda ++ [onByte .sta address], n)) ∧
          p.statement function (name ++ front ++ '=' :: (rhs ++ [';'])) =
            p.generate e.check fun n => ((e.code n).1 ++ [onByte .sta address], (e.code n).2) := by
  obtain ⟨place, hplace, rfl⟩ := exists_readTarget_eq haccess he
  have hatom := wholeAtom_of_readAccess haccess he
  have hword := IsWord.of_isIdentifier hname
  obtain ⟨before, back, hbefore, hback, htext⟩ := exists_trim_eq rhs
  have hstatement : readStatement scope (name ++ front ++ '=' :: (rhs ++ [';'])) =
      .ok (.assign address (.memory place)) := by
    conv_lhs => rw [htext]
    rw [readStatement_assignment hword.trimmed hword.ne_nil (hword.not_mem rfl) hfront hbefore hback
      (trimmed_trim rhs) hatom.1 (spanAtom_getLast? hatom.2)]
    exact readAssignment_access hname haddress ((readAccess_trim rhs).trans haccess) hplace
  refine ⟨place, hplace, rfl, fun p function hscope => ?_⟩
  rw [Pass.statement, hscope, hstatement]
  exact ⟨rfl, rfl⟩

def heroScope : Scope where
  addresses := [("tile", 0x40)]
  constants := [("HERO", .whole 3), ("SPRITE_RAM", .whole 0x8100)]

def heroTile : List Char := " sprite[ HERO ].tile ".toList

/-- The index stands between blanks, and blanks stand around the access. -/
theorem heroTile_loaded :
    readAccess heroScope heroTile = .ok (some "SPRITE_RAM + 26") ∧
      ∀ (p : Pass) (function : String), p.scope = heroScope →
        p.statement function ("tile".toList ++ [' '] ++ '=' :: (heroTile ++ [';'])) =
          p.generate (.ok ()) fun n =>
            ([.instruction .lda (.absolute 0x811A), onByte .sta 0x40], n) := by
  have haccess : readAccess heroScope heroTile = .ok (some "SPRITE_RAM + 26") :=
    eq_ok_of_toOption (by decide +kernel)
  have hvalue : readExpression heroScope heroTile =
      .ok (.memory ⟨.whole 0x8100, some (.immediate (.whole 26))⟩) :=
    eq_ok_of_toOption (by decide +kernel)
  have hname : isIdentifier "tile".toList = true := by decide
  have hblank : Blanks [' '] := by simp [Blanks, isBlank]
  obtain ⟨place, -, hplace, hcode⟩ := statement_lone_access hname rfl hblank haccess hvalue
  obtain rfl := Expr.memory.inj hplace
  exact ⟨haccess, fun p function hscope => (hcode p function hscope).1⟩

end Toolchain6502.C
