import Toolchain6502.Proofs.C.Names
import Toolchain6502.Proofs.C.WrittenAtoms

namespace Toolchain6502.C

open Text

variable {text rest blanks token : List Char} {t : Token} {ts : List Token} {e : Expr}

/-- The tokens that a text is cut into, with the blanks between them. An atom goes on up to the
first character that ends it. -/
inductive Scanned : List Token → List Char → Prop
  | nil {blanks : List Char} (h : Blanks blanks) : Scanned [] blanks
  | symbol {blanks text : List Char} {t : Token} {ts : List Token} (hblanks : Blanks blanks)
      (ht : t.isAtom = false) (h : Scanned ts text) :
      Scanned (t :: ts) (blanks ++ (t.text ++ text))
  | atom {blanks atom text : List Char} {ts : List Token} (hblanks : Blanks blanks)
      (hatom : WholeAtom atom) (hends : ∀ c ∈ text.head?, endsAtom c = true) (h : Scanned ts text) :
      Scanned (.atom atom :: ts) (blanks ++ (atom ++ text))

theorem eq_of_symbolToken?_eq_some (h : symbolToken? text = some (t, rest)) :
    t.isAtom = false ∧ text = t.text ++ rest := by
  unfold symbolToken? at h
  split at h
  all_goals
    first
    | obtain ⟨rfl, rfl⟩ := Prod.mk.inj (Option.some.inj h)
      exact ⟨rfl, rfl⟩
    | simp at h

theorem eq_of_spanAtom_eq {depth : Nat} {atom : List Char}
    (h : spanAtom depth text = ⟨atom, rest, 0⟩) :
    text = atom ++ rest ∧ spanAtom depth atom = ⟨atom, [], 0⟩ ∧
      ∀ c ∈ rest.head?, endsAtom c = true := by
  induction text generalizing depth atom with
  | nil =>
    obtain ⟨rfl, rfl, rfl⟩ := AtomSpan.mk.inj h
    simp [spanAtom]
  | cons c text ih =>
    rw [spanAtom] at h
    split at h
    · next hc =>
      obtain ⟨rfl, rfl, -⟩ := AtomSpan.mk.inj h
      simp only [Bool.and_eq_true, decide_eq_true_eq] at hc
      simp [spanAtom, hc]
    · next hc =>
      obtain ⟨rfl, hrest, hleft⟩ := AtomSpan.mk.inj h
      have hspan : spanAtom (bracketDepth depth c) text =
          ⟨(spanAtom (bracketDepth depth c) text).atom, rest, 0⟩ := by
        rw [← hrest, ← hleft]
      obtain ⟨htext, hatom, hends⟩ := ih hspan
      refine ⟨congrArg (c :: ·) htext, ?_, hends⟩
      rw [spanAtom, if_neg hc, hatom]

theorem Scanned.blanks_append (hblanks : Blanks blanks) (h : Scanned ts text) :
    Scanned ts (blanks ++ text) := by
  have hmore {more : List Char} (hmore : Blanks more) : Blanks (blanks ++ more) :=
    List.forall_mem_append.mpr ⟨hblanks, hmore⟩
  cases h with
  | nil h => exact .nil (hmore h)
  | symbol h ht hts =>
    rw [← List.append_assoc]
    exact .symbol (hmore h) ht hts
  | atom h hatom hends hts =>
    rw [← List.append_assoc]
    exact .atom (hmore h) hatom hends hts

theorem scanned_of_tokens (h : tokens text = .ok ts) : Scanned ts text := by
  fun_induction tokens text generalizing ts with
  | case1 =>
    obtain rfl := Except.ok.inj h
    exact .nil blanks_nil
  | case2 c rest hc ih => exact (ih h).blanks_append (List.forall_mem_singleton.mpr hc)
  | case3 c rest hc t more hsymbol ih =>
    obtain ⟨others, hothers, h⟩ := bind_eq_ok.mp h
    obtain rfl := Except.ok.inj h
    obtain ⟨ht, htext⟩ := eq_of_symbolToken?_eq_some hsymbol
    rw [htext]
    exact .symbol blanks_nil ht (ih hothers)
  | case4 => simp at h
  | case5 => simp at h
  | case6 c rest hc hsymbol d atom more hspan ih =>
    obtain ⟨others, hothers, h⟩ := bind_eq_ok.mp h
    obtain rfl := Except.ok.inj h
    obtain ⟨htext, hatom, hends⟩ := eq_of_spanAtom_eq hspan
    rw [htext]
    exact .atom blanks_nil ⟨by simp, hatom⟩ hends (ih hothers)

theorem tokens_eq_ok_iff : tokens text = .ok ts ↔ Scanned ts text := by
  refine ⟨scanned_of_tokens, fun h => ?_⟩
  induction h with
  | nil h => exact tokens_of_spaced (.nil h) (by simp) .nil
  | symbol hblanks ht _ ih => rw [tokens_blanks hblanks, tokens_symbol ht, ih]; rfl
  | atom hblanks hatom hends _ ih => rw [tokens_blanks hblanks, tokens_atom hatom hends, ih]; rfl

theorem spanAtom_getLast? {depth : Nat} (h : spanAtom depth text = ⟨text, [], 0⟩) :
    ∀ c ∈ text.getLast?, endsAtom c = false := by
  induction text generalizing depth with
  | nil => simp
  | cons c text ih =>
    obtain ⟨hends, hinner⟩ := spanAtom_cons_iff.mp h
    cases text with
    | cons d text => exact fun e he => ih hinner e (by simpa using he)
    | nil =>
      -- The last character closes the last bracket, or it is outside of all brackets.
      have hdepth : bracketDepth depth c = 0 := congrArg AtomSpan.left hinner
      intro e he
      obtain rfl : c = e := by simpa using he
      unfold bracketDepth at hdepth
      split at hdepth
      · omega
      · rfl
      · exact hends hdepth

theorem Token.getLast?_text (h : t.isAtom = false) : ∀ c ∈ t.text.getLast?, isBlank c = false := by
  cases t with
  | op o => cases o <;> simp [text, BinOp.text, isBlank]
  | complement => simp [text, isBlank]
  | opening => simp [text, isBlank]
  | closing => simp [text, isBlank]
  | atom text => simp [isAtom] at h

/-- Blanks behind a text begin behind each of its fronts that ends with another character. -/
theorem exists_append_of_blanks {front : List Char}
    (hlast : ∀ c ∈ front.getLast?, isBlank c = false) (hblanks : Blanks blanks)
    (h : text ++ blanks = front ++ rest) :
    ∃ more, text = front ++ more ∧ more ++ blanks = rest := by
  rcases List.append_eq_append_iff.mp h with ⟨more, hfront, hrest⟩ | ⟨more, htext, hrest⟩
  · rcases List.eq_nil_or_concat more with rfl | ⟨most, c, rfl⟩
    · exact ⟨[], by simpa using hfront.symm, by simpa using hrest⟩
    · have hc := hlast c (by rw [hfront]; simp)
      have hmem : c ∈ blanks := by rw [hrest]; simp
      exact absurd hmem (hblanks.not_mem hc)
  · exact ⟨more, htext, hrest.symm⟩

theorem Scanned.of_append_blanks (h : Scanned ts (text ++ blanks)) (hblanks : Blanks blanks) :
    Scanned ts text := by
  generalize hwhole : text ++ blanks = whole at h
  induction h generalizing text with
  | nil h =>
    rw [← hwhole] at h
    exact .nil (List.forall_mem_append.mp h).1
  | @symbol front rest t ts hfront ht _ ih =>
    obtain ⟨c, cs, htext, -, -⟩ := Token.exists_text_eq ht
    have hlast : ∀ c ∈ (front ++ t.text).getLast?, isBlank c = false := by
      rw [List.getLast?_append_of_ne_nil _ (by simp [htext])]
      exact Token.getLast?_text ht
    rw [← List.append_assoc] at hwhole
    obtain ⟨more, rfl, hmore⟩ := exists_append_of_blanks hlast hblanks hwhole
    rw [List.append_assoc]
    exact .symbol hfront ht (ih hmore)
  | @atom front atom rest ts hfront hatom hends _ ih =>
    have hlast : ∀ c ∈ (front ++ atom).getLast?, isBlank c = false := by
      rw [List.getLast?_append_of_ne_nil _ hatom.1]
      exact fun c hc => isBlank_of_endsAtom (spanAtom_getLast? hatom.2 c hc)
    rw [← List.append_assoc] at hwhole
    obtain ⟨more, rfl, hmore⟩ := exists_append_of_blanks hlast hblanks hwhole
    rw [List.append_assoc]
    refine .atom hfront hatom (fun c hc => hends c ?_) (ih hmore)
    rw [← hmore, List.head?_append, Option.mem_def, Option.or_eq_some_iff]
    exact .inl hc

/-- The tokens of a text are those of what stands between its blanks. -/
theorem Scanned.trim (h : Scanned ts text) : Scanned ts (trim text) := by
  obtain ⟨front, back, hfront, hback, htext⟩ := exists_trim_eq text
  have htokens := tokens_eq_ok_iff.mpr h
  rw [htext, List.append_assoc, tokens_blanks hfront] at htokens
  exact (tokens_eq_ok_iff.mp htokens).of_append_blanks hback

def Expr.uses (op : BinOp) : Expr → Bool
  | term _ => false
  | memory _ => false
  | complement e => e.uses op
  | binary o left right => o = op || left.uses op || right.uses op

/-- The tokens that are read to an expression, with parentheses at any place. -/
inductive Parsed (scope : Scope) : Expr → List Token → Prop
  | atom {e : Expr} {t : Token} (h : readAtom scope t.text = .ok e) : Parsed scope e [t]
  | complement {e : Expr} {ts : List Token} (h : Parsed scope e ts) :
      Parsed scope (.complement e) (.complement :: ts)
  | binary {op : BinOp} {left right : Expr} {ts us : List Token} (hl : Parsed scope left ts)
      (hr : Parsed scope right us) : Parsed scope (.binary op left right) (ts ++ .op op :: us)
  | parentheses {e : Expr} {ts : List Token} (h : Parsed scope e ts) :
      Parsed scope e (.opening :: (ts ++ [.closing]))

/-- Whatever is read is read from the tokens before the remaining ones. -/
def Reader.Sound (scope : Scope) (reader : Reader) : Prop :=
  ∀ ts e rest, reader ts = .ok (e, rest) → ∃ used, ts = used ++ rest ∧ Parsed scope e used

section
variable {scope : Scope}

theorem readMore_parsed {operand : Reader} (hoperand : operand.Sound scope) {ops : List BinOp}
    {count : Nat} {left : Expr} {us rest : List Token} (hleft : Parsed scope left us)
    (h : readMore operand ops count left ts = .ok (e, rest)) :
    ∃ used, ts = used ++ rest ∧ Parsed scope e (us ++ used) := by
  have hnone {left : Expr} {ts us : List Token} (hleft : Parsed scope left us)
      (h : Except.ok (left, ts) = (.ok (e, rest) : Except Failure _)) :
      ∃ used, ts = used ++ rest ∧ Parsed scope e (us ++ used) := by
    obtain ⟨rfl, rfl⟩ := Prod.mk.inj (Except.ok.inj h)
    exact ⟨[], rfl, by simpa using hleft⟩
  fun_induction readMore operand ops count left ts generalizing us with
  | case1 => exact hnone hleft h
  | case2 n left o more ho ih =>
    obtain ⟨⟨right, others⟩, hright, hmore⟩ := bind_eq_ok.mp h
    obtain ⟨vs, rfl, hvs⟩ := hoperand _ _ _ hright
    obtain ⟨used, rfl, hused⟩ := ih right others (.binary hleft hvs) hmore
    exact ⟨.op o :: (vs ++ used), by simp, by simpa using hused⟩
  | case3 => exact hnone hleft h
  | case4 => exact hnone hleft h

theorem Reader.Sound.readLevel {operand : Reader} (hoperand : operand.Sound scope)
    (ops : List BinOp) : Sound scope (readLevel operand ops) := by
  intro ts e rest h
  obtain ⟨⟨left, more⟩, hleft, hmore⟩ := bind_eq_ok.mp h
  obtain ⟨us, rfl, hus⟩ := hoperand _ _ _ hleft
  obtain ⟨used, rfl, hused⟩ := readMore_parsed hoperand hus hmore
  exact ⟨us ++ used, by simp, hused⟩

theorem Reader.Sound.readLevels {operand : Reader} (hoperand : operand.Sound scope) :
    Sound scope (readLevels operand) := by
  unfold C.readLevels
  induction levels with
  | nil => exact hoperand
  | cons ops levels ih => exact ih.readLevel ops

theorem readOperand_sound (depth : Nat) : Reader.Sound scope (readOperand scope depth) := by
  induction depth with
  | zero => simp [Reader.Sound, readOperand, fail]
  | succ depth ih =>
    intro ts e rest h
    unfold readOperand at h
    split at h
    · next heq => exact absurd heq (Nat.succ_ne_zero depth)
    · simp [fail] at h
    · simp [fail] at h
    · next heq =>
      obtain rfl := Nat.succ.inj heq
      obtain ⟨⟨inner, more⟩, hinner, h⟩ := bind_eq_ok.mp h
      obtain ⟨rfl, rfl⟩ := Prod.mk.inj (Except.ok.inj h)
      obtain ⟨used, rfl, hused⟩ := ih _ _ _ hinner
      exact ⟨_, rfl, hused.complement⟩
    · next heq =>
      obtain rfl := Nat.succ.inj heq
      obtain ⟨⟨inner, more⟩, hinner, hend⟩ := bind_eq_ok.mp h
      obtain ⟨used, rfl, hused⟩ := ih.readLevels _ _ _ hinner
      dsimp only at hend
      split at hend
      · obtain ⟨rfl, rfl⟩ := Prod.mk.inj (Except.ok.inj hend)
        exact ⟨_, by simp, hused.parentheses⟩
      · simp [fail] at hend
    · obtain ⟨inner, hinner, h⟩ := bind_eq_ok.mp h
      obtain ⟨rfl, rfl⟩ := Prod.mk.inj (Except.ok.inj h)
      exact ⟨[_], rfl, .atom hinner⟩

theorem readTokens_parsed (h : readTokens scope ts = .ok e) : Parsed scope e ts := by
  obtain ⟨⟨inner, rest⟩, hinner, hend⟩ := bind_eq_ok.mp h
  obtain ⟨used, rfl, hused⟩ := (readOperand_sound _).readLevels _ _ _ hinner
  cases rest with
  | nil =>
    obtain rfl := Except.ok.inj hend
    simpa using hused
  | cons t rest => simp [fail] at hend

theorem readExpression_eq_ok_iff :
    readExpression scope text = .ok e ↔
      ∃ ts, ts ≠ [] ∧ Scanned ts text ∧ readTokens scope ts = .ok e := by
  constructor
  · intro h
    obtain ⟨ts, hts, hread⟩ := bind_eq_ok.mp (inContext_eq_ok h)
    cases htokens : tokens text with
    | error fault => simp [tokenize, htokens, failWith] at hts
    | ok us =>
      have hne : us ≠ [] := by
        rintro rfl
        simp [tokenize, htokens, failWith] at hts
      obtain rfl : us = ts := by simpa [tokenize, htokens, failWith, hne] using hts
      exact ⟨us, hne, tokens_eq_ok_iff.mp htokens, hread⟩
  · rintro ⟨ts, hne, hts, hread⟩
    simp [readExpression, tokenize, tokens_eq_ok_iff.mpr hts, failWith, hne, hread, inContext]

/-- The blanks around an expression do not matter. -/
theorem readExpression_trim (h : readExpression scope text = .ok e) :
    readExpression scope (trim text) = .ok e := by
  obtain ⟨ts, hne, hts, hread⟩ := readExpression_eq_ok_iff.mp h
  exact readExpression_eq_ok_iff.mpr ⟨ts, hne, hts.trim, hread⟩

theorem trim_ne_nil_of_readExpression (h : readExpression scope text = .ok e) : trim text ≠ [] := by
  obtain ⟨ts, hne, hts, -⟩ := readExpression_eq_ok_iff.mp (readExpression_trim h)
  intro hnil
  rw [hnil] at hts
  have hnone := tokens_eq_ok_iff.mpr (.nil blanks_nil)
  exact hne (Except.ok.inj ((tokens_eq_ok_iff.mpr hts).symm.trans hnone))

def isRelational (c : Char) : Bool := ['=', '!', '<', '>'].contains c

theorem eq_of_isRelational {c : Char} (h : isRelational c = true) :
    c = '=' ∨ c = '!' ∨ c = '<' ∨ c = '>' := by
  simpa [isRelational] using h

theorem isBlank_of_isRelational {c : Char} (h : isRelational c = true) : isBlank c = false := by
  rcases eq_of_isRelational h with rfl | rfl | rfl | rfl <;> rfl

def Plain (text : List Char) : Prop := ∀ c ∈ text, isRelational c = false

theorem plain_append {front back : List Char} :
    Plain (front ++ back) ↔ Plain front ∧ Plain back :=
  List.forall_mem_append

theorem Blanks.plain (h : Blanks blanks) : Plain blanks := by
  intro c hc
  cases hrel : isRelational c with
  | false => rfl
  | true => exact absurd hc (h.not_mem (isBlank_of_isRelational hrel))

theorem plain_trim : Plain (trim text) ↔ Plain text := by
  obtain ⟨front, back, hfront, hback, htext⟩ := exists_trim_eq text
  constructor
  · intro h
    rw [htext]
    exact plain_append.mpr ⟨plain_append.mpr ⟨Blanks.plain hfront, h⟩, Blanks.plain hback⟩
  · intro h
    rw [htext] at h
    exact (plain_append.mp (plain_append.mp h).1).2

theorem IsWord.plain (h : IsWord text) : Plain text := by
  intro c hc
  cases hrel : isRelational c with
  | false => rfl
  | true =>
    rcases eq_of_isRelational hrel with rfl | rfl | rfl | rfl <;> exact absurd hc (h.not_mem rfl)

theorem isWord_of_readDecimal {v : Int} (h : readDecimal token = .ok v) : IsWord token := by
  unfold readDecimal at h
  split at h
  · next hdigits =>
    simp only [Bool.and_eq_true, Bool.not_eq_true', List.isEmpty_eq_false_iff,
      List.all_eq_true] at hdigits
    refine ⟨hdigits.1, fun c hc => isWordPart_of_isHexDigit ?_⟩
    simp [isHexDigit, hdigits.2 c hc]
  · simp [fail] at h

theorem hexDigits_of_readHex {digits : List Char} {v : Int} (h : readHex token digits = .ok v) :
    digits ≠ [] ∧ ∀ c ∈ digits, isHexDigit c = true := by
  unfold readHex at h
  dsimp only at h
  split at h
  · next hdigits =>
    simp only [Bool.and_eq_true, Bool.not_eq_true', List.isEmpty_eq_false_iff,
      List.all_eq_true] at hdigits
    exact hdigits.1
  · simp [fail] at h

theorem isWord_of_readLiteral {v : Int} (h : readLiteral token = .ok v) : IsWord token := by
  unfold readLiteral at h
  split at h
  · obtain ⟨hne, hdigits⟩ := hexDigits_of_readHex h
    exact (Numeral.zeroX hne hdigits).isWord
  · obtain ⟨hne, hdigits⟩ := hexDigits_of_readHex h
    exact (Numeral.dollar hne hdigits).isWord
  · exact isWord_of_readDecimal h

theorem isWord_of_readWord (hscope : scope.Named) {v : Number} (h : readWord scope token = .ok v) :
    IsWord token := by
  unfold readWord at h
  dsimp only at h
  split at h
  · simp [fail] at h
  · next hvalue => exact .of_isIdentifier (by simpa using hscope.2 _ _ hvalue)
  · cases hliteral : readLiteral token with
    | error e => simp [hliteral, Except.map] at h
    | ok v => exact isWord_of_readLiteral hliteral

theorem isWord_of_readTerm (hscope : scope.Named) {t : Term} (h : readTerm scope token = .ok t) :
    IsWord token := by
  unfold readTerm at h
  split at h
  · next haddress => exact .of_isIdentifier (by simpa using hscope.1 _ _ haddress)
  · obtain ⟨v, hv, -⟩ := bind_eq_ok.mp h
    exact isWord_of_readWord hscope hv

theorem mem_split (separator : Char) {c : Char} (h : c ∈ text) :
    c = separator ∨ ∃ part ∈ split separator text, c ∈ part := by
  induction text with
  | nil => simp at h
  | cons d text ih =>
    unfold split
    split_ifs with hd
    · rcases List.mem_cons.mp h with rfl | h
      · exact .inl hd
      · rcases ih h with h | ⟨part, hpart, hc⟩
        · exact .inl h
        · exact .inr ⟨part, List.mem_cons_of_mem _ hpart, hc⟩
    · rcases List.mem_cons.mp h with rfl | h
      · right
        split <;> simp
      · rcases ih h with h | ⟨part, hpart, hc⟩
        · exact .inl h
        · right
          split
          · next hnil => simp [hnil] at hpart
          · next first rest hsplit =>
            rw [hsplit] at hpart
            rcases List.mem_cons.mp hpart with rfl | hpart
            · exact ⟨_, List.mem_cons_self, List.mem_cons_of_mem _ hc⟩
            · exact ⟨part, List.mem_cons_of_mem _ hpart, hc⟩

theorem plain_of_readAddress (hscope : scope.Named) {a : Address}
    (h : readAddress scope text = .ok a) : Plain text := by
  have hparts : ∀ part ∈ ((split '+' text).map trim).filter fun part => !part.isEmpty,
      Plain part := by
    unfold readAddress at h
    split at h
    · next hparts =>
      obtain ⟨base, hbase, -⟩ := bind_eq_ok.mp h
      rw [hparts]
      exact List.forall_mem_singleton.mpr (isWord_of_readWord hscope hbase).plain
    · next hparts =>
      obtain ⟨base, hbase, h⟩ := bind_eq_ok.mp h
      obtain ⟨offset, hoffset, -⟩ := bind_eq_ok.mp h
      rw [hparts]
      exact List.forall_mem_cons.mpr ⟨(isWord_of_readWord hscope hbase).plain,
        List.forall_mem_singleton.mpr (isWord_of_readTerm hscope hoffset).plain⟩
    · simp [fail] at h
  intro c hc
  rcases mem_split '+' hc with rfl | ⟨part, hpart, hc⟩
  · rfl
  · refine plain_trim.mp ?_ c hc
    by_cases hnil : trim part = []
    · simp [hnil, Plain]
    · refine hparts _ (List.mem_filter.mpr ⟨List.mem_map_of_mem hpart, ?_⟩)
      simp [hnil]

theorem eq_of_bracketBody?_eq_some {depth : Nat} {body : List Char}
    (h : bracketBody? depth rest = some body) : rest = body ++ [']'] := by
  fun_induction bracketBody? depth rest generalizing body with
  | case1 => simp at h
  | case2 cs hempty =>
    obtain rfl := Option.some.inj h
    simp [List.isEmpty_iff.mp hempty]
  | case3 => simp at h
  | case4 cs depth ih =>
    obtain ⟨inner, hinner, rfl⟩ := Option.map_eq_some_iff.mp h
    rw [ih hinner, List.cons_append]
  | case5 cs depth ih =>
    obtain ⟨inner, hinner, rfl⟩ := Option.map_eq_some_iff.mp h
    rw [ih hinner, List.cons_append]
  | case6 c cs depth _ _ _ ih =>
    obtain ⟨inner, hinner, rfl⟩ := Option.map_eq_some_iff.mp h
    rw [ih hinner, List.cons_append]

theorem plain_of_bodyText? {address : String} (h : bodyText? rest = some address)
    (haddress : Plain address.toList) : Plain rest := by
  obtain ⟨body, hbody, rfl⟩ := Option.map_eq_some_iff.mp h
  rw [String.toList_ofList, plain_trim] at haddress
  rw [eq_of_bracketBody?_eq_some hbody, plain_append]
  exact ⟨haddress, by simp [Plain, isRelational]⟩

theorem plain_of_spriteField? {name : String} {k : Nat} (h : spriteField? name = some k) :
    Plain name.toList := by
  unfold spriteField? at h
  split at h
  case h_12 => simp at h
  all_goals simp [Plain, isRelational]

theorem plain_of_splitSprite? {k : Nat} (h : splitSprite? rest = some (token, k))
    (htoken : Plain token) : Plain rest := by
  unfold splitSprite? at h
  split at h
  · simp at h
  · next index after hcut =>
    split at h
    · next field hafter =>
      split at h
      · simp at h
      · obtain ⟨k, hk, heq⟩ := Option.map_eq_some_iff.mp h
        obtain ⟨rfl, -⟩ := Prod.mk.inj heq
        obtain ⟨blanks, hblanks, htext⟩ := exists_trimLeft_eq after
        have hfield := plain_of_spriteField? hk
        rw [String.toList_ofList, plain_trim] at hfield
        rw [eq_of_cut?_eq_some hcut, htext, hafter, plain_append, plain_append, plain_append]
        have hbracket : Plain [']'] := by simp [Plain, isRelational]
        exact ⟨⟨plain_trim.mp htoken, hbracket⟩, Blanks.plain hblanks,
          List.forall_mem_cons.mpr ⟨rfl, hfield⟩⟩
    · simp at h

theorem eq_of_afterOpening?_eq_some {openings : List String}
    (h : afterOpening? openings text = some rest) : ∃ o ∈ openings, text = o.toList ++ rest := by
  obtain ⟨o, ho, hrest⟩ := List.exists_of_findSome?_eq_some h
  exact ⟨o, ho, (List.isPrefixOf?_eq_some_iff_append_eq.mp hrest).symm⟩

theorem plain_of_afterOpening? {openings : List String}
    (h : afterOpening? openings text = some rest)
    (hopenings : (openings.all fun o => o.toList.all (!isRelational ·)) = true) (hrest : Plain rest) :
    Plain text := by
  obtain ⟨o, ho, rfl⟩ := eq_of_afterOpening?_eq_some h
  refine plain_append.mpr ⟨fun c hc => ?_, hrest⟩
  simpa using List.all_eq_true.mp (List.all_eq_true.mp hopenings o ho) c hc

theorem plain_of_readAccess (hscope : scope.Named) {address : String}
    (h : readAccess scope text = .ok (some address)) (haddress : Plain address.toList) :
    Plain text := by
  rw [← plain_trim]
  unfold readAccess at h
  dsimp only at h
  split at h
  · next rest hopening =>
    exact plain_of_afterOpening? hopening (by decide)
      (plain_of_bodyText? (Except.ok.inj h) haddress)
  · split at h
    · next rest hopening =>
      obtain ⟨body, hbody, rfl⟩ := Option.map_eq_some_iff.mp (Except.ok.inj h)
      rw [String.toList_append, plain_append] at haddress
      exact plain_of_afterOpening? hopening (by decide) (plain_of_bodyText? hbody haddress.2)
    · split at h
      · next rest hopening =>
        refine plain_of_afterOpening? hopening (by decide) ?_
        unfold spriteAccess at h
        split at h
        · simp at h
        · next hsplit =>
          split at h
          · simp at h
          · simp at h
          · next hindex =>
            exact plain_of_splitSprite? hsplit (isWord_of_readWord hscope hindex).plain
      · simp at h

/-- An atom is a word, or it has brackets. -/
theorem plain_of_readAtom (hscope : scope.Named) (h : readAtom scope text = .ok e) :
    Plain text ∧ (IsWord text ∨ '[' ∈ text) := by
  obtain ⟨access, haccess, h⟩ := bind_eq_ok.mp h
  cases access with
  | none =>
    obtain ⟨t, ht, -⟩ := bind_eq_ok.mp h
    have hword := isWord_of_readTerm hscope ht
    exact ⟨hword.plain, .inl hword⟩
  | some address =>
    obtain ⟨a, ha, -⟩ := bind_eq_ok.mp h
    refine ⟨plain_of_readAccess hscope haccess (plain_of_readAddress hscope ha), .inr ?_⟩
    by_contra hnone
    simp [readAccess_eq_none hnone] at haccess

theorem Expr.uses_of_readAtom (h : readAtom scope text = .ok e) (op : BinOp) :
    e.uses op = false := by
  obtain ⟨access, -, h⟩ := bind_eq_ok.mp h
  cases access with
  | none =>
    obtain ⟨t, -, h⟩ := bind_eq_ok.mp h
    obtain rfl := Except.ok.inj h
    rfl
  | some address =>
    obtain ⟨a, -, h⟩ := bind_eq_ok.mp h
    obtain rfl := Except.ok.inj h
    rfl

theorem Token.isAtom_of_readAtom (hscope : scope.Named) (h : readAtom scope t.text = .ok e) :
    t.isAtom = true := by
  cases hatom : t.isAtom with
  | true => rfl
  | false =>
    obtain ⟨c, cs, htext, hends, -⟩ := Token.exists_text_eq hatom
    rcases (plain_of_readAtom hscope h).2 with hword | hopen
    · have := endsAtom_of_isWordPart (hword.part c (by simp [htext]))
      simp [hends] at this
    · cases t with
      | op o => cases o <;> simp [Token.text, BinOp.text] at hopen
      | complement => simp [Token.text] at hopen
      | opening => simp [Token.text] at hopen
      | closing => simp [Token.text] at hopen
      | atom text => simp [isAtom] at hatom

/-- The operators among the tokens are those of the tree. -/
theorem Parsed.op_mem_iff (hscope : scope.Named) (h : Parsed scope e ts) (op : BinOp) :
    .op op ∈ ts ↔ e.uses op = true := by
  induction h with
  | @atom e t h =>
    have hatom := Token.isAtom_of_readAtom hscope h
    rw [Expr.uses_of_readAtom h, List.mem_singleton]
    constructor
    · rintro rfl
      simp [Token.isAtom] at hatom
    · simp
  | complement _ ih => simpa [Expr.uses] using ih
  | @binary o _ _ _ _ _ _ ihl ihr =>
    simp only [List.mem_append, List.mem_cons, Token.op.injEq, ihl, ihr, Expr.uses, Bool.or_eq_true,
      decide_eq_true_eq, @eq_comm _ o op]
    rw [or_left_comm, or_assoc]
  | parentheses _ ih => simpa using ih

/-- Characters of comparisons stand in operators only. -/
theorem Parsed.op_or_plain (hscope : scope.Named) (h : Parsed scope e ts) :
    ∀ t ∈ ts, (∃ op, t = .op op) ∨ Plain t.text := by
  have hsymbol : Plain ['~'] ∧ Plain ['('] ∧ Plain [')'] := by simp [Plain, isRelational]
  induction h with
  | atom h => exact List.forall_mem_singleton.mpr (.inr (plain_of_readAtom hscope h).1)
  | complement _ ih => exact List.forall_mem_cons.mpr ⟨.inr hsymbol.1, ih⟩
  | binary _ _ ihl ihr =>
    exact List.forall_mem_append.mpr ⟨ihl, List.forall_mem_cons.mpr ⟨.inl ⟨_, rfl⟩, ihr⟩⟩
  | parentheses _ ih =>
    exact List.forall_mem_cons.mpr ⟨.inr hsymbol.2.1, List.forall_mem_append.mpr
      ⟨ih, List.forall_mem_singleton.mpr (.inr hsymbol.2.2)⟩⟩

theorem Parsed.exists_cons (hscope : scope.Named) (h : Parsed scope e ts) :
    ∃ t us, ts = t :: us ∧ ∀ op, t ≠ .op op := by
  induction h with
  | @atom e t h =>
    refine ⟨t, [], rfl, ?_⟩
    rintro op rfl
    simpa [Token.isAtom] using Token.isAtom_of_readAtom hscope h
  | complement => exact ⟨_, _, rfl, by simp⟩
  | binary _ _ ihl _ =>
    obtain ⟨t, us, rfl, ht⟩ := ihl
    exact ⟨t, _, rfl, ht⟩
  | parentheses => exact ⟨_, _, rfl, by simp⟩

end

section
variable {ts : List Token} {text : List Char} {c : Char}

theorem Scanned.exists_eq_append (h : Scanned (t :: ts) text) :
    ∃ blanks rest, Blanks blanks ∧ t.text ≠ [] ∧ text = blanks ++ (t.text ++ rest) ∧
      Scanned ts rest := by
  cases h with
  | symbol hblanks ht h =>
    obtain ⟨c, cs, htext, -, -⟩ := Token.exists_text_eq ht
    exact ⟨_, _, hblanks, by simp [htext], rfl, h⟩
  | atom hblanks hatom _ h => exact ⟨_, _, hblanks, hatom.1, rfl, h⟩

theorem Scanned.mem_iff (h : Scanned ts text) (hc : isBlank c = false) :
    c ∈ text ↔ ∃ t ∈ ts, c ∈ t.text := by
  induction ts generalizing text with
  | nil =>
    cases h with
    | nil h => simp [h.not_mem hc]
  | cons t ts ih =>
    obtain ⟨blanks, rest, hblanks, -, rfl, hrest⟩ := h.exists_eq_append
    simp [hblanks.not_mem hc, ih hrest]

/-- A text starts with its first token, unless it starts with a blank. -/
theorem Scanned.head_mem (h : Scanned (t :: ts) (c :: text)) (hc : isBlank c = false) :
    c ∈ t.text := by
  obtain ⟨blanks, rest, hblanks, hne, htext, -⟩ := h.exists_eq_append
  cases blanks with
  | cons b blanks =>
    obtain ⟨rfl, -⟩ := List.cons.inj htext
    simp [hblanks c List.mem_cons_self] at hc
  | nil =>
    obtain ⟨d, cs, hd⟩ := List.exists_cons_of_ne_nil hne
    rw [hd] at htext ⊢
    obtain ⟨rfl, -⟩ := List.cons.inj htext
    exact List.mem_cons_self

/-- A character that only stands in tokens of two such characters is doubled at its first place. -/
theorem Scanned.exists_pair (h : Scanned ts text) (hc : isBlank c = false)
    (hpair : ∀ t ∈ ts, c ∈ t.text → t.text = [c, c]) (hmem : c ∈ text) :
    ∃ front back, text = front ++ c :: c :: back ∧ c ∉ front := by
  induction ts generalizing text with
  | nil =>
    rw [h.mem_iff hc] at hmem
    simp at hmem
  | cons t ts ih =>
    obtain ⟨blanks, rest, hblanks, -, rfl, hrest⟩ := h.exists_eq_append
    obtain ⟨ht, hts⟩ := List.forall_mem_cons.mp hpair
    have hnone := hblanks.not_mem hc
    by_cases hct : c ∈ t.text
    · exact ⟨blanks, rest, by simp [ht hct], hnone⟩
    · have hin : c ∈ rest := by simpa [hnone, hct] using hmem
      obtain ⟨front, back, rfl, hfront⟩ := ih hrest hts hin
      exact ⟨blanks ++ (t.text ++ front), back, by simp, by simp [hnone, hct, hfront]⟩

end

section
variable {scope : Scope} {text : List Char} {e : Expr} {c : Char}

/-- A character of a comparison stands in a text of an expression exactly if an operator of the
expression is written with it. -/
theorem mem_iff_uses (hscope : scope.Named) (h : readExpression scope text = .ok e)
    (hc : isRelational c = true) :
    c ∈ text ↔ ∃ op, e.uses op = true ∧ c ∈ op.text.toList := by
  obtain ⟨ts, -, hts, hread⟩ := readExpression_eq_ok_iff.mp h
  have hparsed := readTokens_parsed hread
  rw [hts.mem_iff (isBlank_of_isRelational hc)]
  constructor
  · rintro ⟨t, ht, hmem⟩
    rcases hparsed.op_or_plain hscope t ht with ⟨op, rfl⟩ | hplain
    · exact ⟨op, (hparsed.op_mem_iff hscope op).mp ht, hmem⟩
    · simp [hplain c hmem] at hc
  · rintro ⟨op, hop, hmem⟩
    exact ⟨.op op, (hparsed.op_mem_iff hscope op).mpr hop, hmem⟩

theorem BinOp.text_of_isRelational {op : BinOp} (hc : isRelational c = true)
    (hmem : c ∈ op.text.toList) : op.text.toList = [c, c] := by
  rcases eq_of_isRelational hc with rfl | rfl | rfl | rfl <;> cases op <;> simp_all [text]

/-- In a text of an expression such a character is doubled. -/
theorem exists_pair_of_mem (hscope : scope.Named) (h : readExpression scope text = .ok e)
    (hc : isRelational c = true) (hmem : c ∈ text) :
    ∃ front back, text = front ++ c :: c :: back ∧ c ∉ front := by
  obtain ⟨ts, -, hts, hread⟩ := readExpression_eq_ok_iff.mp h
  refine hts.exists_pair (isBlank_of_isRelational hc) (fun t ht hct => ?_) hmem
  rcases (readTokens_parsed hread).op_or_plain hscope t ht with ⟨op, rfl⟩ | hplain
  · exact BinOp.text_of_isRelational hc hct
  · simp [hplain c hct] at hc

/-- No expression starts with such a character. -/
theorem readExpression_ne_ok (hscope : scope.Named) (hc : isRelational c = true) (e : Expr) :
    readExpression scope (c :: text) ≠ .ok e := by
  intro h
  obtain ⟨ts, -, hts, hread⟩ := readExpression_eq_ok_iff.mp h
  have hparsed := readTokens_parsed hread
  obtain ⟨t, us, rfl, ht⟩ := hparsed.exists_cons hscope
  have hmem := hts.head_mem (isBlank_of_isRelational hc)
  rcases hparsed.op_or_plain hscope t List.mem_cons_self with ⟨op, rfl⟩ | hplain
  · exact ht op rfl
  · simp [hplain c hmem] at hc

end

end Toolchain6502.C
