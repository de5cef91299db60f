import Toolchain6502.Proofs.C.AcceptedTexts

namespace Toolchain6502.C

open Text

/-- A text without the blanks outside brackets, behind some brackets that are open. A closing
bracket that has no partner is a character like any other. -/
def withoutOuterBlanks (depth : Nat) : List Char → List Char
  | [] => []
  | c :: cs =>
    if depth = 0 && isBlank c then withoutOuterBlanks 0 cs
    else c :: withoutOuterBlanks (bracketDepth depth c) cs

/-- The tokens of a text in order, with a space between each two. -/
def spacedText (ts : List Token) : List Char := [' '].intercalate (ts.map Token.text)

/-- One turn of the loop that cuts a text: a blank is passed over, or a token is cut off. -/
@[irreducible]
def cutTurn (c : Char) (rest : List Char) : Except Fault (Option Token × List Char) :=
  if isBlank c then .ok (none, rest)
  else
    match symbolToken? (c :: rest) with
    | some (t, more) => .ok (some t, more)
    | none =>
      match spanAtom 0 (c :: rest) with
      | ⟨[], _, _⟩ => .error (.unexpectedToken c)
      | ⟨_ :: _, _, _ + 1⟩ => .error .expectedBracket
      | ⟨d :: atom, more, 0⟩ => .ok (some (.atom (d :: atom)), more)

def cutEnd (ts : List Token) : Except Fault (List Token) :=
  if ts.isEmpty then .error .emptyExpression else .ok ts

/-- The outcome of a number of turns behind the tokens that have been cut off, none if the text has
not come to its end by then. -/
def cutTurns : Nat → List Token → List Char → Option (Except Fault (List Token))
  | _, ts, [] => some (cutEnd ts)
  | 0, _, _ :: _ => none
  | n + 1, ts, c :: rest =>
    match cutTurn c rest with
    | .error fault => some (.error fault)
    | .ok (t, more) => cutTurns n (ts ++ t.toList) more

theorem tokens_nil : tokens [] = .ok [] := tokens_eq_ok_iff.mpr (.nil blanks_nil)

theorem tokens_cons (c : Char) (rest : List Char) :
    tokens (c :: rest) =
      cutTurn c rest >>= fun r => (tokens r.2).map (r.1.toList ++ ·) := by
  have hcons {t : Token} {more : List Char} :
      (tokens more >>= fun others => .ok (t :: others)) =
        (tokens more).map ((some t).toList ++ ·) := by
    cases tokens more <;> rfl
  rw [tokens.eq_def]
  unfold cutTurn
  dsimp only
  split
  · rw [ok_bind]
    cases tokens rest <;> rfl
  split
  · next hsymbol =>
    simp only [hsymbol]
    exact hcons
  · next hsymbol =>
    simp only [hsymbol]
    split
    · next hspan => simp only [hspan]; rfl
    · next hspan => simp only [hspan]; rfl
    · next hspan =>
      simp only [hspan]
      exact hcons

/-- Every turn takes a character at least. -/
theorem cutTurn_length {c : Char} {rest more : List Char} {t : Option Token}
    (h : cutTurn c rest = .ok (t, more)) : more.length ≤ rest.length := by
  unfold cutTurn at h
  split at h
  · obtain ⟨-, rfl⟩ := Prod.mk.inj (Except.ok.inj h)
    exact Nat.le_refl _
  split at h
  · next hsymbol =>
    obtain ⟨-, rfl⟩ := Prod.mk.inj (Except.ok.inj h)
    exact Nat.le_of_lt_succ (symbolToken?_length hsymbol)
  split at h
  · simp at h
  · simp at h
  · next hspan =>
    obtain ⟨-, rfl⟩ := Prod.mk.inj (Except.ok.inj h)
    have hlength := spanAtom_length 0 (c :: rest)
    rw [hspan] at hlength
    simp only [List.length_cons] at hlength
    omega

theorem tokenize_eq (text : List Char) : tokenize text = tokens text >>= cutEnd := by
  unfold tokenize cutEnd
  cases tokens text with
  | error fault => rfl
  | ok ts => cases ts <;> rfl

/-- As many turns as there are characters are enough. -/
theorem cutTurns_eq {n : Nat} {text : List Char} (h : text.length ≤ n) (cut : List Token) :
    cutTurns n cut text = some (tokens text >>= fun ts => cutEnd (cut ++ ts)) := by
  induction n generalizing text cut with
  | zero =>
    obtain rfl : text = [] := List.eq_nil_of_length_eq_zero (Nat.le_zero.mp h)
    rw [tokens_nil, ok_bind, List.append_nil]
    rfl
  | succ n ih =>
    cases text with
    | nil =>
      rw [tokens_nil, ok_bind, List.append_nil]
      rfl
    | cons c rest =>
      rw [tokens_cons, cutTurns.eq_def]
      cases hturn : cutTurn c rest with
      | error fault => simp only [hturn, error_bind]
      | ok r =>
        have hlength := cutTurn_length hturn
        rw [List.length_cons] at h
        simp only [hturn, ih (Nat.le_trans hlength (Nat.le_of_succ_le_succ h)), ok_bind]
        cases tokens r.2 with
        | error fault => rfl
        | ok ts => simp only [ok_bind, Except.map, List.append_assoc]

theorem withoutOuterBlanks_blanks {blanks : List Char} (h : Blanks blanks) (rest : List Char) :
    withoutOuterBlanks 0 (blanks ++ rest) = withoutOuterBlanks 0 rest := by
  induction blanks with
  | nil => rfl
  | cons c blanks ih =>
    obtain ⟨hc, hblanks⟩ := List.forall_mem_cons.mp h
    simp [withoutOuterBlanks, hc, ih hblanks]

theorem withoutOuterBlanks_span {depth : Nat} {atom : List Char}
    (h : spanAtom depth atom = ⟨atom, [], 0⟩) (rest : List Char) :
    withoutOuterBlanks depth (atom ++ rest) = atom ++ withoutOuterBlanks 0 rest := by
  induction atom generalizing depth with
  | nil =>
    obtain rfl : depth = 0 := by simpa [spanAtom] using h
    rfl
  | cons c atom ih =>
    obtain ⟨hends, hinner⟩ := spanAtom_cons_iff.mp h
    have hkept : ¬(decide (depth = 0) && isBlank c) = true := by
      simpa using fun hdepth => isBlank_of_endsAtom (hends hdepth)
    rw [List.cons_append, withoutOuterBlanks, if_neg hkept, ih hinner, List.cons_append]

theorem withoutOuterBlanks_symbol {t : Token} (h : t.isAtom = false) (rest : List Char) :
    withoutOuterBlanks 0 (t.text ++ rest) = t.text ++ withoutOuterBlanks 0 rest := by
  cases t with
  | op o => cases o <;> rfl
  | complement => rfl
  | opening => rfl
  | closing => rfl
  | atom text => simp [Token.isAtom] at h

theorem Scanned.flatMap_text {ts : List Token} {text : List Char} (h : Scanned ts text) :
    ts.flatMap Token.text = withoutOuterBlanks 0 text := by
  induction h with
  | nil h =>
    have := withoutOuterBlanks_blanks h []
    rw [List.append_nil] at this
    rw [this]
    rfl
  | symbol hblanks ht _ ih =>
    rw [List.flatMap_cons, withoutOuterBlanks_blanks hblanks, withoutOuterBlanks_symbol ht, ih]
  | atom hblanks hatom _ _ ih =>
    rw [List.flatMap_cons, withoutOuterBlanks_blanks hblanks, withoutOuterBlanks_span hatom.2, ih]
    rfl

theorem Scanned.whole {ts : List Token} {text : List Char} (h : Scanned ts text) :
    ∀ t ∈ ts, t.Whole := by
  induction h with
  | nil => simp
  | @symbol _ _ t _ _ ht _ ih =>
    refine List.forall_mem_cons.mpr ⟨?_, ih⟩
    cases t with
    | atom text => simp [Token.isAtom] at ht
    | _ => trivial
  | atom _ hatom _ _ ih => exact List.forall_mem_cons.mpr ⟨hatom, ih⟩

theorem Token.Whole.text_ne_nil {t : Token} (h : t.Whole) : t.text ≠ [] := by
  cases t with
  | atom text => exact h.1
  | op o => cases o <;> decide
  | _ => simp [Token.text]

/-- A space ends every token, so that it is cut off as it was. -/
theorem Scanned.of_spaces {ts : List Token} (h : ∀ t ∈ ts, t.Whole) :
    Scanned ts (ts.flatMap fun t => ' ' :: t.text) := by
  have hspace : Blanks [' '] := by simp [Blanks, isBlank]
  induction ts with
  | nil => exact .nil blanks_nil
  | cons t ts ih =>
    obtain ⟨ht, hts⟩ := List.forall_mem_cons.mp h
    rw [List.flatMap_cons]
    cases hatom : t.isAtom with
    | false => exact .symbol hspace hatom (ih hts)
    | true =>
      obtain ⟨a, rfl⟩ : ∃ a, t = .atom a := by
        cases t <;> simp_all [Token.isAtom]
      refine .atom hspace ht (fun c hc => ?_) (ih hts)
      cases ts with
      | nil => simp at hc
      | cons u us =>
        obtain rfl : ' ' = c := by simpa using hc
        decide

theorem cons_spacedText (t : Token) (ts : List Token) :
    ' ' :: spacedText (t :: ts) = (t :: ts).flatMap fun t => ' ' :: t.text := by
  induction ts generalizing t with
  | nil => simp [spacedText, List.intercalate]
  | cons u us ih =>
    have hjoin : spacedText (t :: u :: us) = t.text ++ ' ' :: spacedText (u :: us) := by
      simp [spacedText, List.intercalate]
    rw [hjoin, ih u]
    rfl

theorem tokens_spacedText {ts : List Token} (h : ∀ t ∈ ts, t.Whole) :
    tokens (spacedText ts) = .ok ts := by
  cases ts with
  | nil => exact tokens_nil
  | cons t ts =>
    have hspaced := tokens_eq_ok_iff.mpr (Scanned.of_spaces h)
    rw [← cons_spacedText, tokens_blank (by decide)] at hspaced
    exact hspaced

theorem tokenize_eq_ok_iff {text : List Char} {ts : List Token} :
    tokenize text = .ok ts ↔ tokens text = .ok ts ∧ ts ≠ [] := by
  rw [tokenize_eq]
  cases tokens text with
  | error fault => simp
  | ok us => cases us <;> simp +contextual [cutEnd, eq_comm]

/-- Cutting a text into tokens always comes to an end, and what it gives holds all of the text. No
token is empty. Put together, the tokens are the text without the blanks outside brackets, and
written with spaces between them they are cut as before. -/
theorem tokenize_lossless (text : List Char) :
    cutTurns text.length [] text = some (tokenize text) ∧
    ∀ ts, tokenize text = .ok ts → (∀ t ∈ ts, t.text ≠ []) ∧
      ts.flatMap Token.text = withoutOuterBlanks 0 text ∧ tokenize (spacedText ts) = .ok ts := by
  refine ⟨?_, fun ts h => ?_⟩
  · rw [cutTurns_eq (Nat.le_refl _), tokenize_eq]
    rfl
  · obtain ⟨htokens, hne⟩ := tokenize_eq_ok_iff.mp h
    have hscanned := tokens_eq_ok_iff.mp htokens
    have hwhole := hscanned.whole
    exact ⟨fun t ht => (hwhole t ht).text_ne_nil, hscanned.flatMap_text,
      tokenize_eq_ok_iff.mpr ⟨tokens_spacedText hwhole, hne⟩⟩

def shiftedAccess : List Char := "mem[IO + 1] <<x]".toList

def shiftedTokens : List Token := [.atom "mem[IO + 1]".toList, .op .shl, .atom ['x', ']']]

/-- The blank before the shift goes and those in the brackets stay; the last bracket closes
nothing. -/
theorem shiftedAccess_cut : tokenize shiftedAccess = .ok shiftedTokens ∧
    shiftedTokens.flatMap Token.text = "mem[IO + 1]<<x]".toList ∧
    withoutOuterBlanks 0 shiftedAccess = "mem[IO + 1]<<x]".toList ∧
    spacedText shiftedTokens = "mem[IO + 1] << x]".toList ∧
    tokenize (spacedText shiftedTokens) = .ok shiftedTokens ∧
    cutTurns 16 [] shiftedAccess = some (.ok shiftedTokens) := by
  obtain ⟨hends, hlossless⟩ := tokenize_lossless shiftedAccess
  have hcut : tokenize shiftedAccess = .ok shiftedTokens := eq_ok_of_toOption (by decide +kernel)
  obtain ⟨-, hjoined, hagain⟩ := hlossless shiftedTokens hcut
  have htext : shiftedTokens.flatMap Token.text = "mem[IO + 1]<<x]".toList := by decide +kernel
  refine ⟨hcut, htext, hjoined.symm.trans htext, by decide +kernel, hagain, ?_⟩
  rw [← hcut]
  exact hends

end Toolchain6502.C
