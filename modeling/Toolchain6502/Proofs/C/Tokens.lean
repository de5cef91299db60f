import Mathlib.Data.List.Chain
import Toolchain6502.C.Token
import Toolchain6502.Proofs.Text.Trimming

namespace Toolchain6502.C

open Text

/-- An atom that is not cut inside, and whose brackets are closed. -/
def WholeAtom (text : List Char) : Prop := text ≠ [] ∧ spanAtom 0 text = ⟨text, [], 0⟩

def Token.Whole : Token → Prop
  | atom text => WholeAtom text
  | _ => True

def Token.isAtom : Token → Bool
  | atom _ => true
  | _ => false

/-- Two tokens of which at least one is no atom. Without a blank between them, two atoms would be
one. -/
def Token.Apart (t u : Token) : Prop := t.isAtom = false ∨ u.isAtom = false

theorem Token.Apart.cons {t : Token} (ht : t.isAtom = false) {ts : List Token}
    (hts : ts.IsChain Apart) : (t :: ts).IsChain Apart :=
  List.isChain_cons.mpr ⟨fun _ _ => .inl ht, hts⟩

/-- What is no atom keeps the tokens on its sides apart. -/
theorem Token.Apart.append_cons {t : Token} (ht : t.isAtom = false) {ts us : List Token}
    (hts : ts.IsChain Apart) (hus : us.IsChain Apart) : (ts ++ t :: us).IsChain Apart :=
  List.isChain_append.mpr ⟨hts, cons ht hus, fun _ _ _ hu => .inr (Option.some.inj hu ▸ ht)⟩

theorem isBlank_of_endsAtom {c : Char} (h : endsAtom c = false) : isBlank c = false := by
  rw [endsAtom, Bool.or_eq_false_iff] at h
  exact h.1

theorem WholeAtom.head {c : Char} {cs : List Char} (h : WholeAtom (c :: cs)) :
    endsAtom c = false := by
  cases hc : endsAtom c with
  | false => rfl
  | true =>
    have hspan := h.2
    simp [spanAtom, hc] at hspan

theorem spanAtom_cons_iff {depth : Nat} {c : Char} {text : List Char} :
    spanAtom depth (c :: text) = ⟨c :: text, [], 0⟩ ↔
      (depth = 0 → endsAtom c = false) ∧
        spanAtom (bracketDepth depth c) text = ⟨text, [], 0⟩ := by
  rw [spanAtom]
  split
  · next hc => simp_all
  · next hc =>
    have hends : depth = 0 → endsAtom c = false := by simpa using hc
    rw [and_iff_right hends, AtomSpan.mk.injEq, AtomSpan.mk.injEq]
    simp

/-- An atom goes on up to the first character that ends it. -/
theorem spanAtom_append {depth : Nat} {text rest : List Char}
    (h : spanAtom depth text = ⟨text, [], 0⟩) (hrest : ∀ c ∈ rest.head?, endsAtom c = true) :
    spanAtom depth (text ++ rest) = ⟨text, rest, 0⟩ := by
  induction text generalizing depth with
  | nil =>
    obtain rfl : depth = 0 := by simpa [spanAtom] using h
    cases rest with
    | nil => rfl
    | cons c rest => simp [spanAtom, hrest c rfl]
  | cons c text ih =>
    obtain ⟨hends, hinner⟩ := spanAtom_cons_iff.mp h
    have hgoes : ¬(decide (depth = 0) && endsAtom c) = true := by simpa using hends
    rw [List.cons_append, spanAtom, if_neg hgoes, ih hinner]

theorem bracketDepth_of_ne {c : Char} (hopen : c ≠ '[') (hclose : c ≠ ']') (depth : Nat) :
    bracketDepth depth c = depth := by
  unfold bracketDepth
  split <;> simp_all

theorem wholeAtom_of_plain {text : List Char} (hne : text ≠ [])
    (h : ∀ c ∈ text, endsAtom c = false ∧ c ≠ '[' ∧ c ≠ ']') : WholeAtom text := by
  refine ⟨hne, ?_⟩
  clear hne
  induction text with
  | nil => rfl
  | cons c text ih =>
    obtain ⟨⟨hends, hopen, hclose⟩, htext⟩ := List.forall_mem_cons.mp h
    simp [spanAtom, hends, bracketDepth_of_ne hopen hclose, ih htext]

theorem spanAtom_brackets {body : List Char} (hopen : '[' ∉ body) (hclose : ']' ∉ body) :
    spanAtom 1 (body ++ [']']) = ⟨body ++ [']'], [], 0⟩ := by
  induction body with
  | nil => rfl
  | cons c body ih =>
    simp only [List.mem_cons, not_or] at hopen hclose
    have hdepth := bracketDepth_of_ne (Ne.symm hopen.1) (Ne.symm hclose.1) 1
    simp [spanAtom, hdepth, ih hopen.2 hclose.2]

/-- An atom goes on behind a bracket up to the one that closes it. -/
theorem wholeAtom_opening {name rest : List Char}
    (hname : ∀ c ∈ name, endsAtom c = false ∧ c ≠ '[' ∧ c ≠ ']')
    (h : spanAtom 1 rest = ⟨rest, [], 0⟩) : WholeAtom (name ++ '[' :: rest) := by
  refine ⟨by simp, ?_⟩
  induction name with
  | nil => simp [spanAtom, endsAtom, isBlank, bracketDepth, h]
  | cons c name ih =>
    obtain ⟨⟨hends, hopens, hcloses⟩, hname⟩ := List.forall_mem_cons.mp hname
    rw [List.cons_append, spanAtom, bracketDepth_of_ne hopens hcloses, ih hname]
    simp [hends]

/-- Inside brackets anything may stand. -/
theorem wholeAtom_brackets {name body : List Char}
    (hname : ∀ c ∈ name, endsAtom c = false ∧ c ≠ '[' ∧ c ≠ ']') (hopen : '[' ∉ body)
    (hclose : ']' ∉ body) : WholeAtom (name ++ '[' :: (body ++ [']'])) :=
  wholeAtom_opening hname (spanAtom_brackets hopen hclose)

theorem symbolToken?_text {t : Token} (h : t.isAtom = false) (rest : List Char) :
    symbolToken? (t.text ++ rest) = some (t, rest) := by
  cases t with
  | op o => cases o <;> rfl
  | complement => rfl
  | opening => rfl
  | closing => rfl
  | atom text => simp [Token.isAtom] at h

theorem Token.exists_text_eq {t : Token} (h : t.isAtom = false) :
    ∃ c cs, t.text = c :: cs ∧ endsAtom c = true ∧ isBlank c = false := by
  cases t with
  | op o => cases o <;> exact ⟨_, _, rfl, by decide, by decide⟩
  | complement => exact ⟨_, _, rfl, by decide, by decide⟩
  | opening => exact ⟨_, _, rfl, by decide, by decide⟩
  | closing => exact ⟨_, _, rfl, by decide, by decide⟩
  | atom text => simp [isAtom] at h

theorem symbolToken?_eq_none {c : Char} (h : endsAtom c = false) (rest : List Char) :
    symbolToken? (c :: rest) = none := by
  unfold symbolToken?
  split <;> simp_all [endsAtom]

theorem tokens_blank {c : Char} (hc : isBlank c = true) (rest : List Char) :
    tokens (c :: rest) = tokens rest := by
  rw [tokens.eq_def]
  exact if_pos hc

theorem tokens_blanks {blanks : List Char} (h : Blanks blanks) (rest : List Char) :
    tokens (blanks ++ rest) = tokens rest := by
  induction blanks with
  | nil => rfl
  | cons c blanks ih =>
    obtain ⟨hc, hblanks⟩ := List.forall_mem_cons.mp h
    rw [List.cons_append, tokens_blank hc, ih hblanks]

theorem tokens_symbol {t : Token} (h : t.isAtom = false) (rest : List Char) :
    tokens (t.text ++ rest) = (tokens rest).map (t :: ·) := by
  obtain ⟨c, cs, htext, -, hblank⟩ := Token.exists_text_eq h
  have hsymbol := symbolToken?_text h rest
  rw [htext, List.cons_append] at hsymbol ⊢
  rw [tokens.eq_def]
  simp only [hblank, Bool.false_eq_true, if_false]
  split
  · next t' more heq =>
    obtain ⟨rfl, rfl⟩ : t' = t ∧ more = rest := by simpa [hsymbol, eq_comm] using heq
    cases tokens more <;> rfl
  · next heq => simp [hsymbol] at heq

theorem tokens_atom {text : List Char} (h : WholeAtom text) {rest : List Char}
    (hrest : ∀ c ∈ rest.head?, endsAtom c = true) :
    tokens (text ++ rest) = (tokens rest).map (.atom text :: ·) := by
  have hspan := spanAtom_append h.2 hrest
  cases text with
  | nil => exact absurd rfl h.1
  | cons c text =>
    have hends := h.head
    have hblank := isBlank_of_endsAtom hends
    rw [List.cons_append] at hspan ⊢
    rw [tokens.eq_def]
    simp only [hblank, Bool.false_eq_true, if_false]
    split
    · next heq => simp [symbolToken?_eq_none hends] at heq
    · split
      · next heq => simp [hspan] at heq
      · next heq => simp [hspan] at heq
      · next heq =>
        obtain ⟨⟨rfl, rfl⟩, rfl⟩ := by simpa [hspan] using heq
        cases tokens rest <;> rfl

/-- After an atom a blank or another kind of token stands. -/
theorem endsAtom_of_spaced {ts : List Token} {text : List Char}
    (h : Spaced (ts.map Token.text) text) (hhead : ∀ t ∈ ts.head?, t.isAtom = false) :
    ∀ c ∈ text.head?, endsAtom c = true := by
  have hblank {c : Char} (hc : isBlank c = true) : endsAtom c = true := by simp [endsAtom, hc]
  intro c hc
  cases ts with
  | nil =>
    obtain hblanks | _ := h
    exact hblank (hblanks c (List.mem_of_mem_head? hc))
  | cons t ts =>
    obtain _ | @⟨blanks, _, _, _, hblanks, _⟩ := h
    obtain ⟨d, cs, htext, hends, -⟩ := Token.exists_text_eq (hhead t rfl)
    cases blanks with
    | nil =>
      obtain rfl : d = c := by simpa [htext] using hc
      exact hends
    | cons b blanks =>
      obtain rfl : b = c := by simpa using hc
      exact hblank (hblanks b List.mem_cons_self)

/-- The tokens of a text are those that it was written from. -/
theorem tokens_of_spaced {ts : List Token} {text : List Char} (h : Spaced (ts.map Token.text) text)
    (hwhole : ∀ t ∈ ts, t.Whole) (happart : ts.IsChain Token.Apart) : tokens text = .ok ts := by
  induction ts generalizing text with
  | nil =>
    obtain hblanks | _ := h
    have := tokens_blanks hblanks []
    rw [List.append_nil] at this
    rw [this, tokens.eq_def]
  | cons t ts ih =>
    obtain _ | ⟨hblanks, h⟩ := h
    obtain ⟨ht, hts⟩ := List.forall_mem_cons.mp hwhole
    rw [List.append_assoc, tokens_blanks hblanks]
    have hrest := ih h hts happart.tail
    cases hatom : t.isAtom with
    | false => rw [tokens_symbol hatom, hrest]; rfl
    | true =>
      obtain ⟨a, rfl⟩ : ∃ a, t = .atom a := by
        cases t <;> simp_all [Token.isAtom]
      have hhead : ∀ u ∈ ts.head?, u.isAtom = false := by
        intro u hu
        rcases (List.isChain_cons.mp happart).1 u hu with h | h
        · simp [Token.isAtom] at h
        · exact h
      rw [Token.text, tokens_atom ht (endsAtom_of_spaced h hhead), hrest]
      rfl

end Toolchain6502.C
