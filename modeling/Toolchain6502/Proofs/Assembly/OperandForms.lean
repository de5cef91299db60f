import Toolchain6502.Assembly.Statement
import Toolchain6502.Proofs.Outcome

namespace Toolchain6502.Assembly

open Text Cpu

/-- The forms whose value is a byte that may be written under a minus sign. -/
def signedShapes : List Shape := [
  .direct, .fixed .immediate, .fixed .zeroPageX, .fixed .zeroPageY, .fixed .indexedIndirect,
  .fixed .indirectIndexed]

/-- What an operand can hold: no value without an address, one byte of a symbol only as an
immediate, and a minus sign only on a byte. -/
structure Operand.Formed (o : Operand) : Prop where
  bare : o.shape = .fixed .implied ∨ o.shape = .fixed .accumulator → o.term = .number 0
  half : ∀ half name, o.term = .half half name → o.shape = .fixed .immediate
  minus : ∀ n, o.term = .minus n → o.shape ∈ signedShapes

theorem Operand.implied_formed : Operand.implied.Formed :=
  ⟨fun _ => rfl, by simp [Operand.implied], by simp [Operand.implied]⟩

theorem byteTerm?_ne_half {text : List Char} {half : Half} {name : String} :
    byteTerm? text ≠ some (.half half name) := by
  intro h
  obtain ⟨l, -, hl⟩ := Option.bind_eq_some_iff.mp h
  cases l <;> grind [Literal.byte?]

theorem wordTerm?_cases {loose named : Bool} {text : List Char} {term : Term}
    (h : wordTerm? loose named text = .ok (some term)) :
    (∃ n, term = .number n) ∨ ∃ name, term = .symbol name := by
  have number {short : Bool} {n : Nat} (hn : wordNumber? short loose n = some term) :
      ∃ n, term = .number n := by
    unfold wordNumber? at hn
    split at hn
    · exact ⟨n, (Option.some.inj hn).symm⟩
    · simp at hn
  unfold wordTerm? at h
  split at h
  · rename_i l _
    cases l with
    | hex ds => exact .inl (number (Except.ok.inj h))
    | binary ds => exact .inl (number (Except.ok.inj h))
    | decimal minus ds =>
      cases minus
      · obtain ⟨n, -, hn⟩ := bind_eq_ok.mp h
        exact .inl (number (Except.ok.inj hn))
      · simp [Literal.word?] at h
    | digits ds =>
      obtain ⟨n, -, hn⟩ := bind_eq_ok.mp h
      exact .inl (number (Except.ok.inj hn))
    | quoted c => simp [Literal.word?] at h
    | symbol name =>
      cases named
      · simp [Literal.word?] at h
      · exact .inr ⟨_, (Option.some.inj (Except.ok.inj h)).symm⟩
  · simp at h

/-- A form reads only formed operands. -/
def Form.Sound (f : Form) : Prop :=
  ∀ text body term, f.body? text = some body → f.term? body = .ok (some term) →
    (⟨f.shape, term⟩ : Operand).Formed

theorem byteForm_sound {mode : Mode} (hmode : .fixed mode ∈ signedShapes)
    (body? : List Char → Option (List Char)) : (byteForm mode body?).Sound := by
  intro text body term _ hterm
  have hterm : byteTerm? body = some term := Except.ok.inj hterm
  refine ⟨?_, ?_, fun _ _ => hmode⟩
  · intro h
    simp only [byteForm] at h
    rcases h with h | h <;> rw [h] at hmode <;> simp [signedShapes] at hmode
  · rintro half name rfl
    exact absurd hterm byteTerm?_ne_half

theorem wordForm_sound {mode : Mode} (hmode : mode ≠ .implied ∧ mode ≠ .accumulator) (loose : Bool)
    (body? : List Char → Option (List Char)) : (wordForm mode loose body?).Sound := by
  intro text body term _ hterm
  have hcases := wordTerm?_cases hterm
  refine ⟨?_, ?_, ?_⟩
  · simp [wordForm, hmode.1, hmode.2]
  · rintro half name rfl
    simp at hcases
  · rintro n rfl
    simp at hcases

theorem accumulatorForm_sound : accumulatorForm.Sound := by
  intro text body term _ hterm
  have hterm : Term.number 0 = term := Option.some.inj (Except.ok.inj hterm)
  subst hterm
  exact ⟨fun _ => rfl, by simp, by simp⟩

theorem immediateForm_sound : immediateForm.Sound := by
  intro text body term _ _
  exact ⟨by simp [immediateForm], fun _ _ _ => rfl, fun _ _ => by simp [immediateForm, signedShapes]⟩

theorem absoluteForm_sound : absoluteForm.Sound := by
  intro text body term _ hterm
  have hcases := wordTerm?_cases hterm
  refine ⟨by simp [absoluteForm], ?_, ?_⟩
  · rintro half name rfl
    simp at hcases
  · rintro n rfl
    simp at hcases

theorem directForm_sound : directForm.Sound := by
  intro text body term _ hterm
  have hterm : byteTerm? body = some term := Except.ok.inj hterm
  refine ⟨by simp [directForm], ?_, fun _ _ => by simp [directForm, signedShapes]⟩
  rintro half name rfl
  exact absurd hterm byteTerm?_ne_half

theorem forall_forms {P : Form → Prop} (accumulator : P accumulatorForm)
    (immediate : P immediateForm)
    (indirectIndexed : P (byteForm .indirectIndexed fun text =>
      (beforeIndex? 'Y' text).bind insideParens?))
    (indexedIndirect : P (byteForm .indexedIndirect fun text =>
      (insideParens? text).bind (beforeIndex? 'X')))
    (indirect : P (wordForm .indirect true insideParens?))
    (absoluteX : P (wordForm .absoluteX false (beforeIndex? 'X')))
    (absoluteY : P (wordForm .absoluteY false (beforeIndex? 'Y')))
    (absolute : P absoluteForm)
    (zeroPageX : P (byteForm .zeroPageX (beforeIndex? 'X')))
    (zeroPageY : P (byteForm .zeroPageY (beforeIndex? 'Y')))
    (direct : P directForm) : ∀ f ∈ forms, P f := by
  simp only [forms, List.forall_mem_cons, List.not_mem_nil, false_imp_iff, implies_true, and_true]
  exact ⟨accumulator, immediate, indirectIndexed, indexedIndirect, indirect, absoluteX, absoluteY,
    absolute, zeroPageX, zeroPageY, direct⟩

theorem forms_sound : ∀ f ∈ forms, f.Sound :=
  forall_forms accumulatorForm_sound immediateForm_sound (byteForm_sound (by decide) _)
    (byteForm_sound (by decide) _) (wordForm_sound (by decide) _ _)
    (wordForm_sound (by decide) _ _) (wordForm_sound (by decide) _ _) absoluteForm_sound
    (byteForm_sound (by decide) _) (byteForm_sound (by decide) _) directForm_sound

theorem Form.read?_eq_some {f : Form} {text : List Char} {o : Operand}
    (h : f.read? text = .ok (some o)) :
    ∃ body t, f.body? text = some body ∧ f.term? body = .ok (some t) ∧ o = ⟨f.shape, t⟩ := by
  unfold Form.read? at h
  split at h
  · simp at h
  · rename_i body hbody
    obtain ⟨term, hterm, h⟩ := bind_eq_ok.mp h
    obtain ⟨t, ht, ho⟩ := Option.map_eq_some_iff.mp (Except.ok.inj h)
    exact ⟨body, t, hbody, ht ▸ hterm, ho.symm⟩

theorem firstForm?_eq_some {text : List Char} {fs : List Form} {o : Operand}
    (h : firstForm? text fs = .ok (some o)) : ∃ f ∈ fs, f.read? text = .ok (some o) := by
  induction fs with
  | nil => simp [firstForm?] at h
  | cons f rest ih =>
    obtain ⟨r, hr, h⟩ := bind_eq_ok.mp h
    cases r with
    | some o' =>
      obtain rfl : o' = o := Option.some.inj (Except.ok.inj h)
      exact ⟨f, List.mem_cons_self, hr⟩
    | none =>
      obtain ⟨g, hg, hread⟩ := ih h
      exact ⟨g, List.mem_cons_of_mem f hg, hread⟩

theorem firstForm?_formed {text : List Char} {o : Operand}
    (h : firstForm? text forms = .ok (some o)) : o.Formed := by
  obtain ⟨f, hf, hread⟩ := firstForm?_eq_some h
  obtain ⟨body, t, hbody, hterm, rfl⟩ := Form.read?_eq_some hread
  exact forms_sound f hf text body t hbody hterm

theorem Operand.read?_formed {text : List Char} {o : Operand}
    (h : Operand.read? text = .ok (some o)) : o.Formed := by
  unfold Operand.read? at h
  split at h
  · obtain rfl : Operand.implied = o := by simpa using h
    exact Operand.implied_formed
  · exact firstForm?_formed h

def Content.Formed : Content → Prop
  | .instruction _ o => o.Formed
  | _ => True

theorem readOperandAfter_formed {text : List Char} {o : Operand}
    (h : readOperandAfter text = .ok o) : o.Formed := by
  unfold readOperandAfter at h
  split at h
  · obtain rfl : Operand.implied = o := by simpa using h
    exact Operand.implied_formed
  · split at h
    · unfold readOperand valueOr at h
      split at h
      · rename_i hread
        exact Operand.read?_formed (Except.ok.inj h ▸ hread)
      · simp at h
      · simp at h
    · simp at h

theorem readInstruction_formed {text : List Char} {m : Mnemonic} {o : Operand}
    (h : readInstruction text = .ok (m, o)) : o.Formed := by
  unfold readInstruction at h
  split at h
  · simp at h
  · split at h
    · simp at h
    · obtain ⟨operand, hoperand, h⟩ := bind_eq_ok.mp h
      obtain ⟨-, rfl⟩ : _ ∧ operand = o := by simpa using h
      exact readOperandAfter_formed hoperand

theorem readDirective_formed {text : List Char} {c : Content} (h : readDirective text = .ok c) :
    c.Formed := by
  unfold readDirective at h
  split at h
  simp only at h
  split at h
  · unfold readConstant at h
    split at h
    · simp at h
    · obtain ⟨value, -, h⟩ := bind_eq_ok.mp h
      obtain rfl := Except.ok.inj h
      trivial
  · split at h <;> simp at h

theorem readBody_formed {text : List Char} {cs : List Content} (h : readBody text = .ok cs) :
    ∀ c ∈ cs, c.Formed := by
  unfold readBody at h
  split at h
  · obtain rfl := Except.ok.inj h
    simp
  · obtain ⟨c, hc, h⟩ := bind_eq_ok.mp h
    obtain rfl := Except.ok.inj h
    simpa using readDirective_formed hc
  · obtain ⟨⟨m, o⟩, hmo, h⟩ := bind_eq_ok.mp h
    obtain rfl := Except.ok.inj h
    simpa [Content.Formed] using readInstruction_formed hmo

theorem readContents_formed {line : List Char} {cs : List Content}
    (h : readContents line = .ok cs) : ∀ c ∈ cs, c.Formed := by
  unfold readContents at h
  simp only at h
  split at h
  · obtain ⟨body, hbody, h⟩ := bind_eq_ok.mp h
    obtain rfl := Except.ok.inj h
    simpa [Content.Formed] using readBody_formed hbody
  · exact readBody_formed h

theorem readLinesFrom_formed {file : String} {number : Nat} {ls : List String}
    {ss : List Statement} (h : readLinesFrom file number ls = .ok ss) :
    ∀ s ∈ ss, s.content.Formed := by
  induction ls generalizing number ss with
  | nil =>
    obtain rfl := Except.ok.inj h
    simp
  | cons line rest ih =>
    obtain ⟨first, hfirst, h⟩ := bind_eq_ok.mp h
    obtain ⟨others, hothers, h⟩ := bind_eq_ok.mp h
    obtain rfl := Except.ok.inj h
    unfold readLine at hfirst
    split at hfirst
    · rename_i contents hcontents
      obtain rfl := Except.ok.inj hfirst
      intro s hs
      rcases List.mem_append.mp hs with hs | hs
      · obtain ⟨c, hc, rfl⟩ := List.mem_map.mp hs
        exact readContents_formed hcontents c hc
      · exact ih hothers s hs
    · simp at hfirst

/-- Every instruction of a source has a formed operand. -/
theorem readSource_formed {file text : String} {ss : List Statement}
    (h : readSource file text = .ok ss) : ∀ s ∈ ss, s.content.Formed :=
  readLinesFrom_formed h

end Toolchain6502.Assembly
