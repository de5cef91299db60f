import Toolchain6502.Proofs.Assembly.FaultLines

namespace Toolchain6502.Assembly

open Cpu Text

variable {first : Location} {text : List Char} {d : Diagnostic} {t : Symbols}

/-- The place that a fault names beside its own, which is the first definition of a symbol. -/
def Fault.first? : Fault → Option Location
  | .duplicateSymbol _ first => some first
  | _ => none

theorem Fault.eq_of_first? {fault : Fault} (h : fault.first? = some first) :
    ∃ name, fault = .duplicateSymbol name first := by
  cases fault with
  | duplicateSymbol name place => exact ⟨name, by rw [Option.some.inj h]⟩
  | _ => simp [Fault.first?] at h

theorem readOperandAfter_first? (h : readOperandAfter text = .error (.fault d)) :
    d.fault.first? = none := by
  unfold readOperandAfter at h
  split at h
  · simp at h
  · split at h
    · unfold readOperand valueOr at h
      split at h
      · simp at h
      · cases h
        rfl
      · simp at h
    · cases h
      rfl

theorem readInstruction_first? (h : readInstruction text = .error (.fault d)) :
    d.fault.first? = none := by
  unfold readInstruction at h
  split at h
  · cases h
    rfl
  · split at h
    · cases h
      rfl
    · rcases bind_eq_error.mp h with h | ⟨o, -, h⟩
      · exact readOperandAfter_first? h
      · simp at h

theorem readConstantValue_first? (h : readConstantValue text = .error (.fault d)) :
    d.fault.first? = none := by
  unfold readConstantValue at h
  split at h
  · simp at h
  · unfold constantNumber at h
    split at h
    · simp [faultAs] at h
    · cases h
      rfl
  · unfold constantSymbol at h
    split at h
    · simp [faultAs] at h
    · cases h
      rfl

theorem readDirective_first? (h : readDirective text = .error (.fault d)) :
    d.fault.first? = none := by
  simp only [readDirective] at h
  split at h
  · unfold readConstant at h
    split at h
    · cases h
      rfl
    · rcases bind_eq_error.mp h with h | ⟨value, -, h⟩
      · exact readConstantValue_first? h
      · simp at h
  · split at h <;> cases h <;> rfl

theorem readBody_first? (h : readBody text = .error (.fault d)) : d.fault.first? = none := by
  unfold readBody at h
  split at h
  · simp at h
  · rcases bind_eq_error.mp h with h | ⟨content, -, h⟩
    · exact readDirective_first? h
    · simp at h
  · rcases bind_eq_error.mp h with h | ⟨r, -, h⟩
    · exact readInstruction_first? h
    · simp at h

theorem readContents_first? {line : List Char} (h : readContents line = .error (.fault d)) :
    d.fault.first? = none := by
  unfold readContents at h
  simp only at h
  split at h
  · rcases bind_eq_error.mp h with h | ⟨body, -, h⟩
    · exact readBody_first? h
    · simp at h
  · exact readBody_first? h

theorem readLine_first? {line : String} {place : Location}
    (h : readLine line place = .error (.fault d)) : d.fault.first? = none := by
  unfold readLine at h
  split at h
  · simp at h
  · rename_i e hread
    cases e with
    | fault found =>
      obtain rfl : { found with location := some place, source := some line } = d := by
        simpa [ReadFailure.place] using h
      exact readContents_first? (d := found) hread
    | numeral n => simp [ReadFailure.place] at h

theorem readLinesFrom_first? {file : String} {number : Nat} {ls : List String}
    (h : readLinesFrom file number ls = .error (.fault d)) : d.fault.first? = none := by
  induction ls generalizing number with
  | nil => simp [readLinesFrom] at h
  | cons line rest ih =>
    rcases bind_eq_error.mp h with h | ⟨own, -, h⟩
    · exact readLine_first? h
    · rcases bind_eq_error.mp h with h | ⟨others, -, h⟩
      · exact ih h
      · simp at h

/-- No failure names a first definition. -/
structure Unrepeated (x : Except Diagnostic α) : Prop where
  fails : ∀ d, x = .error d → d.fault.first? = none

namespace Unrepeated

theorem ok (a : α) : Unrepeated (.ok a : Except Diagnostic α) := ⟨by simp⟩

theorem fail (s : Statement) {fault : Fault} (h : fault.first? = none) :
    Unrepeated (.error (s.fail fault) : Except Diagnostic α) := by
  constructor
  intro d hd
  obtain rfl := Except.error.inj hd
  exact h

theorem bind {x : Except Diagnostic α} {f : α → Except Diagnostic β} (hx : Unrepeated x)
    (hf : ∀ a, Unrepeated (f a)) : Unrepeated (x >>= f) := by
  constructor
  intro d h
  rcases bind_eq_error.mp h with h | ⟨a, -, h⟩
  · exact hx.fails d h
  · exact (hf a).fails d h

theorem ite {p : Prop} [Decidable p] {x y : Except Diagnostic α} (hx : Unrepeated x)
    (hy : Unrepeated y) : Unrepeated (if p then x else y) := by
  split
  · exact hx
  · exact hy

theorem lookup (t : Symbols) (s : Statement) (name : String) :
    Unrepeated (Assembly.lookup t s name) := by
  unfold Assembly.lookup
  split
  · exact ok _
  · exact fail s rfl

theorem encode (s : Statement) (m : Mnemonic) (o : Operand) :
    Unrepeated (Assembly.encode s m o) := by
  unfold Assembly.encode
  split
  · exact ok _
  · exact fail s rfl

theorem zeroPageByte (t : Symbols) (s : Statement) (term : Term) :
    Unrepeated (Assembly.zeroPageByte t s term) := by
  unfold Assembly.zeroPageByte
  split
  · exact ok _
  · exact ok _
  all_goals exact (lookup ..).bind fun _ => .ite (ok _) (fail s rfl)

theorem immediateByte (t : Symbols) (s : Statement) (term : Term) :
    Unrepeated (Assembly.immediateByte t s term) := by
  unfold Assembly.immediateByte
  split
  · exact ok _
  · exact ok _
  · exact (lookup ..).bind fun _ => ok _
  · exact (lookup ..).bind fun _ => ok _
  · exact (lookup ..).bind fun _ => .ite (ok _) (fail s rfl)

theorem wordOperand (t : Symbols) (s : Statement) (term : Term) :
    Unrepeated (Assembly.wordOperand t s term) := by
  unfold Assembly.wordOperand
  split
  · exact ok _
  · exact ok _
  all_goals exact (lookup ..).bind fun _ => ok _

theorem branchByte (t : Symbols) (s : Statement) (next : Nat) (term : Term) :
    Unrepeated (Assembly.branchByte t s next term) := by
  unfold Assembly.branchByte
  split
  · exact ok _
  · exact .ite (ok _) (fail s rfl)
  all_goals exact (lookup ..).bind fun _ => .ite (ok _) (fail s rfl)

theorem operandBytes (t : Symbols) (s : Statement) (next : Nat) (mode : Mode) (term : Term) :
    Unrepeated (Assembly.operandBytes t s next mode term) := by
  cases mode with
  | implied | accumulator => exact ok _
  | immediate => exact (immediateByte ..).bind fun _ => ok _
  | relative => exact (branchByte ..).bind fun _ => ok _
  | absolute | absoluteX | absoluteY | indirect => exact wordOperand ..
  | zeroPage | zeroPageX | zeroPageY | indexedIndirect | indirectIndexed =>
    exact (zeroPageByte ..).bind fun _ => ok _

theorem emitInstruction (t : Symbols) (a : Nat) (s : Statement) (m : Mnemonic) (o : Operand) :
    Unrepeated (Assembly.emitInstruction t a s m o) :=
  (encode ..).bind fun _ => (operandBytes ..).bind fun _ => ok _

theorem emitRows (t : Symbols) (a : Nat) (ss : List Statement) :
    Unrepeated (Assembly.emitRows t a ss) := by
  induction ss generalizing a with
  | nil => exact ok _
  | cons s rest ih =>
    rw [Assembly.emitRows]
    split
    · exact ih a
    · exact ih a
    · exact (emitInstruction ..).bind fun _ => (ih _).bind fun _ => ok _

end Unrepeated

theorem define_eq_repeated {s : Statement} {name : String} {value : Nat} {definition : Definition}
    (h : define t s name value definition = .error d) (hfirst : d.fault.first? = some first) :
    ∃ e ∈ t, e.location = first := by
  unfold define at h
  split at h
  · rename_i e he
    obtain rfl := Except.error.inj h
    exact ⟨e, List.mem_of_find?_eq_some he, Option.some.inj hfirst⟩
  · simp at h

theorem layStatement_eq_repeated {a : Nat} {s : Statement} (h : layStatement t a s = .error d)
    (hfirst : d.fault.first? = some first) : ∃ e ∈ t, e.location = first := by
  -- Whatever comes before the definition in a statement reports no second place.
  have hnever {α : Type} {x : Except Diagnostic α} (hx : Unrepeated x) (h : x = .error d) :
      ∃ e ∈ t, e.location = first := by
    rw [hx.fails d h] at hfirst
    simp at hfirst
  unfold layStatement at h
  split at h
  · rcases bind_eq_error.mp h with h | ⟨t', -, h⟩
    · exact define_eq_repeated h hfirst
    · simp at h
  · rename_i name value _
    have hvalue : Unrepeated (constantValue t s value) := by
      cases value with
      | number n => exact .ok n
      | copy source => exact .lookup t s source
    rcases bind_eq_error.mp h with h | ⟨n, -, h⟩
    · exact hnever hvalue h
    · rcases bind_eq_error.mp h with h | ⟨t', -, h⟩
      · exact define_eq_repeated h hfirst
      · simp at h
  · exact hnever ((Unrepeated.encode ..).bind fun _ => .ite (.ok _) (.fail s rfl)) h

theorem location_of_mem_entries {a : Nat} {s : Statement} {e : Symbol} (he : e ∈ s.entries t a) :
    e.location = s.location := by
  unfold Statement.entries at he
  split at he
  · rw [List.mem_singleton.mp he]
    rfl
  · rw [List.mem_singleton.mp he]
    rfl
  · rw [List.mem_singleton.mp he]
    rfl
  · simp at he

/-- The first definition is one of the table, or a statement before the one at fault. -/
theorem layOut_eq_repeated {a : Nat} {ss : List Statement} (h : layOut t a ss = .error d)
    (hfirst : d.fault.first? = some first) :
    ∃ before s after, ss = before ++ s :: after ∧ d = s.fail d.fault ∧
      ((∃ e ∈ t, e.location = first) ∨ ∃ r ∈ before, r.location = first) := by
  induction ss generalizing t a with
  | nil => simp [layOut] at h
  | cons s rest ih =>
    rcases bind_eq_error.mp h with h | ⟨⟨t₁, a₁⟩, hs, h⟩
    · exact ⟨[], s, rest, rfl, (layStatement_locates t a s).fails d h,
        .inl (layStatement_eq_repeated h hfirst)⟩
    · obtain ⟨-, rfl, rfl⟩ := layStatement_eq_ok.mp hs
      obtain ⟨before, r, after, rfl, hfail, hwhere⟩ := ih h
      refine ⟨s :: before, r, after, rfl, hfail, ?_⟩
      rcases hwhere with ⟨e, he, hplace⟩ | ⟨q, hq, hplace⟩
      · rcases List.mem_append.mp he with he | he
        · exact .inl ⟨e, he, hplace⟩
        · exact .inr ⟨s, List.mem_cons_self, (location_of_mem_entries he).symm.trans hplace⟩
      · exact .inr ⟨q, List.mem_cons_of_mem s hq, hplace⟩

theorem lines_pairwise_of_readLinesFrom {file : String} {number : Nat} {ls : List String}
    {ss : List Statement} (h : readLinesFrom file number ls = .ok ss) :
    ss.Pairwise fun r s => r.location.line ≤ s.location.line := by
  induction ls generalizing number ss with
  | nil =>
    obtain rfl := Except.ok.inj h
    exact .nil
  | cons line rest ih =>
    obtain ⟨own, hown, h⟩ := bind_eq_ok.mp h
    obtain ⟨others, hothers, h⟩ := bind_eq_ok.mp h
    obtain rfl := Except.ok.inj h
    have hplace {s : Statement} (hs : s ∈ own) : s.location.line = number := by
      rw [(placed_of_readLine hown hs).1]
    refine List.pairwise_append.mpr ⟨?_, ih hothers, ?_⟩
    · apply List.pairwise_of_forall_mem_list
      intro r hr s hs
      exact Int.le_of_eq ((hplace hr).trans (hplace hs).symm)
    · intro r hr s hs
      obtain ⟨k, -, -, -, -, -, hlocation⟩ := exists_line_of_readLinesFrom hothers hs
      rw [hplace hr, hlocation]
      push_cast
      omega

/-- A fault of a text is one of reading it, or of assembling what was read. -/
theorem assembleSource_eq_fault {origin : Int} {text : String}
    (h : assembleSource origin text = .error (.assembly d)) :
    (∃ s : Session, (s.assembleText text).1 = .error (.assembly d)) ∧
      (readSource mergedName text = .error (.fault d) ∨
        ∃ ss, readSource mergedName text = .ok ss ∧
          assemble origin.toNat [] ss = .error d) := by
  unfold assembleSource Session.start at h
  split at h
  · rw [ok_bind] at h
    have hresult : (Session.assembleText { origin := origin.toNat } text).1 =
        .error (.assembly d) := by
      rcases bind_eq_error.mp h with h | ⟨code, -, h⟩
      · exact h
      · simp at h
    refine ⟨⟨_, hresult⟩, ?_⟩
    rw [Session.assembleText_eq] at hresult
    cases hread : readSource mergedName text with
    | error e =>
      rw [hread] at hresult
      cases e with
      | numeral n => simp [ReadFailure.toFailure] at hresult
      | fault found => exact .inl (by simpa [ReadFailure.toFailure] using hresult)
    | ok ss =>
      simp only [hread] at hresult
      refine .inr ⟨ss, rfl, ?_⟩
      cases hassemble : assemble origin.toNat [] ss with
      | ok image => simp [hassemble] at hresult
      | error found => simpa [hassemble] using hresult
  · simp at h

/-- The second place that a report of a text names is one of the text, and does not come after the
report. -/
theorem assembleSource_eq_repeated {origin : Int} {text : String} {d : Diagnostic}
    (h : assembleSource origin text = .error (.assembly d)) {first : Location}
    (hfirst : d.fault.first? = some first) {k : Nat}
    (hk : d.location = some { file := mergedName, line := (k : Int) + 1 }) :
    ∃ j : Nat, j ≤ k ∧ first = { file := mergedName, line := (j : Int) + 1 } := by
  rcases (assembleSource_eq_fault h).2 with hread | ⟨ss, hread, hassemble⟩
  · rw [readLinesFrom_first? hread] at hfirst
    simp at hfirst
  rw [assemble_eq] at hassemble
  rcases bind_eq_error.mp hassemble with hlay | ⟨t, -, hemit⟩
  · obtain ⟨before, s, after, rfl, hfail, hwhere⟩ := layOut_eq_repeated hlay hfirst
    obtain ⟨r, hr, rfl⟩ : ∃ r ∈ before, r.location = first := by simpa using hwhere
    have hmem : r ∈ before ++ s :: after := List.mem_append_left _ hr
    obtain ⟨j, -, -, -, -, -, hlocation⟩ := exists_line_of_readLinesFrom hread hmem
    have horder : r.location.line ≤ s.location.line :=
      (List.pairwise_append.mp (lines_pairwise_of_readLinesFrom hread)).2.2 r hr s
        List.mem_cons_self
    have hplace : s.location = { file := mergedName, line := (k : Int) + 1 } := by
      rw [hfail] at hk
      exact Option.some.inj hk
    have hfirstLine : ((1 : Nat) : Int) + j = j + 1 := by omega
    rw [hfirstLine] at hlocation
    refine ⟨j, ?_, hlocation⟩
    rw [hlocation, hplace] at horder
    simp only at horder
    omega
  · have hnone := ((Unrepeated.emitRows t origin.toNat ss).bind fun rows =>
      .ok (Image.ofRows t rows)).fails d hemit
    rw [hnone] at hfirst
    simp at hfirst

end Toolchain6502.Assembly
