import Toolchain6502.Proofs.C.LineVariables

namespace Toolchain6502.C

open Files Source Text

variable {a : Allocation} {d : Declaration} {text : List Char} {f : SourceFile} {path : Path}
  {line : SourceLine} {first : Variable} {current : List String}

/-- A computation fails for a fault of a C source. -/
def Fails (x : Except Failure α) (fault : Fault) : Prop :=
  ∃ d : Diagnostic, x = .error (.c d) ∧ d.fault = fault

/-- A computation fails since there is no byte left for a variable. -/
abbrev Unplaced (x : Except Failure α) (name : String) : Prop := Fails x (.zeroPageExhausted name)

theorem Fails.unique {x : Except Failure α} {fault fault' : Fault} (h : Fails x fault)
    (h' : Fails x fault') : fault = fault' := by
  obtain ⟨d, hd, rfl⟩ := h
  obtain ⟨d', hd', rfl⟩ := h'
  rw [Failure.c.inj (Except.error.inj (hd.symm.trans hd'))]

section

variable {fault : Fault}

@[simp] theorem not_fails_ok (a : α) : ¬Fails (.ok a) fault := by
  simp [Fails]

@[simp] theorem fails_fail_iff {cause : Fault} :
    Fails (fail cause : Except Failure α) fault ↔ cause = fault := by
  simp [Fails, fail]

@[simp] theorem fail_bind (fault : Fault) (f : α → Except Failure β) :
    (fail fault >>= f) = fail fault := rfl

@[simp] theorem fails_bind_iff {x : Except Failure α} {f : α → Except Failure β} :
    Fails (x >>= f) fault ↔ Fails x fault ∨ ∃ a, x = .ok a ∧ Fails (f a) fault := by
  cases x <;> simp [Fails]

@[simp] theorem fails_ite_iff {c : Prop} [Decidable c] {x y : Except Failure α} :
    Fails (if c then x else y) fault ↔ c ∧ Fails x fault ∨ ¬c ∧ Fails y fault := by
  by_cases hc : c <;> simp [hc]

@[simp] theorem fails_map_iff {x : Except Failure α} {f : α → β} :
    Fails (x.map f) fault ↔ Fails x fault := by
  cases x <;> simp [Fails, Except.map]

@[simp] theorem fails_inContext_iff {context : Context} {x : Except Failure α} :
    Fails (inContext context x) fault ↔ Fails x fault := by
  unfold inContext
  split <;> simp [Fails]

@[simp] theorem fails_atLine_iff {location : Location} {source : String}
    {x : Except Failure α} : Fails (atLine location source x) fault ↔ Fails x fault := by
  unfold atLine
  split
  · split <;> simp [Fails]
  · rfl

/-- A run fails at one of its steps, behind steps that succeed. -/
theorem fails_foldlM_iff {f : σ → α → Except Failure σ} {l : List α} {s : σ} :
    Fails (l.foldlM f s) fault ↔ ∃ before a after s', l = before ++ a :: after ∧
      before.foldlM f s = .ok s' ∧ Fails (f s' a) fault := by
  induction l generalizing s with
  | nil => simp
  | cons a l ih =>
    rw [List.foldlM_cons, fails_bind_iff]
    constructor
    · rintro (h | ⟨s₁, hs₁, h⟩)
      · exact ⟨[], a, l, s, rfl, rfl, h⟩
      · obtain ⟨before, b, after, s', rfl, hbefore, h⟩ := ih.mp h
        exact ⟨a :: before, b, after, s', rfl, by rw [List.foldlM_cons, hs₁, ok_bind, hbefore], h⟩
    · rintro ⟨before, b, after, s', hl, hbefore, h⟩
      cases before with
      | nil =>
        obtain ⟨rfl, rfl⟩ := List.cons.inj hl
        obtain rfl := Except.ok.inj hbefore
        exact .inl h
      | cons c before =>
        obtain ⟨rfl, rfl⟩ := List.cons.inj hl
        rw [List.foldlM_cons] at hbefore
        obtain ⟨s₁, hs₁, hbefore⟩ := bind_eq_ok.mp hbefore
        exact .inr ⟨s₁, hs₁, ih.mpr ⟨before, b, after, s', rfl, hbefore, h⟩⟩

@[simp] theorem not_fails_number (x : Except NumberFault α) :
    ¬Fails (failWith .number x) fault := by
  cases x <;> simp [Fails, failWith]

@[simp] theorem not_fails_numeral (x : Except NumeralFault α) :
    ¬Fails (failWith .numeral x) fault := by
  cases x <;> simp [Fails, failWith]

@[simp] theorem not_fails_canonical (current : List String) (p : Path) :
    ¬Fails (canonical current p) fault := by
  unfold canonical
  split <;> simp [Fails]

end

section

variable {name : String}

@[simp] theorem not_unplaced_checkIdentifier (text : List Char) :
    ¬Unplaced (checkIdentifier text) name := by
  simp [checkIdentifier]

@[simp] theorem not_unplaced_readHex (token digits : List Char) :
    ¬Unplaced (readHex token digits) name := by
  simp [readHex]

@[simp] theorem not_unplaced_readDecimal (token : List Char) :
    ¬Unplaced (readDecimal token) name := by
  simp [readDecimal]

@[simp] theorem not_unplaced_readLiteral (token : List Char) :
    ¬Unplaced (readLiteral token) name := by
  unfold readLiteral
  split <;> simp

@[simp] theorem not_unplaced_readWord (scope : Scope) (token : List Char) :
    ¬Unplaced (readWord scope token) name := by
  simp only [readWord]
  split <;> simp

@[simp] theorem not_unplaced_readTerm (scope : Scope) (token : List Char) :
    ¬Unplaced (readTerm scope token) name := by
  unfold readTerm
  split
  · simp
  · simp

@[simp] theorem not_unplaced_spriteAccess (scope : Scope) (rest : List Char) :
    ¬Unplaced (spriteAccess scope rest) name := by
  unfold spriteAccess
  split
  · simp
  · split
    · simp
    · rename_i e hother he
      rintro ⟨d, hd, -⟩
      exact hother d (Except.error.inj hd)
    · simp

@[simp] theorem not_unplaced_readAccess (scope : Scope) (text : List Char) :
    ¬Unplaced (readAccess scope text) name := by
  simp only [readAccess]
  split
  · simp
  · split
    · simp
    · split <;> simp

@[simp] theorem not_unplaced_readAddress (scope : Scope) (text : List Char) :
    ¬Unplaced (readAddress scope text) name := by
  unfold readAddress
  split <;> simp

theorem fault_of_tokens {cs : List Char} {fault : Fault} (h : tokens cs = .error fault) :
    fault ≠ .zeroPageExhausted name := by
  fun_induction tokens cs with
  | case1 => simp at h
  | case2 c rest hblank ih => exact ih h
  | case3 c rest hblank t more hsymbol ih =>
    rcases bind_eq_error.mp h with h | ⟨others, -, h⟩
    · exact ih h
    · simp at h
  | case4 => simp [← Except.error.inj h]
  | case5 => simp [← Except.error.inj h]
  | case6 _ _ _ _ _ _ _ _ ih =>
    rcases bind_eq_error.mp h with h | ⟨others, -, h⟩
    · exact ih h
    · simp at h

@[simp] theorem not_unplaced_tokenize (text : List Char) :
    ¬Unplaced (failWith (fun fault => .c { fault }) (tokenize text)) name := by
  rintro ⟨d, hd, hfault⟩
  cases htokens : tokenize text with
  | ok ts => simp [htokens, failWith] at hd
  | error fault =>
    have hsame : fault = d.fault := by
      simp only [htokens, failWith, Except.error.injEq, Failure.c.injEq] at hd
      rw [← hd]
    rcases bind_eq_error.mp htokens with h | ⟨ts, -, h⟩
    · exact fault_of_tokens h (hsame.trans hfault)
    · split at h
      · obtain rfl := Except.error.inj h
        simp [hfault] at hsame
      · simp at h

/-- A reader of expressions that never runs out of bytes. -/
def Reader.Roomy (operand : Reader) : Prop := ∀ ts name, ¬Unplaced (operand ts) name

theorem Reader.Roomy.readMore {operand : Reader} (h : operand.Roomy) (ops : List BinOp) (n : Nat)
    (left : Expr) : Reader.Roomy (C.readMore operand ops n left) := by
  induction n generalizing left with
  | zero =>
    intro ts name
    simp [C.readMore]
  | succ n ih =>
    intro ts name
    unfold C.readMore
    split
    · have hmore (e : Expr) (rest : List Token) := ih e rest name
      simp [h _ name, hmore]
    · simp

theorem Reader.Roomy.readLevels {operand : Reader} (h : operand.Roomy) :
    Reader.Roomy (C.readLevels operand) := by
  have hlevel (operand : Reader) (h : operand.Roomy) (ops : List BinOp) :
      Reader.Roomy (readLevel operand ops) := by
    intro ts name
    have hmore (n : Nat) (left : Expr) (ts : List Token) := h.readMore ops n left ts name
    simp [readLevel, h ts name, hmore]
  unfold C.readLevels
  induction levels with
  | nil => exact h
  | cons ops tighter ih => exact hlevel _ ih ops

@[simp] theorem not_unplaced_readAtom (scope : Scope) (text : List Char) :
    ¬Unplaced (readAtom scope text) name := by
  unfold readAtom
  simp only [fails_bind_iff, not_unplaced_readAccess, false_or]
  rintro ⟨address, -, h⟩
  cases address <;> simp at h

theorem readOperand_roomy (scope : Scope) (depth : Nat) :
    Reader.Roomy (readOperand scope depth) := by
  induction depth with
  | zero =>
    intro ts name
    simp [readOperand]
  | succ depth ih =>
    intro ts name
    cases ts with
    | nil => simp [readOperand]
    | cons t ts =>
      cases t with
      | closing => simp [readOperand]
      | complement => simp [readOperand, ih ts name]
      | op o => simp [readOperand]
      | atom text => simp [readOperand]
      | opening =>
        simp only [readOperand, fails_bind_iff, ih.readLevels ts name, false_or]
        rintro ⟨⟨e, rest⟩, -, h⟩
        dsimp only at h
        split at h <;> simp at h

@[simp] theorem not_unplaced_readExpression (scope : Scope) (text : List Char) :
    ¬Unplaced (readExpression scope text) name := by
  unfold readExpression readTokens
  simp only [fails_inContext_iff, fails_bind_iff, not_unplaced_tokenize, false_or]
  rintro ⟨ts, -, h | ⟨⟨e, rest⟩, -, h⟩⟩
  · exact (readOperand_roomy scope _).readLevels ts name h
  · dsimp only at h
    split at h <;> simp at h

@[simp] theorem not_unplaced_readCondition (scope : Scope) (text : List Char) :
    ¬Unplaced (readCondition scope text) name := by
  have hsplit : ¬Unplaced (splitCondition text) name := by
    unfold splitCondition
    split <;> simp
  simp [readCondition, readSides, hsplit]

@[simp] theorem not_unplaced_findVariable (scope : Scope) (text : List Char) :
    ¬Unplaced (findVariable scope text) name := by
  simp only [findVariable]
  split <;> simp

@[simp] theorem not_unplaced_readValue (scope : Scope) (text : List Char) :
    ¬Unplaced (readValue scope text) name := by
  unfold readValue readTarget
  simp only [fails_bind_iff, not_unplaced_readAccess, false_or]
  rintro ⟨address, -, h⟩
  cases address <;> simp at h

@[simp] theorem not_unplaced_readAssignment (scope : Scope) (left right : List Char) :
    ¬Unplaced (readAssignment scope left right) name := by
  unfold readAssignment readTarget
  simp only [fails_bind_iff, not_unplaced_readAccess, false_or]
  rintro ⟨address, -, h⟩
  cases address <;> simp at h

@[simp] theorem not_unplaced_readStatement (scope : Scope) (text : List Char) :
    ¬Unplaced (readStatement scope text) name := by
  simp only [readStatement]
  split
  · simp
  · split
    · simp
    · split
      · simp
      · split
        · simp
        · split
          · simp
          · split <;> simp

@[simp] theorem not_unplaced_declaration? (text : List Char) :
    ¬Unplaced (declaration? text) name := by
  unfold declaration?
  split
  · simp
  · split
    · simp
    · simp only [fails_map_iff, readDeclared]
      split <;> simp

@[simp] theorem not_unplaced_isExternal (text : List Char) : ¬Unplaced (isExternal text) name := by
  simp only [isExternal]
  split
  · exact not_fails_ok _
  · split
    · exact not_fails_ok _
    · simp

@[simp] theorem not_unplaced_prototype? (text : List Char) :
    ¬Unplaced (prototype? text) name := by
  unfold prototype?
  split <;> simp

@[simp] theorem not_unplaced_functionStart? (text : List Char) :
    ¬Unplaced (functionStart? text) name := by
  unfold functionStart?
  split
  · simp
  · split <;> simp

/-- The faults of a header are not about variables. -/
def HeaderFaults.Roomy (faults : HeaderFaults) : Prop :=
  ∀ name, ∀ fault ∈ [faults.unopened, faults.unclosed, faults.noBlock, faults.nothing],
    fault ≠ .zeroPageExhausted name

theorem HeaderFaults.Roomy.headerBody {faults : HeaderFaults} (h : faults.Roomy)
    (rest : List Char) : ¬Unplaced (C.headerBody faults rest) name := by
  have hfaults := h name
  simp only [List.forall_mem_cons] at hfaults
  obtain ⟨hunopened, hunclosed, hnoBlock, hnothing, -⟩ := hfaults
  unfold C.headerBody
  split
  · simp [hunopened]
  · split <;> simp [hunclosed, hnoBlock, hnothing]

@[simp] theorem not_unplaced_conditionStart? (keyword : String) (text : List Char) :
    ¬Unplaced (conditionStart? keyword text) name := by
  have hfaults : (conditionFaults keyword).Roomy := by
    simp [HeaderFaults.Roomy, conditionFaults]
  unfold conditionStart?
  split
  · simp
  · simp [hfaults.headerBody]

@[simp] theorem not_unplaced_loopStart? (text : List Char) : ¬Unplaced (loopStart? text) name := by
  have hfaults : loopFaults.Roomy := by simp [HeaderFaults.Roomy, loopFaults]
  unfold loopStart?
  split
  · simp
  · simp only [fails_bind_iff, hfaults.headerBody, false_or]
    rintro ⟨body, -, h⟩
    split at h <;> simp at h

variable {p : Pass} {function : String} {location : Location}

@[simp] theorem Pass.not_unplaced_generate (check : Except NumberFault Unit)
    (code : Nat → Code × Nat) : ¬Unplaced (p.generate check code) name := by
  simp [generate]

@[simp] theorem Pass.not_unplaced_perform (s : Statement) :
    ¬Unplaced (p.perform function s) name := by
  simp [perform]

@[simp] theorem Pass.not_unplaced_statement (text : List Char) :
    ¬Unplaced (p.statement function text) name := by
  simp [statement]

@[simp] theorem Pass.not_unplaced_condition (text otherwise : String) :
    ¬Unplaced (p.condition text otherwise) name := by
  simp [condition]

@[simp] theorem Pass.not_unplaced_openIf (text : String) : ¬Unplaced (p.openIf text) name := by
  simp [openIf]

@[simp] theorem Pass.not_unplaced_openWhile (text : String) :
    ¬Unplaced (p.openWhile text) name := by
  simp [openWhile]

@[simp] theorem Pass.not_unplaced_openFor (header : LoopHeader) :
    ¬Unplaced (p.openFor function header) name := by
  unfold openFor
  cases header.initial <;> cases header.condition <;> simp

@[simp] theorem Pass.not_unplaced_close : ¬Unplaced (p.close function) name := by
  unfold close
  split
  · simp
  · dsimp only
    split
    · simp
    · simp
    · simp
    · split <;> simp

theorem unplaced_place_iff {wanted : String} :
    Unplaced (a.place wanted location) name ↔ wanted = name ∧ zeroPageLimit ≤ a.next := by
  unfold Allocation.place
  split
  · rename_i hfull
    simpa using fun _ => hfull
  · rename_i hroom
    simp only [not_fails_ok, false_iff]
    exact fun h => hroom h.2

theorem lookup_addresses_eq_none_iff {vs : List Variable} {wanted : String} :
    (vs.map fun v => (v.name, v.address)).lookup wanted = none ↔
      vs.find? (·.name = wanted) = none := by
  rw [List.lookup_eq_none_iff, List.find?_eq_none]
  simp [@eq_comm _ wanted]

/-- A local finds no byte just when its name is not seen and none is left. -/
theorem Pass.unplaced_declareLocal_iff :
    Unplaced (p.declareLocal d location) name ↔
      d.name = name ∧ p.scope.address? d.name = none ∧ zeroPageLimit ≤ p.allocation.next := by
  have hseen : p.scope.address? d.name = none ↔
      (p.allocation.globals ++ p.locals).find? (·.name = d.name) = none :=
    lookup_addresses_eq_none_iff
  unfold declareLocal
  rw [hseen]
  cases hfirst : (p.allocation.globals ++ p.locals).find? (·.name = d.name) with
  | some first => simp
  | none =>
    simp only [fails_bind_iff, unplaced_place_iff, true_and]
    refine or_iff_left ?_
    rintro ⟨⟨v, a⟩, -, h⟩
    cases hinitial : d.initial <;> simp [hinitial] at h

/-- Inside a function only a declaration can find no byte. -/
theorem Pass.unplaced_bodyLine_iff :
    Unplaced (p.bodyLine function text location) name ↔
      ∃ d, globalAt? text = some d ∧ Unplaced (p.declareLocal d location) name := by
  unfold bodyLine
  simp only [fails_bind_iff, not_unplaced_declaration?, false_or]
  constructor
  · rintro ⟨d, hd, h⟩
    cases d with
    | some d => exact ⟨d, globalAt?_eq_some.mpr hd, h⟩
    | none =>
    simp only [fails_bind_iff, not_unplaced_conditionStart?, false_or] at h
    obtain ⟨c, -, h⟩ := h
    cases c with
    | some c => simp at h
    | none =>
    simp only [fails_bind_iff, not_unplaced_conditionStart?, false_or] at h
    obtain ⟨c, -, h⟩ := h
    cases c with
    | some c => simp at h
    | none =>
    simp only [fails_bind_iff, not_unplaced_loopStart?, false_or] at h
    obtain ⟨header, -, h⟩ := h
    cases header <;> simp at h
  · rintro ⟨d, hd, h⟩
    exact ⟨some d, globalAt?_eq_some.mp hd, h⟩

theorem Pass.unplaced_innerLine_iff :
    Unplaced (p.innerLine function text location) name ↔
      ∃ d, globalAt? text = some d ∧ Unplaced (p.declareLocal d location) name := by
  unfold innerLine
  split
  · exact unplaced_bodyLine_iff
  · dsimp only
    split
    · rename_i helse
      simp [globalAt?_of_isElse helse]
    · simp only [unplaced_bodyLine_iff, unplaced_declareLocal_iff]
      rfl

@[simp] theorem Pass.not_unplaced_setGlobals : ¬Unplaced p.setGlobals name := by
  have hset (p : Pass) (i : Initializer) : ¬Unplaced (p.setGlobal i) name := by
    simp [setGlobal]
  unfold setGlobals
  generalize p.allocation.initializers = is
  induction is generalizing p with
  | nil => simp
  | cons i is ih => simp [hset, ih]

@[simp] theorem Pass.not_unplaced_addInit : ¬Unplaced p.addInit name := by
  unfold addInit
  split <;> simp

@[simp] theorem Pass.not_unplaced_openFunction (opened : String) :
    ¬Unplaced (p.openFunction opened location) name := by
  unfold openFunction
  cases p.functions.lookup opened <;> simp

@[simp] theorem Pass.not_unplaced_topLine (line : SourceLine) :
    ¬Unplaced (p.topLine line location) name := by
  unfold topLine
  simp only [fails_bind_iff, fails_ite_iff, not_unplaced_declaration?, pure_eq_ok,
    not_fails_ok, not_unplaced_isExternal, not_unplaced_prototype?,
    not_unplaced_functionStart?, false_or, and_false]
  rintro ⟨-, -, -, -, -, -, -, -, -, start, -, h⟩
  cases start <;> simp at h

/-- In the second pass a line finds no byte just when it declares a new name inside a function, and
none is left. -/
theorem Pass.unplaced_line_iff :
    Unplaced (p.line f path line) name ↔
      ∃ d, p.localAt? line = some d ∧ d.name = name ∧ p.scope.address? d.name = none ∧
        zeroPageLimit ≤ p.allocation.next := by
  unfold Pass.line Pass.localAt?
  simp only [fails_atLine_iff]
  have hmoved : (p.moveTo path line.number).function = p.function := rfl
  rw [hmoved]
  cases p.function with
  | none => simp
  | some function =>
    simp only [unplaced_innerLine_iff, unplaced_declareLocal_iff, Option.isSome_some, if_true]
    rfl

/-- A name that is seen is not declared again. -/
theorem Pass.fails_bodyLine_of_seen (hd : globalAt? text = some d)
    (hfirst : (p.allocation.globals ++ p.locals).find? (·.name = d.name) = some first) :
    Fails (p.bodyLine function text location) (.duplicate .localVariable d.name first.location) := by
  have hdeclares : p.bodyLine function text location = p.declareLocal d location := by
    simp [bodyLine, globalAt?_eq_some.mp hd]
  rw [hdeclares, declareLocal, hfirst]
  simp

theorem Pass.fails_innerLine_of_seen (hd : globalAt? text = some d)
    (hfirst : (p.allocation.globals ++ p.locals).find? (·.name = d.name) = some first) :
    Fails (p.innerLine function text location) (.duplicate .localVariable d.name first.location) := by
  unfold innerLine
  split
  · exact fails_bodyLine_of_seen hd hfirst
  · dsimp only
    split
    · rename_i helse
      simp [globalAt?_of_isElse helse] at hd
    · exact fails_bodyLine_of_seen hd hfirst

theorem Pass.fails_line_of_seen (hd : p.localAt? line = some d)
    (hfirst : (p.allocation.globals ++ p.locals).find? (·.name = d.name) = some first) :
    Fails (p.line f path line) (.duplicate .localVariable d.name first.location) := by
  unfold Pass.localAt? at hd
  unfold Pass.line
  simp only [fails_atLine_iff]
  have hmoved : (p.moveTo path line.number).function = p.function := rfl
  rw [hmoved]
  cases hfunction : p.function with
  | none => simp [hfunction] at hd
  | some function =>
    rw [hfunction, Option.isSome_some, if_pos rfl] at hd
    exact fails_innerLine_of_seen (p := p.moveTo path line.number) hd hfirst

theorem Allocation.unplaced_addGlobal_iff :
    Unplaced (a.addGlobal current path line location d) name ↔
      d.name = name ∧ a.globals.find? (·.name = d.name) = none ∧ zeroPageLimit ≤ a.next := by
  unfold addGlobal
  cases hfirst : a.globals.find? (·.name = d.name) with
  | some first => simp
  | none =>
    simp only [fails_bind_iff, unplaced_place_iff, true_and]
    refine or_iff_left ?_
    rintro ⟨⟨v, a⟩, -, h⟩
    cases hinitial : d.initial <;> simp [hinitial] at h

/-- A line that declares a variable is taken for nothing else. -/
theorem kinds_of_globalAt? (h : globalAt? text = some d) :
    prototype? text = .ok none ∧ isExternal text = .ok false ∧ functionStart? text = .ok none := by
  have hhead := head?_of_declaration? (globalAt?_eq_some.mp h)
  have hvoid : afterVoid? text = none := by
    cases hvoid : afterVoid? text with
    | none => rfl
    | some rest =>
      rw [head?_of_afterVoid? hvoid] at hhead
      simp at hhead
  have hexternal : "extern ".toList.isPrefixOf (trim text) = false := by
    cases htext : trim text with
    | nil => simp [htext] at hhead
    | cons c cs =>
      rw [htext, List.head?_cons, Option.some.injEq, Option.some.injEq] at hhead
      rcases hhead with rfl | rfl <;> rfl
  refine ⟨?_, ?_, ?_⟩
  · simp [prototype?, hvoid]
  · simp only [isExternal, hexternal, Bool.not_false, if_true]
  · simp [functionStart?, hvoid]

theorem Allocation.unplaced_topLine_iff :
    Unplaced (a.topLine current path line location) name ↔
      ∃ d, globalAt? line.text = some d ∧
        Unplaced (a.addGlobal current path line location d) name := by
  unfold topLine
  constructor
  · simp only [fails_bind_iff, fails_ite_iff, not_unplaced_prototype?, pure_eq_ok,
      not_fails_ok, not_unplaced_isExternal, not_unplaced_functionStart?, false_or, and_false]
    rintro ⟨-, -, -, -, -, -, start, -, h⟩
    cases start with
    | some opened => simp at h
    | none =>
    simp only [fails_bind_iff, not_unplaced_declaration?, false_or] at h
    obtain ⟨d, hd, h⟩ := h
    cases d with
    | none => simp at h
    | some d => exact ⟨d, globalAt?_eq_some.mpr hd, by simpa using h⟩
  · rintro ⟨d, hd, h⟩
    obtain ⟨hprototype, hexternal, hstart⟩ := kinds_of_globalAt? hd
    simp [hprototype, hexternal, hstart, globalAt?_eq_some.mp hd, h]

/-- In the first pass a line finds no byte just when it declares a new name outside functions, and
none is left. -/
theorem Allocation.unplaced_line_iff {depth : Nat} :
    Unplaced (Allocation.line current f (depth, a) line) name ↔
      depth = 0 ∧ ∃ d, globalAt? line.text = some d ∧ d.name = name ∧
        a.globals.find? (·.name = d.name) = none ∧ zeroPageLimit ≤ a.next := by
  cases depth with
  | succ depth => simp [Allocation.line]
  | zero =>
    simp only [Allocation.line, fails_atLine_iff, true_and, unplaced_topLine_iff,
      unplaced_addGlobal_iff]

theorem Allocation.fails_line_of_seen (hd : globalAt? line.text = some d)
    (hfirst : a.globals.find? (·.name = d.name) = some first) :
    Fails (Allocation.line current f (0, a) line) (.duplicate .global d.name first.location) := by
  obtain ⟨hprototype, hexternal, hstart⟩ := kinds_of_globalAt? hd
  simp [Allocation.line, topLine, hprototype, hexternal, hstart, globalAt?_eq_some.mp hd, addGlobal,
    hfirst]

end

end Toolchain6502.C
