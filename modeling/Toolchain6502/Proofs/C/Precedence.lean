import Toolchain6502.Proofs.C.Ranges
import Toolchain6502.Proofs.C.WrittenAtoms

namespace Toolchain6502.C

open Text

/-- How tightly an operator binds. -/
def BinOp.level : BinOp → Nat
  | or => 0
  | xor => 1
  | and => 2
  | shl | shr => 3
  | add | sub => 4

/-- The level of a complement and of whatever no binary operator joins. -/
def unaryLevel : Nat := 5

/-- The tokens of an expression at a place where binary operators of a level and tighter ones may
stand. A looser operator is put into parentheses there, and nothing else is. -/
inductive Written (scope : Scope) : Nat → Expr → List Token → Prop
  | atom {level : Nat} {e : Expr} {text : List Char} (h : WrittenAtom scope e text) :
      Written scope level e [.atom text]
  | complement {level : Nat} {e : Expr} {ts : List Token} (h : Written scope unaryLevel e ts) :
      Written scope level (.complement e) (.complement :: ts)
  | binary {level : Nat} {op : BinOp} {left right : Expr} {ts us : List Token}
      (hlevel : level ≤ op.level) (hl : Written scope op.level left ts)
      (hr : Written scope (op.level + 1) right us) :
      Written scope level (.binary op left right) (ts ++ .op op :: us)
  | parentheses {level : Nat} {op : BinOp} {left right : Expr} {ts : List Token}
      (hlevel : op.level < level) (h : Written scope 0 (.binary op left right) ts) :
      Written scope level (.binary op left right) (.opening :: (ts ++ [.closing]))

/-- A text of an expression, with any blanks between its tokens. -/
def Rendered (scope : Scope) (e : Expr) (text : List Char) : Prop :=
  ∃ ts, Written scope 0 e ts ∧ Spaced (ts.map Token.text) text

def Term.Over (scope : Scope) : Term → Prop
  | immediate value => ∃ n : Nat, n ≤ 0xFF ∧ value = .whole n
  | byte address => ∃ name, scope.address? name = some address

def Address.Over (scope : Scope) (a : Address) : Prop :=
  (∃ n : Nat, n ≤ 0xFFFF ∧ a.base = .whole n) ∧ ∀ t ∈ a.offset, t.Over scope

def Expr.Over (scope : Scope) : Expr → Prop
  | term t => t.Over scope
  | memory a => a.Over scope
  | complement e => e.Over scope
  | binary _ left right => left.Over scope ∧ right.Over scope

theorem numeral_upperHex (n : Nat) : Numeral ('$' :: upperHex n) n := by
  have hne : upperHex n ≠ [] := by simp [upperHex]
  have h := Numeral.dollar hne fun c hc => isHexDigit_of_mem_upperHex hc
  rwa [positional_upperHex] at h

section
variable {scope : Scope}

theorem Term.Over.exists_written {t : Term} (h : t.Over scope) : ∃ text, WrittenTerm scope t text := by
  cases t with
  | immediate value =>
    obtain ⟨n, hn, rfl⟩ := h
    exact ⟨_, .immediate (.numeral (numeral_upperHex n)) hn⟩
  | byte address =>
    obtain ⟨name, hname⟩ := h
    exact ⟨name.toList, .byte (by rwa [String.ofList_toList])⟩

theorem Address.Over.exists_written {a : Address} (h : a.Over scope) :
    ∃ text, WrittenAddress scope a text := by
  obtain ⟨base, offset⟩ := a
  obtain ⟨⟨n, hn, hbase⟩, hoffset⟩ := h
  obtain rfl : base = .whole n := hbase
  have hword : WrittenWord scope n _ := .numeral (numeral_upperHex n)
  cases offset with
  | none => exact ⟨_, .base blanks_nil blanks_nil hword hn⟩
  | some t =>
    obtain ⟨text, ht⟩ := (hoffset t rfl).exists_written
    exact ⟨_, .offset blanks_nil blanks_nil blanks_nil blanks_nil hword hn ht⟩

/-- Every tree can be written at every place. -/
theorem Expr.Over.exists_written {e : Expr} (h : e.Over scope) (level : Nat) :
    ∃ ts, Written scope level e ts := by
  induction e generalizing level with
  | term t =>
    obtain ⟨text, ht⟩ := Term.Over.exists_written h
    exact ⟨_, .atom (.term ht)⟩
  | memory a =>
    obtain ⟨text, ha⟩ := Address.Over.exists_written h
    exact ⟨_, .atom (.memory List.mem_cons_self ha)⟩
  | complement e ih =>
    obtain ⟨ts, hts⟩ := ih h unaryLevel
    exact ⟨_, .complement hts⟩
  | binary op left right ihl ihr =>
    obtain ⟨ts, hts⟩ := ihl h.1 op.level
    obtain ⟨us, hus⟩ := ihr h.2 (op.level + 1)
    by_cases hlevel : level ≤ op.level
    · exact ⟨_, .binary hlevel hts hus⟩
    · exact ⟨_, .parentheses (Nat.lt_of_not_le hlevel) (.binary (Nat.zero_le _) hts hus)⟩

theorem Written.whole (hscope : scope.Named) {level : Nat} {e : Expr} {ts : List Token}
    (h : Written scope level e ts) : ∀ t ∈ ts, t.Whole := by
  induction h with
  | atom h => exact List.forall_mem_singleton.mpr (h.wholeAtom hscope)
  | complement _ ih => simpa [Token.Whole] using ih
  | binary _ _ _ ihl ihr =>
    rw [List.forall_mem_append, List.forall_mem_cons]
    exact ⟨ihl, trivial, ihr⟩
  | parentheses _ _ ih =>
    rw [List.forall_mem_cons, List.forall_mem_append, List.forall_mem_singleton]
    exact ⟨trivial, ih, trivial⟩

theorem Written.apart {level : Nat} {e : Expr} {ts : List Token} (h : Written scope level e ts) :
    ts.IsChain Token.Apart := by
  induction h with
  | atom h => exact .singleton _
  | complement _ ih => exact Token.Apart.cons rfl ih
  | binary _ _ _ ihl ihr => exact Token.Apart.append_cons rfl ihl ihr
  | parentheses _ _ ih => exact Token.Apart.cons rfl (Token.Apart.append_cons rfl ih .nil)

end

def operators (level : Nat) : List BinOp := levels.getD level []

def readFrom (operand : Reader) (level : Nat) : Reader :=
  (levels.drop level).foldr (fun ops tighter => readLevel tighter ops) operand

theorem BinOp.level_lt (op : BinOp) : op.level < unaryLevel := by
  cases op <;> decide

theorem contains_operators {level : Nat} (op : BinOp) :
    (operators level).contains op = true → op.level = level := by
  match level with
  | 0 | 1 | 2 | 3 | 4 => cases op <;> decide
  | level + 5 => simp [operators, levels]

theorem contains_operators_level (op : BinOp) : (operators op.level).contains op = true := by
  cases op <;> rfl

theorem readFrom_eq {level : Nat} (h : level < unaryLevel) (operand : Reader) :
    readFrom operand level = readLevel (readFrom operand (level + 1)) (operators level) := by
  match level, h with
  | 0, _ | 1, _ | 2, _ | 3, _ | 4, _ => rfl

/-- The tokens go on with no operator of a level or a tighter one. -/
def Stops (level : Nat) (ts : List Token) : Prop := ∀ op, ts.head? = some (.op op) → op.level < level

theorem Stops.mono {level level' : Nat} {ts : List Token} (h : Stops level ts)
    (hle : level ≤ level') : Stops level' ts :=
  fun op hop => Nat.lt_of_lt_of_le (h op hop) hle

theorem readMore_stops {level : Nat} {rest : List Token} (h : Stops level rest) (operand : Reader)
    (count : Nat) (e : Expr) :
    readMore operand (operators level) count e rest = .ok (e, rest) := by
  cases count with
  | zero => rfl
  | succ count =>
    unfold readMore
    split
    · next op rest' =>
      have hnot : ¬(operators level).contains op = true := fun hop =>
        Nat.lt_irrefl _ (contains_operators op hop ▸ h op rfl)
      rw [if_neg hnot]
    · rfl

section
variable (scope : Scope) (level : Nat) (e : Expr) (ts : List Token)

/-- The tokens are read to an expression, up to where its level stops. -/
def Reads : Prop :=
  ∀ depth, ts.length < depth → ∀ rest, Stops level rest →
    readFrom (readOperand scope depth) level (ts ++ rest) = .ok (e, rest)

/-- The tokens are read to an expression, and more operands of its level are joined to it. -/
def Joins : Prop :=
  ∀ depth, ts.length < depth → ∀ rest, Stops (level + 1) rest → ∃ count, rest.length ≤ count ∧
    readFrom (readOperand scope depth) level (ts ++ rest) =
      readMore (readFrom (readOperand scope depth) (level + 1)) (operators level) count e rest

end

section
variable {scope : Scope} {level : Nat} {e : Expr} {ts : List Token}

theorem Joins.reads (h : Joins scope level e ts) : Reads scope level e ts := by
  intro depth hdepth rest hrest
  obtain ⟨count, -, hread⟩ := h depth hdepth rest (hrest.mono (Nat.le_succ level))
  rw [hread, readMore_stops hrest]

theorem Reads.joins (h : Reads scope (level + 1) e ts) (hlevel : level < unaryLevel) :
    Joins scope level e ts := by
  intro depth hdepth rest hrest
  refine ⟨rest.length, Nat.le_refl _, ?_⟩
  rw [readFrom_eq hlevel, readLevel, h depth hdepth rest hrest]
  rfl

/-- What is read at a level is read at every looser one. -/
theorem Reads.loosen {level' : Nat} (h : Reads scope level e ts) (hlevel : level ≤ unaryLevel)
    (hle : level' ≤ level) : Reads scope level' e ts := by
  induction level, hle using Nat.le_induction with
  | base => exact h
  | succ level hle ih => exact ih (h.joins hlevel).reads (Nat.le_of_succ_le hlevel)

theorem Joins.binary {op : BinOp} {left right : Expr} {us : List Token}
    (hl : Joins scope op.level left ts) (hr : Reads scope (op.level + 1) right us) :
    Joins scope op.level (.binary op left right) (ts ++ .op op :: us) := by
  intro depth hdepth rest hrest
  rw [List.length_append, List.length_cons] at hdepth
  have hstops : Stops (op.level + 1) (.op op :: (us ++ rest)) := by
    intro op' hop'
    obtain rfl : op = op' := by simpa using hop'
    exact Nat.lt_succ_self _
  obtain ⟨count, hcount, hread⟩ := hl depth (by omega) _ hstops
  rw [List.length_cons, List.length_append] at hcount
  obtain ⟨count, rfl⟩ : ∃ k, count = k + 1 := ⟨count - 1, by omega⟩
  refine ⟨count, by omega, ?_⟩
  rw [List.append_assoc, List.cons_append, hread, readMore, if_pos (contains_operators_level op),
    hr depth (by omega) rest hrest]
  rfl

theorem readFrom_unaryLevel (operand : Reader) : readFrom operand unaryLevel = operand := rfl

theorem Reads.atom (hscope : scope.Named) {text : List Char} (h : WrittenAtom scope e text) :
    Reads scope unaryLevel e [.atom text] := by
  intro depth hdepth rest _
  obtain ⟨depth, rfl⟩ : ∃ k, depth = k + 1 := ⟨depth - 1, by simp at hdepth; omega⟩
  simp [readFrom_unaryLevel, readOperand, Token.text, h.readAtom hscope]

theorem Reads.complement (h : Reads scope unaryLevel e ts) :
    Reads scope unaryLevel (.complement e) (.complement :: ts) := by
  intro depth hdepth rest hrest
  rw [List.length_cons] at hdepth
  obtain ⟨depth, rfl⟩ : ∃ k, depth = k + 1 := ⟨depth - 1, by omega⟩
  have hread := h depth (by omega) rest hrest
  rw [readFrom_unaryLevel] at hread ⊢
  simp [readOperand, hread]

theorem Reads.parentheses (h : Reads scope 0 e ts) :
    Reads scope unaryLevel e (.opening :: (ts ++ [.closing])) := by
  intro depth hdepth rest _
  rw [List.length_cons, List.length_append, List.length_singleton] at hdepth
  obtain ⟨depth, rfl⟩ : ∃ k, depth = k + 1 := ⟨depth - 1, by omega⟩
  have hread : readLevels (readOperand scope depth) (ts ++ .closing :: rest) =
      .ok (e, .closing :: rest) :=
    h depth (by omega) _ fun op hop => by simp at hop
  rw [readFrom_unaryLevel]
  simp [readOperand, hread]

/-- The tokens of a tree are read back to it. The proof goes over the grammar; a binary operator is
read in the loop that has already read its left operand. -/
theorem Written.reads (hscope : scope.Named) (h : Written scope level e ts)
    (hlevel : level ≤ unaryLevel) :
    Reads scope level e ts ∧ (level < unaryLevel → Joins scope level e ts) := by
  have hunary {level : Nat} {e : Expr} {ts : List Token} (hlevel : level ≤ unaryLevel)
      (h : Reads scope unaryLevel e ts) :
      Reads scope level e ts ∧ (level < unaryLevel → Joins scope level e ts) :=
    ⟨h.loosen (Nat.le_refl _) hlevel, fun hlt => (h.loosen (Nat.le_refl _) hlt).joins hlt⟩
  induction h with
  | atom h => exact hunary hlevel (.atom hscope h)
  | complement _ ih => exact hunary hlevel (ih (Nat.le_refl _)).1.complement
  | parentheses _ _ ih => exact hunary hlevel (ih (Nat.zero_le _)).1.parentheses
  | @binary level op left right ts us hle _ _ ihl ihr =>
    have hop := op.level_lt
    have hjoins := ((ihl hop.le).2 hop).binary (ihr hop).1
    rcases Nat.eq_or_lt_of_le hle with rfl | hlt
    · exact ⟨hjoins.reads, fun _ => hjoins⟩
    · exact ⟨hjoins.reads.loosen hop.le hle,
        fun hlevel => (hjoins.reads.loosen hop.le hlt).joins hlevel⟩

theorem Written.ne_nil (h : Written scope level e ts) : ts ≠ [] := by
  cases h <;> simp

end

/-- Every tree over a scope of identifiers has a text, and from every text that it may have it is
read back. -/
theorem readExpression_rendered {scope : Scope} (hscope : scope.Named) {e : Expr}
    (he : e.Over scope) :
    (∃ text, Rendered scope e text) ∧
      ∀ text, Rendered scope e text → readExpression scope text = .ok e := by
  constructor
  · obtain ⟨ts, hts⟩ := he.exists_written 0
    exact ⟨_, ts, hts, spaced_flatMap blanks_nil _⟩
  · rintro text ⟨ts, hts, hspaced⟩
    have htokens : tokenize text = .ok ts := by
      simp [tokenize, tokens_of_spaced hspaced (hts.whole hscope) hts.apart, hts.ne_nil]
    have hread : readLevels (readOperand scope (ts.length + 1)) ts = .ok (e, []) := by
      have := (hts.reads hscope (Nat.zero_le _)).1 (ts.length + 1) (Nat.lt_succ_self _) []
        (by simp [Stops])
      rwa [List.append_nil] at this
    simp [readExpression, htokens, failWith, readTokens, hread, inContext]

def sampleScope : Scope :=
  { addresses := [("x", 0x40), ("y", 0x41)], constants := [("IO", 0x2000)] }

/-- An operator of every level, with looser ones inside tighter ones. -/
def sampleTree : Expr :=
  let x := Expr.term (.byte 0x40)
  let cell := Expr.memory ⟨0x2000, some (.byte 0x40)⟩
  .binary .or x (.binary .shl
    (.binary .sub (.term (.byte 0x41)) (.binary .add (.term (.immediate 1)) cell))
    (.complement (.binary .and x (.binary .xor cell (.term (.immediate 7))))))

theorem sampleTree_read : sampleScope.Named ∧ sampleTree.Over sampleScope ∧
    readExpression sampleScope
        " x | y - ( 1 + [IO+x] ) << ~ ( x & ( mem[ $2000 + x] ^ 0x7 ) )".toList =
      .ok sampleTree := by
  have hscope : sampleScope.Named := by
    constructor
    · intro name address h
      have := mem_of_lookup h
      simp only [sampleScope, List.mem_cons, List.not_mem_nil, or_false, Prod.mk.injEq] at this
      rcases this with ⟨rfl, -⟩ | ⟨rfl, -⟩ <;> decide
    · intro name value h
      have := mem_of_lookup h
      simp only [sampleScope, List.mem_cons, List.not_mem_nil, or_false, Prod.mk.injEq] at this
      obtain ⟨rfl, -⟩ := this
      decide
  have hx : WrittenTerm sampleScope (.byte 0x40) ['x'] := .byte rfl
  have hy : WrittenTerm sampleScope (.byte 0x41) ['y'] := .byte rfl
  have hone : WrittenTerm sampleScope (.immediate 1) ['1'] :=
    .immediate (.numeral (.decimal (by decide) (by simp) (by decide))) (by decide)
  have hseven : WrittenTerm sampleScope (.immediate 7) ['0', 'x', '7'] :=
    .immediate (.numeral (.zeroX (by decide) (by simp [isHexDigit]))) (by decide)
  have hblank : Blanks [' '] := by simp [Blanks, isBlank]
  have hnamed : WrittenAddress sampleScope ⟨0x2000, some (.byte 0x40)⟩ ['I', 'O', '+', 'x'] :=
    have hbase : WrittenWord sampleScope 0x2000 ['I', 'O'] := .constant rfl rfl
    .offset blanks_nil blanks_nil blanks_nil blanks_nil hbase (by decide) hx
  have hnumbered : WrittenAddress sampleScope ⟨0x2000, some (.byte 0x40)⟩
      [' ', '$', '2', '0', '0', '0', ' ', '+', ' ', 'x'] :=
    have hbase : WrittenWord sampleScope 0x2000 ['$', '2', '0', '0', '0'] :=
      .numeral (.dollar (by decide) (by simp [isHexDigit]))
    .offset hblank hblank hblank blanks_nil hbase (by decide) hx
  have hbare : [] ∈ memoryNames := by decide
  have hmem : ['m', 'e', 'm'] ∈ memoryNames := by decide
  have hsum : Written sampleScope 0 (.binary .add _ _) _ :=
    .binary (by decide) (.atom (.term hone)) (.atom (.memory hbare hnamed))
  have hmask : Written sampleScope 0 (.binary .and _ (.binary .xor _ _)) _ :=
    .binary (by decide) (.atom (.term hx)) (.parentheses (by decide)
      (.binary (by decide) (.atom (.memory hmem hnumbered)) (.atom (.term hseven))))
  have hwritten : Written sampleScope 0 sampleTree _ :=
    .binary (by decide) (.atom (.term hx)) <| .binary (by decide)
      (.binary (by decide) (.atom (.term hy)) (.parentheses (by decide) hsum))
      (.complement (.parentheses (by decide) hmask))
  have hover : sampleTree.Over sampleScope := by
    have hcell : Address.Over sampleScope ⟨0x2000, some (.byte 0x40)⟩ := by
      refine ⟨⟨0x2000, by decide, rfl⟩, ?_⟩
      rintro t ⟨⟩
      exact ⟨"x", rfl⟩
    exact ⟨⟨"x", rfl⟩, ⟨⟨"y", rfl⟩, ⟨1, by decide, rfl⟩, hcell⟩, ⟨"x", rfl⟩, hcell,
      ⟨7, by decide, rfl⟩⟩
  exact ⟨hscope, hover, (readExpression_rendered hscope hover).2 _
    ⟨_, hwritten, spaced_flatMap hblank _⟩⟩

end Toolchain6502.C
