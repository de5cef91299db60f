import Toolchain6502.C.Statement
import Toolchain6502.Proofs.Outcome

namespace Toolchain6502.C

open Text

structure Scope.Alike (s t : Scope) : Prop where
  constants : t.constants = s.constants
  names : ∀ name, (t.address? name).isSome = (s.address? name).isSome

/-- Where one computation succeeds another one does, with a result that is related to the first. -/
def Mirrors (R : α → β → Prop) (x : Except ε α) (y : Except ε β) : Prop :=
  ∀ a, x = .ok a → ∃ b, y = .ok b ∧ R a b

/-- Code in two forms that are checked for the same numbers and have the same lines. -/
structure SameForm (check check' : Except NumberFault Unit) (code code' : Nat → Code × Nat) :
    Prop where
  check : check' = check
  lines : ∀ n n', (code' n').1.length = (code n).1.length

def Expr.Alike (e e' : Expr) : Prop := SameForm e.check e'.check e.code e'.code

def Condition.Alike (c c' : Condition) : Prop :=
  ∀ label label', SameForm c.check c'.check (c.code · label) (c'.code · label')

def Statement.Alike (s s' : Statement) : Prop :=
  ∀ function, SameForm s.check s'.check (s.code function) (s'.code function)

inductive Term.Alike : Term → Term → Prop
  | same (t : Term) : Alike t t
  | bytes (address address' : Int) : Alike (.byte address) (.byte address')

structure Address.Alike (a a' : Address) : Prop where
  base : a'.base = a.base
  offset : a.offset = none ∧ a'.offset = none ∨
    ∃ t t', a.offset = some t ∧ a'.offset = some t' ∧ t.Alike t'

namespace Mirrors

variable {R : α → α' → Prop} {S : β → β' → Prop}

theorem ok {a : α} {a' : α'} (h : R a a') : Mirrors R (.ok a : Except ε α) (.ok a') := by
  rintro _ ⟨⟩
  exact ⟨a', rfl, h⟩

theorem refl {R : α → α → Prop} (h : ∀ a, R a a) (x : Except ε α) : Mirrors R x x :=
  fun a ha => ⟨a, ha, h a⟩

theorem error (e : ε) (y : Except ε α') : Mirrors R (.error e : Except ε α) y := by
  rintro _ ⟨⟩

theorem bind {x : Except ε α} {y : Except ε α'} {f : α → Except ε β} {g : α' → Except ε β'}
    (h : Mirrors R x y) (hf : ∀ a a', R a a' → Mirrors S (f a) (g a')) :
    Mirrors S (x >>= f) (y >>= g) := by
  intro b hb
  obtain ⟨a, ha, hb⟩ := bind_eq_ok.mp hb
  obtain ⟨a', ha', hR⟩ := h a ha
  obtain ⟨b', hb', hS⟩ := hf a a' hR b hb
  exact ⟨b', by rw [ha', ok_bind, hb'], hS⟩

theorem bind_same (x : Except ε α) {f : α → Except ε β} {g : α → Except ε β'}
    (hf : ∀ a, Mirrors S (f a) (g a)) : Mirrors S (x >>= f) (x >>= g) :=
  bind (refl (R := Eq) (fun _ => rfl) x) fun a _ h => h ▸ hf a

theorem inContext {x : Except Failure α} {y : Except Failure α'} (context : Context)
    (h : Mirrors R x y) : Mirrors R (inContext context x) (C.inContext context y) := by
  intro a ha
  have hx : x = .ok a := by
    unfold C.inContext at ha
    split at ha
    · simp at ha
    · exact ha
  obtain ⟨a', rfl, hR⟩ := h a hx
  exact ⟨a', rfl, hR⟩

end Mirrors

namespace Term.Alike

variable {t t' : Term}

theorem check (h : t.Alike t') : t'.check = t.check := by
  cases h <;> rfl

theorem load (h : t.Alike t') : t'.load.length = t.load.length := by
  cases h <;> rfl

end Term.Alike

namespace Address.Alike

variable {a a' : Address}

theorem check (h : a.Alike a') : a'.check = a.check := by
  unfold Address.check
  rcases h.offset with ⟨hnone, hnone'⟩ | ⟨t, t', ht, ht', halike⟩
  · simp only [hnone, hnone', h.base]
  · rw [ht, ht', h.base]
    cases halike <;> rfl

theorem access (h : a.Alike a') (m : Cpu.Mnemonic) :
    (a'.access m).length = (a.access m).length := by
  unfold Address.access
  rcases h.offset with ⟨hnone, hnone'⟩ | ⟨t, t', ht, ht', halike⟩
  · rw [hnone, hnone']
    rfl
  · rw [ht, ht']
    cases halike with
    | same t => cases t <;> rfl
    | bytes => rfl

end Address.Alike

theorem BinOp.code_length (op : BinOp) (n n' : Nat) :
    (op.code n').1.length = (op.code n).1.length := by
  cases op <;> rfl

theorem Comparison.code_length (op : Comparison) (n n' : Nat) (label label' : String) :
    (op.code n' label').1.length = (op.code n label).1.length := by
  cases op <;> rfl

namespace Expr.Alike

variable {e e' l l' r r' : Expr}

theorem term {t t' : Term} (h : t.Alike t') : Expr.Alike (.term t) (.term t') :=
  ⟨h.check, fun _ _ => h.load⟩

theorem memory {a a' : Address} (h : a.Alike a') : Expr.Alike (.memory a) (.memory a') :=
  ⟨h.check, fun _ _ => h.access .lda⟩

theorem complement (h : e.Alike e') : Expr.Alike (.complement e) (.complement e') := by
  refine ⟨h.check, fun n n' => ?_⟩
  simp only [Expr.code, List.length_append, h.lines n n', List.length_cons, List.length_nil]

theorem binary (op : BinOp) (hl : l.Alike l') (hr : r.Alike r') :
    Expr.Alike (.binary op l r) (.binary op l' r') := by
  refine ⟨by rw [Expr.check, Expr.check, hl.check, hr.check], fun n n' => ?_⟩
  simp only [Expr.code, List.length_append, List.length_cons, List.length_nil, hl.lines n n',
    hr.lines (l.code n).2 (l'.code n').2,
    op.code_length (r.code (l.code n).2).2 (r'.code (l'.code n').2).2]

end Expr.Alike

theorem Condition.alike_of_sides {l l' r r' : Expr} (op : Comparison) (hl : l.Alike l')
    (hr : r.Alike r') : Condition.Alike ⟨l, op, r⟩ ⟨l', op, r'⟩ := by
  intro label label'
  refine ⟨by rw [Condition.check, Condition.check, hl.check, hr.check], fun n n' => ?_⟩
  simp only [Condition.code, List.length_append, List.length_cons, List.length_nil, hl.lines n n',
    hr.lines (l.code n).2 (l'.code n').2,
    op.code_length (r.code (l.code n).2).2 (r'.code (l'.code n').2).2 label label']

namespace Statement.Alike

variable {e e' : Expr}

theorem refl (s : Statement) (h : ∀ function n n',
    (s.code function n').1.length = (s.code function n).1.length) : s.Alike s :=
  fun function => ⟨rfl, h function⟩

theorem increment (address address' : Int) :
    Statement.Alike (.increment address) (.increment address') := fun _ => ⟨rfl, fun _ _ => rfl⟩

theorem decrement (address address' : Int) :
    Statement.Alike (.decrement address) (.decrement address') := fun _ => ⟨rfl, fun _ _ => rfl⟩

theorem assign (address address' : Int) (h : e.Alike e') :
    Statement.Alike (.assign address e) (.assign address' e') := by
  refine fun function => ⟨h.check, fun n n' => ?_⟩
  simp only [Statement.code, List.length_append, h.lines n n', List.length_cons, List.length_nil]

theorem store {a a' : Address} (ha : a.Alike a') (h : e.Alike e') :
    Statement.Alike (.store a e) (.store a' e') := by
  refine fun function => ⟨?_, fun n n' => ?_⟩
  · rw [Statement.check, Statement.check, h.check, ha.check]
  · simp only [Statement.code, List.length_append, h.lines n n', ha.access .sta]

end Statement.Alike

namespace Scope.Alike

variable {s t : Scope} (h : s.Alike t)

include h

theorem constant? (name : String) : t.constant? name = s.constant? name := by
  unfold Scope.constant?
  rw [h.constants]

theorem address? (name : String) : s.address? name = none ∧ t.address? name = none ∨
    ∃ a b, s.address? name = some a ∧ t.address? name = some b := by
  have hname := h.names name
  cases hs : s.address? name with
  | none => exact .inl ⟨rfl, by simpa [hs] using hname⟩
  | some a =>
    obtain ⟨b, hb⟩ := Option.isSome_iff_exists.mp (hname.trans (by rw [hs]; rfl))
    exact .inr ⟨a, b, rfl, hb⟩

theorem readWord (token : List Char) : readWord t token = C.readWord s token := by
  unfold C.readWord
  rcases h.address? (String.ofList token) with ⟨hs, ht⟩ | ⟨a, b, hs, ht⟩
  · simp only [hs, ht, h.constant?]
  · simp only [hs, ht]

theorem readTerm (token : List Char) :
    Mirrors Term.Alike (readTerm s token) (C.readTerm t token) := by
  unfold C.readTerm
  rcases h.address? (String.ofList token) with ⟨hs, ht⟩ | ⟨a, b, hs, ht⟩
  · simp only [hs, ht, h.readWord]
    exact .refl .same _
  · simp only [hs, ht]
    exact .ok (.bytes a b)

theorem readAccess (text : List Char) : readAccess t text = C.readAccess s text := by
  have hsprite (offset : Number) : spriteAddress t offset = spriteAddress s offset := by
    unfold spriteAddress
    rw [h.constant?]
  have haccess (rest : List Char) : spriteAccess t rest = spriteAccess s rest := by
    unfold spriteAccess
    simp only [h.readWord, hsprite]
  unfold C.readAccess
  simp only [haccess]

theorem readAddress (text : List Char) :
    Mirrors Address.Alike (readAddress s text) (C.readAddress t text) := by
  unfold C.readAddress
  split
  · rw [h.readWord]
    exact .bind_same _ fun _ => .ok ⟨rfl, .inl ⟨rfl, rfl⟩⟩
  · rw [h.readWord]
    exact .bind_same _ fun _ =>
      .bind (h.readTerm _) fun _ _ halike => .ok ⟨rfl, .inr ⟨_, _, rfl, rfl, halike⟩⟩
  · exact .error _ _

theorem readAtom (text : List Char) : Mirrors Expr.Alike (readAtom s text) (C.readAtom t text) := by
  unfold C.readAtom
  rw [h.readAccess]
  refine .bind_same _ fun address => ?_
  cases address with
  | some address => exact .bind (h.readAddress _) fun _ _ halike => .ok (.memory halike)
  | none => exact .bind (h.readTerm _) fun _ _ halike => .ok (.term halike)

end Scope.Alike

/-- The same tokens are left behind two expressions of one form. -/
def LeavesAlike (r r' : Expr × List Token) : Prop := r.1.Alike r'.1 ∧ r.2 = r'.2

/-- A reader goes as another one on all tokens. -/
def Reader.Alike (read read' : Reader) : Prop := ∀ ts, Mirrors LeavesAlike (read ts) (read' ts)

namespace Reader.Alike

variable {read read' : Reader} (h : Reader.Alike read read')

include h

theorem more (ops : List BinOp) (count : Nat) {e e' : Expr} (he : e.Alike e') (ts : List Token) :
    Mirrors LeavesAlike (readMore read ops count e ts) (readMore read' ops count e' ts) := by
  induction count generalizing e e' ts with
  | zero => exact .ok ⟨he, rfl⟩
  | succ count ih =>
    unfold readMore
    split
    · split
      · refine .bind (h _) ?_
        rintro ⟨r, rest⟩ ⟨r', _⟩ ⟨hr, rfl⟩
        exact ih (.binary _ he hr) rest
      · exact .ok ⟨he, rfl⟩
    · exact .ok ⟨he, rfl⟩

theorem level (ops : List BinOp) : Reader.Alike (readLevel read ops) (readLevel read' ops) := by
  intro ts
  refine .bind (h ts) ?_
  rintro ⟨e, rest⟩ ⟨e', _⟩ ⟨he, rfl⟩
  exact h.more ops _ he rest

theorem levels : Reader.Alike (readLevels read) (readLevels read') := by
  unfold readLevels
  induction C.levels with
  | nil => exact h
  | cons ops rest ih => exact ih.level ops

end Reader.Alike

namespace Scope.Alike

variable {s t : Scope} (h : s.Alike t)

include h

theorem readOperand (depth : Nat) : Reader.Alike (readOperand s depth) (C.readOperand t depth) := by
  induction depth with
  | zero => exact fun ts => .error _ _
  | succ depth ih =>
    intro ts
    cases ts with
    | nil => exact .error _ _
    | cons token ts =>
      cases token with
      | closing => exact .error _ _
      | complement =>
        refine .bind (ih ts) ?_
        rintro ⟨e, rest⟩ ⟨e', _⟩ ⟨he, rfl⟩
        exact .ok ⟨.complement he, rfl⟩
      | opening =>
        refine .bind (ih.levels ts) ?_
        rintro ⟨e, rest⟩ ⟨e', _⟩ ⟨he, rfl⟩
        cases rest with
        | nil => exact .error _ _
        | cons token rest =>
          cases token with
          | closing => exact .ok ⟨he, rfl⟩
          | _ => exact .error _ _
      | _ => exact .bind (h.readAtom _) fun _ _ he => .ok ⟨he, rfl⟩

theorem readExpression (text : List Char) :
    Mirrors Expr.Alike (readExpression s text) (C.readExpression t text) := by
  refine .inContext _ (.bind_same _ fun ts => ?_)
  refine .bind ((h.readOperand _).levels ts) ?_
  rintro ⟨e, rest⟩ ⟨e', _⟩ ⟨he, rfl⟩
  cases rest with
  | nil => exact .ok he
  | cons token rest => exact .error _ _

theorem readCondition (text : List Char) :
    Mirrors Condition.Alike (readCondition s text) (C.readCondition t text) := by
  refine .inContext _ (.bind_same _ fun sides => ?_)
  obtain ⟨left, op, right⟩ := sides
  exact .bind (h.readExpression left) fun _ _ hl =>
    .bind (h.readExpression right) fun _ _ hr => .ok (Condition.alike_of_sides op hl hr)

theorem findVariable (name : List Char) :
    Mirrors (fun _ _ => True) (findVariable s name) (C.findVariable t name) := by
  unfold C.findVariable
  rcases h.address? (String.ofList name) with ⟨hs, -⟩ | ⟨a, b, hs, ht⟩
  · simp only [hs]
    exact .error _ _
  · simp only [hs, ht]
    exact .ok trivial

theorem readTarget (text : String) :
    Mirrors Address.Alike (readTarget s text) (C.readTarget t text) :=
  .inContext _ (h.readAddress _)

theorem readValue (text : List Char) :
    Mirrors Expr.Alike (readValue s text) (C.readValue t text) := by
  unfold C.readValue
  rw [h.readAccess]
  refine .bind_same _ fun address => ?_
  cases address with
  | some address => exact .bind (h.readTarget address) fun _ _ ha => .ok (.memory ha)
  | none => exact h.readExpression text

theorem readAssignment (left right : List Char) :
    Mirrors Statement.Alike (readAssignment s left right) (C.readAssignment t left right) := by
  unfold C.readAssignment
  rw [h.readAccess]
  refine .bind_same _ fun address => ?_
  cases address with
  | some address =>
    exact .bind (h.readTarget address) fun _ _ ha =>
      .bind (h.readExpression right) fun _ _ he => .ok (.store ha he)
  | none =>
    exact .bind_same _ fun _ => .bind (h.findVariable left) fun a b _ =>
      .bind (h.readValue right) fun _ _ he => .ok (.assign a b he)

theorem readStatement (text : List Char) :
    Mirrors Statement.Alike (readStatement s text) (C.readStatement t text) := by
  unfold C.readStatement
  simp only [pure_eq_ok]
  split
  · exact .ok (.refl _ fun _ _ _ => rfl)
  split
  · exact .bind_same _ fun _ => .ok (.refl _ fun _ _ _ => rfl)
  split
  · exact .bind (h.findVariable _) fun a b _ => .ok (.increment a b)
  split
  · exact .bind (h.findVariable _) fun a b _ => .ok (.decrement a b)
  split
  · exact .error _ _
  · split
    · exact .error _ _
    · exact h.readAssignment _ _

end Scope.Alike

end Toolchain6502.C
