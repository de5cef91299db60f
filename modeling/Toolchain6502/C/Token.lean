import Toolchain6502.C.Scope

namespace Toolchain6502.C

open Text

inductive BinOp where
  | add
  | sub
  | shl
  | shr
  | and
  | xor
  | or
deriving DecidableEq, Repr

def BinOp.text : BinOp → String
  | add => "+"
  | sub => "-"
  | shl => "<<"
  | shr => ">>"
  | and => "&"
  | xor => "^"
  | or => "|"

/-- An operator, a parenthesis, or an atom. The blanks inside brackets belong to an atom. -/
inductive Token where
  | op (o : BinOp)
  | complement
  | opening
  | closing
  | atom (text : List Char)
deriving DecidableEq, Repr

def Token.text : Token → List Char
  | op o => o.text.toList
  | complement => ['~']
  | opening => ['(']
  | closing => [')']
  | atom text => text

def symbolToken? : List Char → Option (Token × List Char)
  | '<' :: '<' :: cs => some (.op .shl, cs)
  | '>' :: '>' :: cs => some (.op .shr, cs)
  | '+' :: cs => some (.op .add, cs)
  | '-' :: cs => some (.op .sub, cs)
  | '&' :: cs => some (.op .and, cs)
  | '|' :: cs => some (.op .or, cs)
  | '^' :: cs => some (.op .xor, cs)
  | '~' :: cs => some (.complement, cs)
  | '(' :: cs => some (.opening, cs)
  | ')' :: cs => some (.closing, cs)
  | _ => none

def endsAtom (c : Char) : Bool := isBlank c || "+-&|^~<>()".toList.contains c

def bracketDepth (depth : Nat) : Char → Nat
  | '[' => depth + 1
  | ']' => depth - 1
  | _ => depth

/-- An atom, what follows it, and the number of brackets left open at its end. -/
structure AtomSpan where
  atom : List Char
  rest : List Char
  left : Nat

def spanAtom (depth : Nat) : List Char → AtomSpan
  | [] => ⟨[], [], depth⟩
  | c :: cs =>
    if depth = 0 && endsAtom c then ⟨[], c :: cs, 0⟩
    else
      let r := spanAtom (bracketDepth depth c) cs
      { r with atom := c :: r.atom }

theorem symbolToken?_length {cs rest : List Char} {t : Token}
    (h : symbolToken? cs = some (t, rest)) : rest.length < cs.length := by
  unfold symbolToken? at h
  split at h <;> grind

theorem spanAtom_length (depth : Nat) (cs : List Char) :
    (spanAtom depth cs).atom.length + (spanAtom depth cs).rest.length = cs.length := by
  induction cs generalizing depth with
  | nil => rfl
  | cons c cs ih =>
    unfold spanAtom
    split
    · simp
    · have h := ih (bracketDepth depth c)
      simp only [List.length_cons]
      omega

/-- The tokens of a text, up to the first character that starts none. -/
def tokens (cs : List Char) : Except Fault (List Token) :=
  match cs with
  | [] => .ok []
  | c :: rest =>
    if isBlank c then tokens rest
    else
      match _h : symbolToken? (c :: rest) with
      | some (t, more) => do
        let others ← tokens more
        return t :: others
      | none =>
        match _h : spanAtom 0 (c :: rest) with
        | ⟨[], _, _⟩ => .error (.unexpectedToken c)
        | ⟨_ :: _, _, _ + 1⟩ => .error .expectedBracket
        | ⟨d :: atom, more, 0⟩ => do
          let others ← tokens more
          return .atom (d :: atom) :: others
termination_by cs.length
decreasing_by
  · simp
  · exact symbolToken?_length _h
  · have := spanAtom_length 0 (c :: rest)
    rw [_h] at this
    simp only [List.length_cons] at this ⊢
    omega

def tokenize (cs : List Char) : Except Fault (List Token) := do
  let ts ← tokens cs
  if ts.isEmpty then throw .emptyExpression
  return ts

end Toolchain6502.C
