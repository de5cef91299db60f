import Toolchain6502.C.Access
import Toolchain6502.C.Token

namespace Toolchain6502.C

open Text

inductive Expr where
  | term (t : Term)
  | memory (a : Address)
  | complement (e : Expr)
  | binary (op : BinOp) (left right : Expr)
deriving DecidableEq, Repr

abbrev Reader := List Token → Except Failure (Expr × List Token)

def levels : List (List BinOp) := [[.or], [.xor], [.and], [.shl, .shr], [.add, .sub]]

/-- More operands of one level, joined to the left; there are at most as many as tokens. -/
def readMore (operand : Reader) (ops : List BinOp) : Nat → Expr → Reader
  | 0, left, ts => .ok (left, ts)
  | n + 1, left, ts =>
    match ts with
    | .op o :: rest =>
      if ops.contains o then do
        let (right, rest) ← operand rest
        readMore operand ops n (.binary o left right) rest
      else .ok (left, ts)
    | _ => .ok (left, ts)

def readLevel (operand : Reader) (ops : List BinOp) : Reader := fun ts => do
  let (left, rest) ← operand ts
  readMore operand ops rest.length left rest

def readLevels (operand : Reader) : Reader :=
  levels.foldr (fun ops tighter => readLevel tighter ops) operand

def readAtom (scope : Scope) (text : List Char) : Except Failure Expr := do
  match ← readAccess scope text with
  | some address => return .memory (← readAddress scope address.toList)
  | none => return .term (← readTerm scope text)

/-- An operand under at most `depth` complements and parentheses. -/
def readOperand (scope : Scope) : Nat → Reader
  | 0, _ => fail .unexpectedEnd
  | _ + 1, [] => fail .unexpectedEnd
  | _ + 1, .closing :: _ => fail .unexpectedParenthesis
  | depth + 1, .complement :: ts => do
    let (e, rest) ← readOperand scope depth ts
    return (.complement e, rest)
  | depth + 1, .opening :: ts => do
    let (e, rest) ← readLevels (readOperand scope depth) ts
    match rest with
    | .closing :: rest => return (e, rest)
    | _ => fail .expectedParenthesis
  | _ + 1, t :: ts => do
    let e ← readAtom scope t.text
    return (e, ts)

/-- An expression that takes all the tokens. Every complement and parenthesis is one of them. -/
def readTokens (scope : Scope) (ts : List Token) : Except Failure Expr := do
  let (e, rest) ← readLevels (readOperand scope (ts.length + 1)) ts
  match rest with
  | [] => return e
  | t :: _ => fail (.trailingToken (String.ofList t.text))

def readExpression (scope : Scope) (text : List Char) : Except Failure Expr :=
  inContext (.expression (String.ofList text)) do
    let ts ← failWith (fun fault => .c { fault }) (tokenize text)
    readTokens scope ts

inductive Comparison where
  | eq
  | ne
  | lt
  | le
  | gt
  | ge
deriving DecidableEq, Repr

def Comparison.text : Comparison → String
  | eq => "=="
  | ne => "!="
  | lt => "<"
  | le => "<="
  | gt => ">"
  | ge => ">="

/-- The order in which a condition is searched for its operator. -/
def Comparison.searched : List Comparison := [.eq, .ne, .ge, .le, .gt, .lt]

def comparisonAt? (text : List Char) (op : Comparison) :
    Option (List Char × Comparison × List Char) :=
  (cut? op.text.toList text).map fun (left, right) => (trim left, op, trim right)

def splitCondition (text : List Char) : Except Failure (List Char × Comparison × List Char) :=
  match Comparison.searched.findSome? (comparisonAt? text) with
  | none => fail .expectedComparison
  | some (left, op, right) =>
    if left.isEmpty || right.isEmpty then fail .missingSide else .ok (left, op, right)

structure Condition where
  left : Expr
  op : Comparison
  right : Expr
deriving DecidableEq, Repr

def readSides (scope : Scope) (text : List Char) : Except Failure Condition := do
  let (left, op, right) ← splitCondition text
  let left ← readExpression scope left
  let right ← readExpression scope right
  return ⟨left, op, right⟩

def readCondition (scope : Scope) (text : List Char) : Except Failure Condition :=
  inContext (.condition (String.ofList text)) (readSides scope text)

end Toolchain6502.C
