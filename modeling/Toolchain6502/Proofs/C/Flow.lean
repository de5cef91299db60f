import Toolchain6502.C.Statement
import Toolchain6502.Proofs.C.ExpressionValue

namespace Toolchain6502.C

open Cpu

inductive LoopKind where
  | whileLoop
  | forLoop
deriving DecidableEq, Repr

inductive Flow where
  | skip
  | act (s : Statement)
  | seq (first second : Flow)
  | branch (c : Condition) (yes no : Flow)
  /-- A loop without a condition is left by a `return` only. -/
  | loop (kind : LoopKind) (c : Option Condition) (body : Flow)
deriving DecidableEq, Repr

/-- Bytes are compared without a sign. -/
def Comparison.holds : Comparison → Byte → Byte → Bool
  | eq, x, y => x == y
  | ne, x, y => x != y
  | lt, x, y => decide (x.toNat < y.toNat)
  | le, x, y => decide (x.toNat ≤ y.toNat)
  | gt, x, y => decide (y.toNat < x.toNat)
  | ge, x, y => decide (y.toNat ≤ x.toNat)

def Condition.holds (c : Condition) (m : Memory) : Bool :=
  c.op.holds (c.left.value m) (c.right.value m)

inductive Access where
  | read (cell : Word)
  | write (cell : Word)
deriving DecidableEq, Repr

def Access.cell : Access → Word
  | read cell | write cell => cell

def Condition.accesses (c : Condition) (m : Memory) : List Access :=
  (c.left.reads m ++ c.right.reads m).map .read

/-- How statements end: the next one follows, or the function has been left. -/
inductive Ending where
  | next
  | left
deriving DecidableEq, Repr

structure Effect where
  ending : Ending
  memory : Memory
  accesses : List Access

/-- A byte is written after others have been read. -/
def setEffect (m : Memory) (reads : List Word) (cell : Word) (v : Byte) : Effect :=
  ⟨.next, Function.update m cell v, reads.map .read ++ [.write cell]⟩

/-- What a simple statement does. A call is no simple statement. -/
def Statement.effect? (m : Memory) : Statement → Option Effect
  | leave => some ⟨.left, m, []⟩
  | call _ => none
  | increment address =>
    let cell := BitVec.ofInt 16 address
    some (setEffect m [cell] cell (m cell + 1))
  | decrement address =>
    let cell := BitVec.ofInt 16 address
    some (setEffect m [cell] cell (m cell - 1))
  | assign address value =>
    some (setEffect m (value.reads m) (BitVec.ofInt 16 address) (value.value m))
  | store address value =>
    some (setEffect m (value.reads m ++ address.cells) (address.cell m) (value.value m))

def holds? (c : Option Condition) (m : Memory) : Bool := c.all (·.holds m)

def accesses? (c : Option Condition) (m : Memory) : List Access :=
  (c.map (·.accesses m)).getD []

/-- A run that ends, from a memory to a memory, with all accesses in their order. -/
inductive Exec : Flow → Memory → Effect → Prop
  | skip (m : Memory) : Exec .skip m ⟨.next, m, []⟩
  | act {s : Statement} {m : Memory} {e : Effect} (h : s.effect? m = some e) : Exec (.act s) m e
  | seq {first second : Flow} {m m' : Memory} {log : List Access} {e : Effect}
      (h : Exec first m ⟨.next, m', log⟩) (h' : Exec second m' e) :
      Exec (.seq first second) m { e with accesses := log ++ e.accesses }
  | seqLeft {first second : Flow} {m m' : Memory} {log : List Access}
      (h : Exec first m ⟨.left, m', log⟩) : Exec (.seq first second) m ⟨.left, m', log⟩
  | yes {c : Condition} {yes no : Flow} {m : Memory} {e : Effect} (hc : c.holds m = true)
      (h : Exec yes m e) :
      Exec (.branch c yes no) m { e with accesses := c.accesses m ++ e.accesses }
  | no {c : Condition} {yes no : Flow} {m : Memory} {e : Effect} (hc : c.holds m = false)
      (h : Exec no m e) :
      Exec (.branch c yes no) m { e with accesses := c.accesses m ++ e.accesses }
  | exit {kind : LoopKind} {c : Option Condition} {body : Flow} {m : Memory}
      (hc : holds? c m = false) : Exec (.loop kind c body) m ⟨.next, m, accesses? c m⟩
  | round {kind : LoopKind} {c : Option Condition} {body : Flow} {m m' : Memory}
      {log : List Access} {e : Effect} (hc : holds? c m = true)
      (h : Exec body m ⟨.next, m', log⟩) (h' : Exec (.loop kind c body) m' e) :
      Exec (.loop kind c body) m { e with accesses := accesses? c m ++ log ++ e.accesses }
  | roundLeft {kind : LoopKind} {c : Option Condition} {body : Flow} {m m' : Memory}
      {log : List Access} (hc : holds? c m = true) (h : Exec body m ⟨.left, m', log⟩) :
      Exec (.loop kind c body) m ⟨.left, m', accesses? c m ++ log⟩

def LoopKind.startLabel (n : Nat) : LoopKind → String
  | whileLoop => generatedLabel "CWHILES" n
  | forLoop => generatedLabel "CFORS" n

def LoopKind.endLabel (n : Nat) : LoopKind → String
  | whileLoop => generatedLabel "CWHILEE" n
  | forLoop => generatedLabel "CFORE" n

def testCode (n : Nat) (otherwise : String) : Option Condition → Code × Nat
  | none => ([], n)
  | some c => c.code n otherwise

/-- Code in which every part takes its labels after the part before it. -/
def Flow.code (function : String) (n : Nat) : Flow → Code × Nat
  | skip => ([], n)
  | act s => s.code function n
  | seq first second =>
    let (x, n) := first.code function n
    let (y, n) := second.code function n
    (x ++ y, n)
  | branch c yes no =>
    let endLabel := generatedLabel "CIFEND" n
    let elseLabel := generatedLabel "CIFELSE" (n + 1)
    let (test, n) := c.code (n + 2) elseLabel
    let (x, n) := yes.code function n
    let (y, n) := no.code function n
    (test ++ x ++ [toLabel .jmp endLabel, .label elseLabel] ++ y ++ [.label endLabel], n)
  | loop kind c body =>
    let startLabel := kind.startLabel n
    let endLabel := kind.endLabel (n + 1)
    let (test, n) := testCode (n + 2) endLabel c
    let (x, n) := body.code function n
    ([.label startLabel] ++ test ++ x ++ [toLabel .jmp startLabel, .label endLabel], n)

def Condition.rightFlat (c : Condition) : Bool := c.left.rightFlat && c.right.rightFlat

def Statement.rightFlat : Statement → Bool
  | assign _ value | store _ value => value.rightFlat
  | _ => true

/-- No right operand in any expression holds a binary operator. -/
def Flow.rightFlat : Flow → Bool
  | skip => true
  | act s => s.rightFlat
  | seq first second => first.rightFlat && second.rightFlat
  | branch c yes no => c.rightFlat && yes.rightFlat && no.rightFlat
  | loop _ c body => c.all (·.rightFlat) && body.rightFlat

end Toolchain6502.C
