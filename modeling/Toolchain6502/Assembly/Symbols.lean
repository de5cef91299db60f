import Toolchain6502.Location

namespace Toolchain6502.Assembly

inductive Definition where
  | label (location : Location)
  | constant (location : Location)
  | predefined
deriving DecidableEq, Repr

structure Symbol where
  name : String
  value : Nat
  definition : Definition
deriving DecidableEq, Repr

/-- Predefined symbols have no line of their own. -/
def Symbol.location (s : Symbol) : Location :=
  match s.definition with
  | .label location | .constant location => location
  | .predefined => { file := "<predefined>", line := 0 }

def Symbol.isLabel (s : Symbol) : Bool :=
  match s.definition with
  | .label _ => true
  | _ => false

def Symbol.isPredefined (s : Symbol) : Bool :=
  match s.definition with
  | .predefined => true
  | _ => false

abbrev Symbols := List Symbol

namespace Symbols

def find? (t : Symbols) (name : String) : Option Symbol := List.find? (·.name == name) t

def names (t : Symbols) : List String := t.map Symbol.name

def values (t : Symbols) : List (String × Nat) := t.map fun s => (s.name, s.value)

def labels (t : Symbols) : List (String × Nat) := values (t.filter Symbol.isLabel)

def constants (t : Symbols) : List (String × Nat) := values (t.filter fun s => !s.isLabel)

def sorted (t : Symbols) : List Symbol :=
  (t.filter fun s => !s.isPredefined).mergeSort fun a b => !(b.name < a.name)

/-- A name that is predefined again keeps its place and takes the new value, of which sixteen
bits are kept. -/
def predefine (t : Symbols) (name : String) (value : Int) : Symbols :=
  let entry : Symbol := ⟨name, (value % 0x10000).toNat, .predefined⟩
  if (t.find? name).isSome then t.map fun s => if s.name = name then entry else s
  else t ++ [entry]

end Symbols

end Toolchain6502.Assembly
