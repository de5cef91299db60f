import Toolchain6502.Number

namespace Toolchain6502.Toml

/-- What a point in time tells: a day, an hour of any day, or both. -/
inductive MomentKind where
  | date
  | time
  | dateTime
deriving DecidableEq, Repr

/-- A value; a document has no `null`, but tables that are given otherwise may. -/
inductive Value where
  | text (s : String)
  | integer (n : Int)
  | real (x : Binary64)
  | boolean (b : Bool)
  | moment (kind : MomentKind) (written : String)
  | array (items : List Value)
  | table (entries : List (String × Value))
  | null
deriving Inhabited

/-- Keys with their values, in the order of the document. -/
abbrev Table := List (String × Value)

def MomentKind.typeName : MomentKind → String
  | date => "datetime.date"
  | time => "datetime.time"
  | dateTime => "datetime.datetime"

def Value.typeName : Value → String
  | text _ => "str"
  | integer n => (Number.whole n).typeName
  | real x => (Number.real x).typeName
  | boolean b => (Number.truth b).typeName
  | moment kind _ => kind.typeName
  | array _ => "list"
  | table _ => "dict"
  | null => "NoneType"

def Value.number? : Value → Option Number
  | integer n => some (.whole n)
  | real x => some (.real x)
  | boolean b => some (.truth b)
  | _ => none

end Toolchain6502.Toml
