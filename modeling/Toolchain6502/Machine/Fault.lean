import Toolchain6502.Number

namespace Toolchain6502.Machine

inductive Fault where
  /-- A section is no table. -/
  | notTable (type : String)
  /-- A sprite name is no text. -/
  | notText (type : String)
  | notIterable (type : String)
  /-- A number added to a repeated sequence. -/
  | notConcatenable (type : String)
  /-- A sequence repeated by something that is no number. -/
  | notRepeatable (type : String)
  /-- A sequence repeated more often than can be counted. -/
  | countRange
  | textTooLong
  | outOfMemory
  | noProduct (left right : String)
  | noSum (left right : String)
  | number (f : NumberFault)
deriving DecidableEq, Repr

def Fault.message : Fault → String
  | notTable type => s!"'{type}' object has no attribute 'get'"
  | notText type => s!"'{type}' object has no attribute 'upper'"
  | notIterable type => s!"'{type}' object is not iterable"
  | notConcatenable type => s!"can only concatenate {type} (not \"int\") to {type}"
  | notRepeatable type => s!"can't multiply sequence by non-int of type '{type}'"
  | countRange => "cannot fit 'int' into an index-sized integer"
  | textTooLong => "repeated string is too long"
  | outOfMemory => ""
  | noProduct left right => s!"unsupported operand type(s) for *: '{left}' and '{right}'"
  | noSum left right => s!"unsupported operand type(s) for +: '{left}' and '{right}'"
  | number f => f.message

end Toolchain6502.Machine
