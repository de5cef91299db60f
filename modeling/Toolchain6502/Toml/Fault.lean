import Toolchain6502.Text.Numeral

namespace Toolchain6502.Toml

inductive Fault where
  | malformed
  | numeral (f : Text.NumeralFault)
deriving DecidableEq, Repr

/-- Reads something at the head of a text and returns the text after it. -/
abbrev Reader (α : Type) := List Char → Except Fault (α × List Char)

def malformed : Except Fault α := .error .malformed

end Toolchain6502.Toml
