import Toolchain6502.Assembly.Statement
import Toolchain6502.C.Fault
import Toolchain6502.Machine.Fault
import Toolchain6502.Project.Fault
import Toolchain6502.Text.Quote

namespace Toolchain6502

open Files

inductive Failure where
  | assembly (d : Assembly.Diagnostic)
  | c (d : C.Diagnostic)
  | project (f : Project.Fault)
  | machine (f : Machine.Fault)
  | number (f : NumberFault)
  | numeral (f : Text.NumeralFault)
  | decoding (f : Text.Utf8Fault)
  | file (f : FileFault) (path : Path)
  | nullInPath
  | origin (n : Int)
  /-- A line number without an origin. -/
  | noOrigin

def Failure.message : Failure → String
  | assembly d => d.render
  | c d => d.render
  | project f => f.message
  | machine f => f.message
  | number f => f.message
  | numeral f => f.message
  | decoding f => f.message
  | file f path => s!"[Errno {f.number}] {f.text}: {Text.quote path.toText}"
  | nullInPath => "embedded null byte"
  | origin n => s!"origin ${Text.hex 0 n} is outside the 16-bit address space"
  | noOrigin => "list index out of range"

def Assembly.ReadFailure.toFailure : Assembly.ReadFailure → Failure
  | fault d => .assembly d
  | numeral n => .numeral n

def failWith (f : ε → Failure) : Except ε α → Except Failure α
  | .ok a => .ok a
  | .error e => .error (f e)

end Toolchain6502
