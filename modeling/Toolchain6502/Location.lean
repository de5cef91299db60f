namespace Toolchain6502

/-- A place in a file. Line zero stands for the file as a whole and column zero for the whole
line. -/
structure Location where
  file : String
  line : Int
  column : Int := 0
deriving DecidableEq, Repr

def Location.toText (l : Location) : String :=
  if l.line ≤ 0 then l.file
  else if l.column > 0 then s!"{l.file}:{l.line}:{l.column}"
  else s!"{l.file}:{l.line}"

end Toolchain6502
