import Toolchain6502.Assembly.Image

namespace Toolchain6502.Assembly

open Text

def ruler (c : Char) (width : Nat) : String := String.ofList (List.replicate width c)

def Row.render (r : Row) : String :=
  let bytes := String.intercalate " " (r.bytes.map fun b => hex 2 b.toNat)
  s!"${hex 4 r.address}  {padRight 12 bytes}  {padLeft 4 (toString r.line)}  {trimmed r.source}"

def Symbol.renderRow (s : Symbol) : String := s!"{padRight 20 s.name} = ${hex 4 s.value}"

def Image.listingLines (i : Image) : List String :=
  ["Chipcade 6502 Assembler Listing", ruler '=' 60, "", "Addr   Code          Line  Source",
    ruler '-' 60] ++ i.rows.map Row.render ++
  ["", "Symbol Table", ruler '-' 30] ++ i.symbols.sorted.map Symbol.renderRow

def Image.listing (i : Image) : String := String.intercalate "\n" i.listingLines

def Image.symbolFile (i : Image) : String :=
  let rows := i.symbols.sorted.map fun s => s!"{s.name} ${hex 4 s.value}\n"
  "# Symbol table\n# Generated by chasm\n" ++ String.join rows

end Toolchain6502.Assembly
