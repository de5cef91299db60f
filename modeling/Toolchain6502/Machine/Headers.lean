import Toolchain6502.Machine.Memory
import Toolchain6502.Text.Numeral

namespace Toolchain6502.Machine

open Text

def joinLines (lines : List String) : String := String.join (lines.map (· ++ "\n"))

def Constant.plainLine (keyword : String) (c : Constant) : Except NumberFault String := do
  let digits ← c.value.text
  return s!"{keyword} {c.name} {digits}"

/-- A definition of a constant in its own form; hexadecimal digits come after a mark. -/
def Constant.line (keyword mark : String) (c : Constant) : Except NumberFault String := do
  if !c.isHex then return ← c.plainLine keyword
  let digits ← c.value.hexText 4
  return s!"{keyword} {c.name} {mark}{digits}"

def Constant.assemblyLine : Constant → Except NumberFault String := Constant.line ".const" "$"

def Constant.cLine : Constant → Except NumberFault String := Constant.line "#define" "0x"

/-- The sprites follow under a heading, if there are any. -/
def spriteLines (heading keyword : String) (sprites : List Constant) :
    Except NumberFault (List String) := do
  if sprites.isEmpty then return []
  return "" :: heading :: (← sprites.mapM (Constant.plainLine keyword))

def assemblyHeader (constants sprites : List Constant) : Except NumberFault String := do
  let constants ← constants.mapM Constant.assemblyLine
  let sprites ← spriteLines "; Sprite indices" ".const" sprites
  return joinLines (["; Auto-generated by chipcade. Do not edit.", "; System constants"] ++
    constants ++ sprites)

def cPreamble : List String := [
  "/* Auto-generated by chipcade. Do not edit. */",
  "#ifndef CHIPCADE_H",
  "#define CHIPCADE_H",
  "",
  "/* Pseudo memory views for editor/highlighter compatibility. */",
  "extern unsigned char mem[];",
  "extern unsigned char data[];",
  "",
  "/* Raw sprite attribute bytes (maps to SPRITE_RAM + i). */",
  "extern unsigned char sprite_data[];",
  "",
  "typedef struct \x7b",
  "    unsigned char x;",
  "    unsigned char y;",
  "    unsigned char tile;",
  "    unsigned char flags;",
  "    unsigned char c0;",
  "    unsigned char c1;",
  "    unsigned char c2;",
  "    unsigned char reserved;",
  "\x7d ChipSprite;",
  "extern ChipSprite sprite[];",
  "",
  "/* System constants */"]

def cHeader (constants sprites : List Constant) : Except NumberFault String := do
  let constants ← constants.mapM Constant.cLine
  let sprites ← spriteLines "/* Sprite indices */" "#define" sprites
  return joinLines (cPreamble ++ constants ++ sprites ++ ["", "#endif /* CHIPCADE_H */"])

end Toolchain6502.Machine
