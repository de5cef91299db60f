import Toolchain6502.Machine.Config
import Toolchain6502.NameTable
import Toolchain6502.Text.UpperCase

namespace Toolchain6502.Machine

open Toml

structure MemoryMap where
  zeroPage : Int := 0x0000
  stack : Int := 0x0100
  ram : Int := 0x0200
  videoRam : Int := 0x2000
  paletteRam : Number
  spriteRam : Number
  io : Number
  rom : Number
deriving DecidableEq, Repr

def videoBase : Nat := 0x2000

def spriteBytes : Nat := 0x0200

def ioBytes : Nat := 0x0100

/-- No region starts beyond the last address. -/
def clamp (n : Number) : Number := if n.exceeds 0xFFFF then 0xFFFF else n

def paletteStart (videoBytes : Number) : Number := clamp (videoBytes.advance videoBase)

/-- Each region starts where the one before it ends. -/
def MemoryMap.lay (videoBytes paletteBytes : Number) : Except NumberFault MemoryMap := do
  let paletteRam := paletteStart videoBytes
  let spriteRam := clamp (← paletteRam.add paletteBytes)
  let io := clamp (spriteRam.advance spriteBytes)
  return { paletteRam, spriteRam, io, rom := clamp (io.advance ioBytes) }

def Config.memoryMap (c : Config) : Except Fault MemoryMap := do
  let paletteBytes ← c.paletteBytes
  let screen ← c.screen
  match paletteBytes with
  | some paletteBytes => (MemoryMap.lay screen.bytes paletteBytes).mapError .number
  | none => .error (.noSum (paletteStart screen.bytes).typeName c.globalColors.typeName)

/-- A named number, written in hexadecimal or in decimal. -/
structure Constant where
  name : String
  value : Number
  isHex : Bool := true
deriving DecidableEq, Repr

def systemConstants (m : MemoryMap) (screen : Screen) : List Constant := [
  { name := "VRAM", value := m.videoRam },
  { name := "VRAM_SIZE", value := screen.bytes },
  { name := "PALETTE", value := m.paletteRam },
  { name := "SPRITE_RAM", value := m.spriteRam },
  { name := "IO", value := m.io },
  { name := "IO_INPUT", value := m.io },
  { name := "IO_LEFT", value := m.io.advance 1 },
  { name := "IO_RIGHT", value := m.io.advance 2 },
  { name := "IO_UP", value := m.io.advance 3 },
  { name := "IO_DOWN", value := m.io.advance 4 },
  { name := "IO_FIRE", value := m.io.advance 5 },
  { name := "INPUT_LEFT", value := 0x01 },
  { name := "INPUT_RIGHT", value := 0x02 },
  { name := "INPUT_UP", value := 0x04 },
  { name := "INPUT_DOWN", value := 0x08 },
  { name := "INPUT_FIRE", value := 0x10 },
  { name := "ROM", value := m.rom },
  { name := "VIDEO_WIDTH", value := screen.width, isHex := false },
  { name := "VIDEO_HEIGHT", value := screen.height, isHex := false }]

def isConstantChar (c : Char) : Bool := c.isUpper || c.isDigit

/-- The name in capitals, with an underscore for every other character. -/
def spriteConstantName (name : String) : String :=
  let chars := (Text.upper name.toList).map fun c => if isConstantChar c then c else '_'
  "SPR_" ++ String.ofList chars

def textOf : Value → Except Fault String
  | .text s => .ok s
  | v => .error (.notText v.typeName)

def spriteConstants (names : List Value) : Except Fault (List Constant) := do
  let names ← names.mapM textOf
  return names.zipIdx.map fun (name, i) =>
    { name := spriteConstantName name, value := .whole i, isHex := false }

/-- Among constants of one name the last one counts. -/
def constantTable (constants : List Constant) : NameTable Number :=
  constants.foldl (fun table c => table.put c.name c.value) []

/-- A machine with its memory laid out and its parts named. -/
structure Layout where
  memory : MemoryMap
  system : List Constant
  sprites : List Constant
deriving DecidableEq, Repr

def Config.layout (c : Config) : Except Fault Layout := do
  let memory ← c.memoryMap
  let screen ← c.screen
  let sprites ← spriteConstants c.spriteNames
  return ⟨memory, systemConstants memory screen, sprites⟩

def Layout.constants (l : Layout) : NameTable Number := constantTable (l.system ++ l.sprites)

end Toolchain6502.Machine
