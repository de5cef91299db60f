import Toolchain6502.Machine.Fault
import Toolchain6502.Toml.Value

namespace Toolchain6502.Machine

open Toml

structure Config where
  cpu : Value := .text "6502"
  clockHz : Value := .integer 1000000
  refreshHz : Value := .integer 50
  videoWidth : Value := .integer 256
  videoHeight : Value := .integer 192
  videoMode : Value := .text "bitmap"
  globalColors : Value := .integer 16
  colorsPerSprite : Value := .integer 4
  spriteNames : List Value := []

def sectionOf (t : Table) (name : String) : Except Fault Table :=
  match t.lookup name with
  | none => .ok []
  | some (.table entries) => .ok entries
  | some v => .error (.notTable v.typeName)

/-- A text is taken apart into its characters and a table into its keys. -/
def itemsOf : Value → Except Fault (List Value)
  | .array items => .ok items
  | .text s => .ok (s.toList.map fun c => .text c.toString)
  | .table entries => .ok (entries.map fun e => .text e.1)
  | v => .error (.notIterable v.typeName)

namespace Config

def ofTable (t : Table) : Except Fault Config := do
  let machine ← sectionOf t "machine"
  let video ← sectionOf t "video"
  let palette ← sectionOf t "palette"
  let sprites ← sectionOf t "sprites"
  let spriteNames ← itemsOf ((sprites.lookup "names").getD (.array []))
  let d : Config := {}
  return {
    cpu := (machine.lookup "cpu").getD d.cpu
    clockHz := (machine.lookup "clock_hz").getD d.clockHz
    refreshHz := (machine.lookup "refresh_hz").getD d.refreshHz
    videoWidth := (video.lookup "width").getD d.videoWidth
    videoHeight := (video.lookup "height").getD d.videoHeight
    videoMode := (video.lookup "mode").getD d.videoMode
    globalColors := (palette.lookup "global_colors").getD d.globalColors
    colorsPerSprite := (palette.lookup "colors_per_sprite").getD d.colorsPerSprite
    spriteNames }

end Config

def isSequence : Value → Bool
  | .text _ | .array _ => true
  | _ => false

def itemCount : Value → Nat
  | .text s => s.length
  | .array items => items.length
  | _ => 0

/-- Counts have 64 bits, one of them for the sign. -/
def countLimit : Int := 0x8000000000000000

/-- More items do not fit in memory. -/
def maxItems : Int := 0x1000000000

/-- Why nothing can be added to a repeated sequence. -/
def repetitionFault (items count : Value) : Fault :=
  match count.number?.bind Number.int? with
  | none => .notRepeatable count.typeName
  | some n =>
    let size := itemCount items * n
    if n < -countLimit || countLimit ≤ n then .countRange
    else if (items matches .text _) && countLimit ≤ size then .textTooLong
    else if maxItems < size then .outOfMemory
    else .notConcatenable items.typeName

/-- Why two values that are not both numbers have no product to which a number can be added. -/
def productFault (x y : Value) : Fault :=
  if isSequence x then repetitionFault x y
  else if isSequence y then repetitionFault y x
  else .noProduct x.typeName y.typeName

/-- Two pixels share a byte. -/
def screenBytes (width height : Number) : Except NumberFault Number := do
  return ((← width.mul height).advance 1).half

structure Screen where
  width : Number
  height : Number
  bytes : Number
deriving DecidableEq, Repr

def Config.screen (c : Config) : Except Fault Screen :=
  match c.videoWidth.number?, c.videoHeight.number? with
  | some width, some height => do
    let bytes ← (screenBytes width height).mapError .number
    return ⟨width, height, bytes⟩
  | _, _ => .error (productFault c.videoWidth c.videoHeight)

def bytesPerColor : Nat := 3

/-- The size of the palette. A sequence takes the place of a number until it is added to one. -/
def Config.paletteBytes (c : Config) : Except Fault (Option Number) :=
  match c.globalColors.number? with
  | some colors => .ok (some (colors.times bytesPerColor))
  | none =>
    if isSequence c.globalColors then .ok none
    else .error (.noProduct c.globalColors.typeName (Number.whole bytesPerColor).typeName)

end Toolchain6502.Machine
