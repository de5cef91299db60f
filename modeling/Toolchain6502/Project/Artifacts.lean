import Toolchain6502.Assembly.Image
import Toolchain6502.Source.Traced
import Toolchain6502.Text.Numeral

namespace Toolchain6502.Project

open Assembly Files Source

structure Artifacts where
  /-- The merged source. -/
  unit : Traced
  image : Image
  loadAddress : Nat
  /-- The authored line of every byte. -/
  origins : List Origin

structure ContextLine where
  line : Nat
  text : String
  isCurrent : Bool
deriving DecidableEq, Repr

namespace Artifacts

def program (a : Artifacts) : List UInt8 := a.image.code

/-- The program is entered at `Init`, or else at `Update`. -/
def entryPoint (a : Artifacts) : Option Nat :=
  (a.image.labels.lookup "Init").or (a.image.labels.lookup "Update")

def offsetOf? (a : Artifacts) (address : Int) : Option Nat :=
  let offset := address - a.loadAddress
  if 0 ≤ offset ∧ offset < a.program.length then some offset.toNat else none

def sourceAtOffset? (a : Artifacts) (offset : Int) : Option Origin :=
  if 0 ≤ offset then a.origins[offset.toNat]? else none

def sourceAtAddress? (a : Artifacts) (address : Int) : Option Origin :=
  (a.offsetOf? address).bind fun offset => a.sourceAtOffset? offset

def context (a : Artifacts) (offset radius : Int) : List ContextLine :=
  match if 0 ≤ offset then a.image.lineMap[offset.toNat]? else none with
  | none => []
  | some line =>
    let near := a.unit.lines.zipIdx.filter fun (_, i) =>
      line - 1 - radius ≤ i && i ≤ line - 1 + radius
    near.map fun (text, i) => ⟨i + 1, text, line - 1 = i⟩

def changesFrom (address : Nat) (last : Option Origin) : List Origin → List (Nat × Origin)
  | [] => []
  | o :: rest =>
    if some o = last then changesFrom (address + 1) last rest
    else (address, o) :: changesFrom (address + 1) (some o) rest

def renderChange (root : Path) (change : Nat × Origin) : String :=
  let file := (change.2.file.relativeTo? root).getD change.2.file
  s!"${Text.hex 4 change.1}  {file.toText}:{change.2.line}"

def sourceMap (a : Artifacts) (current : List String) (root : Path) : List String :=
  let root := (root.resolve? current).getD root
  (changesFrom a.loadAddress none a.origins).map (renderChange root)

end Artifacts

end Toolchain6502.Project
