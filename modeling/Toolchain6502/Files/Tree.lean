import Toolchain6502.Files.Path
import Toolchain6502.Text.Utf8
import Toolchain6502.Text.Lines

namespace Toolchain6502.Files

inductive FileFault where
  | notFound
  | notDirectory
  | isDirectory
  | nameTooLong
  | alreadyExists
  | noSpace
deriving DecidableEq, Repr

def FileFault.text : FileFault → String
  | notFound => "No such file or directory"
  | notDirectory => "Not a directory"
  | isDirectory => "Is a directory"
  | nameTooLong => "File name too long"
  | alreadyExists => "File exists"
  | noSpace => "No space left on device"

def FileFault.number : FileFault → Nat
  | notFound => 2
  | notDirectory => 20
  | isDirectory => 21
  | nameTooLong => 36
  | alreadyExists => 17
  | noSpace => 28

inductive Node where
  | file (bytes : List UInt8)
  | directory
deriving DecidableEq, Repr

/-- The nodes below the root by their components, and the current directory. -/
structure Tree where
  entries : List (List String × Node) := []
  current : List String := []
  /-- How many bytes a file at a place can take, if that is limited. -/
  room : List String → Option Nat := fun _ => none

namespace Tree

def node? (t : Tree) (place : List String) : Option Node :=
  if place.isEmpty then some .directory else t.entries.lookup place

/-- A new node, or new content in the place of an old one. -/
def put (t : Tree) (place : List String) (node : Node) : Tree :=
  if (t.node? place).isSome then
    { t with entries := t.entries.map fun e => if e.1 = place then (place, node) else e }
  else { t with entries := t.entries ++ [(place, node)] }

def isTooLong (part : String) : Bool := part.utf8ByteSize > 255

/-- The place that components lead to. Every component but the last has to be a directory. -/
def walk (t : Tree) (here : List String) : List String → Except FileFault (List String)
  | [] => .ok here
  | part :: rest =>
    match t.node? here with
    | none => .error .notFound
    | some (.file _) => .error .notDirectory
    | some .directory =>
      if part = ".." then walk t here.dropLast rest
      else if isTooLong part then .error .nameTooLong
      else walk t (here ++ [part]) rest

def place (t : Tree) (p : Path) : Except FileFault (List String) :=
  if p.toText.utf8ByteSize > 4095 then .error .nameTooLong
  else t.walk (if p.isAbsolute then [] else t.current) p.parts

def stat (t : Tree) (p : Path) : Except FileFault Node := do
  match t.node? (← t.place p) with
  | some node => return node
  | none => throw .notFound

/-- Whether a path leads to a node. A name that is too long leads nowhere, but it is a fault. -/
def finds (t : Tree) (p : Path) : Except FileFault Bool :=
  if p.hasNull then .ok false
  else match t.stat p with
    | .ok _ => .ok true
    | .error .nameTooLong => .error .nameTooLong
    | .error _ => .ok false

def isFile (t : Tree) (p : Path) : Bool :=
  match t.stat p with
  | .ok (.file _) => true
  | _ => false

def isDirectory (t : Tree) (p : Path) : Bool :=
  match t.stat p with
  | .ok .directory => true
  | _ => false

def read (t : Tree) (p : Path) : Except FileFault (List UInt8) := do
  match ← t.stat p with
  | .file bytes => return bytes
  | .directory => throw .isDirectory

def fits (t : Tree) (place : List String) (bytes : List UInt8) : Bool :=
  (t.room place).all fun size => bytes.length ≤ size

def taken (t : Tree) (place : List String) (bytes : List UInt8) : List UInt8 :=
  match t.room place with
  | some size => bytes.take size
  | none => bytes

/-- A file is made, or emptied as it is opened; its directory has to be there. Then it takes the
bytes as far as there is room, and what it has taken stays when the rest does not fit. -/
def write (t : Tree) (p : Path) (bytes : List UInt8) : Except FileFault Unit × Tree :=
  match t.place p with
  | .error f => (.error f, t)
  | .ok place =>
    match t.node? place with
    | some .directory => (.error .isDirectory, t)
    | _ => (if t.fits place bytes then .ok () else .error .noSpace,
        t.put place (.file (t.taken place bytes)))

def makeDirectory (t : Tree) (p : Path) : Except FileFault Tree := do
  let place ← t.place p
  match t.node? place with
  | some _ => throw .alreadyExists
  | none => return t.put place .directory

/-- A directory that is there already is as good as a new one. -/
def ensureDirectory (t : Tree) (p : Path) : Except FileFault Unit × Tree :=
  match t.makeDirectory p with
  | .ok t => (.ok (), t)
  | .error e => (if t.isDirectory p then .ok () else .error e, t)

/-- The directory of the first `count` components, after all those above it that are missing.
Those that were made stay if it cannot be made itself. -/
def ensureParents (t : Tree) (p : Path) : Nat → Except FileFault Unit × Tree
  | 0 => t.ensureDirectory { p with parts := [] }
  | count + 1 =>
    let q : Path := { p with parts := p.parts.take (count + 1) }
    match t.makeDirectory q with
    | .error .notFound =>
      match t.ensureParents p count with
      | (.ok (), t) => t.ensureDirectory q
      | (.error e, t) => (.error e, t)
    | _ => t.ensureDirectory q

def ensureDirectories (t : Tree) (p : Path) : Except FileFault Unit × Tree :=
  t.ensureParents p p.parts.length

def filesBelow (t : Tree) (p : Path) : List Path :=
  match t.place p with
  | .error _ => []
  | .ok here =>
    t.entries.filterMap fun e =>
      match e.2 with
      | .file _ =>
        if here.isPrefixOf e.1 && here.length < e.1.length then
          some { p with parts := p.parts ++ e.1.drop here.length }
        else none
      | .directory => none

end Tree

end Toolchain6502.Files
