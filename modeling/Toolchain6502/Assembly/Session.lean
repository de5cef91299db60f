import Toolchain6502.Assembly.Generator
import Toolchain6502.Source.Include

namespace Toolchain6502.Assembly

open Files Source

def mergedName : String := "<merged>"

def defaultOrigin : Int := 0x0200

structure Session extends Generator where
  expanded : Option Traced := none

namespace Session

def start (origin : Int) : Except Failure Session :=
  if 0 ≤ origin ∧ origin ≤ 0xFFFF then .ok { origin := origin.toNat }
  else .error (.origin origin)

def define (s : Session) (name : String) (value : Int) : Session :=
  { s with predefined := s.predefined.predefine name value }

def defineAll (s : Session) (defines : List (String × Int)) : Session :=
  defines.foldl (fun s d => s.define d.1 d.2) s

/-- Text that cannot be read leaves the last image; a unit that cannot be assembled leaves none. -/
def assembleText (s : Session) (text : String) : Except Failure (List UInt8) × Session :=
  match readSource mergedName text with
  | .error e => (.error e.toFailure, s)
  | .ok statements =>
    let (result, generator) := Generator.generate statements s.toGenerator
    (failWith .assembly result, { s with toGenerator := generator })

def assembleTraced (s : Session) (u : Traced) : Except Failure (List UInt8) × Session :=
  { s with expanded := some u }.assembleText u.text

/-- A file whose includes cannot be expanded leaves the session as it was. -/
def assembleFile (s : Session) (t : Tree) (p : Path) : Except Failure (List UInt8) × Session :=
  match expandFile t [] p with
  | .error e => (.error e, s)
  | .ok u => s.assembleTraced u

end Session

def assembleSource (origin : Int) (text : String) : Except Failure Image := do
  let session ← Session.start origin
  let (result, session) := session.assembleText text
  let _ ← result
  return session.image

def assemblePath (origin : Int) (t : Tree) (p : Path) : Except Failure Image := do
  let session ← Session.start origin
  let (result, session) := session.assembleFile t p
  let _ ← result
  return session.image

end Toolchain6502.Assembly
