import Toolchain6502.Toml.Moment
import Toolchain6502.Toml.Numeral
import Toolchain6502.Toml.Token

namespace Toolchain6502.Toml

abbrev Key := List String

def Table.replace (t : Table) (name : String) (v : Value) : Table :=
  t.map fun e => if e.1 = name then (name, v) else e

/-- Changes the table under a key, with all tables on the way. In an array of tables the last one
is meant, where that is allowed. -/
def Table.within (lists : Bool) (change : Table → Option Table) : Key → Table → Option Table
  | [], t => change t
  | name :: key, t =>
    match t.lookup name with
    | none => (within lists change key []).map fun sub => t ++ [(name, .table sub)]
    | some (.table sub) =>
      (within lists change key sub).map fun sub => Table.replace t name (.table sub)
    | some (.array items) =>
      match lists, items.getLast? with
      | true, some (.table sub) =>
        (within lists change key sub).map fun sub =>
          Table.replace t name (.array (items.dropLast ++ [.table sub]))
      | _, _ => none
    | some _ => none

def Table.add (name : String) (v : Value) (t : Table) : Option Table :=
  if (t.lookup name).isSome then none else some (t ++ [(name, v)])

def Table.append (name : String) (t : Table) : Option Table :=
  match t.lookup name with
  | none => some (t ++ [(name, .array [.table []])])
  | some (.array items) => some (Table.replace t name (.array (items ++ [.table []])))
  | some _ => none

/-- The table that holds the last part of a key, and that part. -/
def splitKey (key : Key) : Key × String := (key.dropLast, key.getLast?.getD "")

def Table.set (lists : Bool) (key : Key) (v : Value) (t : Table) : Option Table :=
  Table.within lists (Table.add (splitKey key).2 v) (splitKey key).1 t

def orMalformed : Option α → Except Fault α
  | some a => .ok a
  | none => malformed

def Value.isClosed : Value → Bool
  | array _ | table _ => true
  | _ => false

def isWithin (closed : List Key) (key : Key) : Bool := closed.any fun c => c.isPrefixOf key

def readPair (value : Reader Value) : Reader (Key × Value) := fun cs => do
  let (key, cs) ← readKey cs
  match cs with
  | '=' :: rest =>
    let (v, rest) ← value (skipSpaces rest)
    return ((key, v), rest)
  | _ => malformed

def readItems (value : Reader Value) : Nat → List Value → Reader Value
  | 0, _, _ => malformed
  | n + 1, items, cs => do
    match ← skipFiller cs with
    | ']' :: rest => return (.array items, rest)
    | cs =>
      let (v, cs) ← value cs
      let items := items ++ [v]
      match ← skipFiller cs with
      | ']' :: rest => return (.array items, rest)
      | ',' :: rest => readItems value n items rest
      | _ => malformed

def readEntries (value : Reader Value) : Nat → List Key → Table → Reader Value
  | 0, _, _, _ => malformed
  | n + 1, closed, t, cs => do
    let ((key, v), cs) ← readPair value cs
    if isWithin closed key then malformed
    let t ← orMalformed (t.set false key v)
    match skipSpaces cs with
    | '\x7d' :: rest => return (.table t, rest)
    | ',' :: rest =>
      let closed := if v.isClosed then key :: closed else closed
      readEntries value n closed t (skipSpaces rest)
    | _ => malformed

def readBraces (value : Reader Value) (cs : List Char) : Except Fault (Value × List Char) :=
  match skipSpaces cs with
  | '\x7d' :: rest => .ok (.table [], rest)
  | rest => readEntries value (rest.length + 1) [] [] rest

/-- A value with at most `depth` brackets and braces around any part of it. -/
def readValueWithin : Nat → Reader Value
  | 0, _ => malformed
  | depth + 1, cs =>
    match string? cs with
    | some r => r.map fun (body, rest) => (.text (String.ofList body), rest)
    | none =>
      match cs with
      | 't' :: 'r' :: 'u' :: 'e' :: rest => .ok (.boolean true, rest)
      | 'f' :: 'a' :: 'l' :: 's' :: 'e' :: rest => .ok (.boolean false, rest)
      | '[' :: rest => readItems (readValueWithin depth) (rest.length + 1) [] rest
      | '\x7b' :: rest => readBraces (readValueWithin depth) rest
      | _ =>
        match moment? cs with
        | some r => .ok r
        | none => readNumber cs

def readValue : Reader Value := fun cs => readValueWithin (cs.length + 1) cs

structure Draft where
  table : Table := []
  /-- The table that the entries belong to. -/
  header : Key := []
  /-- Keys under which nothing may be changed. -/
  closed : List Key := []
  /-- Tables that no other statement may open. -/
  opened : List Key := []
  /-- Tables of dotted keys, which are opened once their section ends. -/
  pending : List Key := []

namespace Draft

def tablesOf (d : Draft) (key : Key) : List Key :=
  (List.range (key.length - 1)).map fun k => d.header ++ key.take (k + 1)

def addPair (d : Draft) (key : Key) (v : Value) : Except Fault Draft := do
  let tables := d.tablesOf key
  if tables.any d.opened.contains then malformed
  if isWithin d.closed (d.header ++ (splitKey key).1) then malformed
  let table ← orMalformed (d.table.set true (d.header ++ key) v)
  return {
    d with
    table
    pending := d.pending ++ tables
    closed := if v.isClosed then (d.header ++ key) :: d.closed else d.closed }

/-- The section before a header ends. -/
def endSection (d : Draft) : Draft := { d with opened := d.opened ++ d.pending, pending := [] }

def openTable (d : Draft) (key : Key) : Except Fault Draft := do
  if d.opened.contains key || isWithin d.closed key then malformed
  let table ← orMalformed (Table.within true some key d.table)
  return { d with table, header := key, opened := key :: d.opened }

/-- A new table in an array of tables; what was said of the one before holds no longer. -/
def appendTable (d : Draft) (key : Key) : Except Fault Draft := do
  if isWithin d.closed key then malformed
  let table ← orMalformed (Table.within true (Table.append (splitKey key).2) (splitKey key).1 d.table)
  let others := fun k : Key => !key.isPrefixOf k
  return {
    d with
    table
    header := key
    closed := d.closed.filter others
    opened := key :: d.opened.filter others }

def readHeader (d : Draft) : Reader Draft := fun cs =>
  match cs with
  | '[' :: rest => do
    let (key, rest) ← readKey (skipSpaces rest)
    let d ← d.endSection.appendTable key
    match rest with
    | ']' :: ']' :: rest => return (d, rest)
    | _ => malformed
  | rest => do
    let (key, rest) ← readKey (skipSpaces rest)
    let d ← d.endSection.openTable key
    match rest with
    | ']' :: rest => return (d, rest)
    | _ => malformed

/-- One entry, one header, or nothing before a comment. -/
def readStatement (d : Draft) : Reader Draft := fun cs =>
  match cs with
  | [] => .ok (d, [])
  | c :: rest =>
    if isKeyStart c then do
      let ((key, v), rest) ← readPair readValue cs
      return (← d.addPair key v, rest)
    else if c = '[' then d.readHeader rest
    else if c = '#' || c = '\n' then .ok (d, cs)
    else malformed

/-- At most `n` lines, each with one statement. -/
def readLines : Nat → Draft → List Char → Except Fault Draft
  | 0, d, _ => .ok d
  | n + 1, d, cs => do
    let (d, cs) ← d.readStatement (skipSpaces cs)
    match ← skipComment (skipSpaces cs) with
    | [] => return d
    | '\n' :: rest => readLines n d rest
    | _ => malformed

end Draft

/-- A line break of two characters counts as one. -/
def joinBreaks : List Char → List Char
  | '\r' :: '\n' :: cs => '\n' :: joinBreaks cs
  | c :: cs => c :: joinBreaks cs
  | [] => []

def read (text : List Char) : Except Fault Table :=
  let text := joinBreaks text
  (Draft.readLines (text.length + 1) {} text).map Draft.table

end Toolchain6502.Toml
