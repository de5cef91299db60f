namespace Toolchain6502.Text

/-- The parts between the separators; there is always one more part than separators. -/
def split (separator : Char) : List Char → List (List Char)
  | [] => [[]]
  | c :: cs =>
    if c = separator then [] :: split separator cs
    else match split separator cs with
      | [] => [[c]]
      | part :: rest => (c :: part) :: rest

def cut? (phrase : List Char) : List Char → Option (List Char × List Char)
  | [] => if phrase.isEmpty then some ([], []) else none
  | c :: cs =>
    match phrase.isPrefixOf? (c :: cs) with
    | some rest => some ([], rest)
    | none => (cut? phrase cs).map fun (before, after) => (c :: before, after)

def cutLast? (c : Char) (cs : List Char) : Option (List Char × List Char) :=
  match cs.reverse.span (· ≠ c) with
  | (after, _ :: before) => some (before.reverse, after.reverse)
  | (_, []) => none

def dropEnd? (ending cs : List Char) : Option (List Char) :=
  (ending.reverse.isPrefixOf? cs.reverse).map List.reverse

end Toolchain6502.Text
