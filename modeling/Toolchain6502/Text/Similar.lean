namespace Toolchain6502.Text

def commonRun (usable : Char → Bool) : List Char → List Char → Nat
  | c :: cs, d :: ds => if c = d && usable c then commonRun usable cs ds + 1 else 0
  | _, _ => 0

/-- A run of `size` characters at `left` in one text and at `right` in the other. -/
structure Block where
  left : Nat
  right : Nat
  size : Nat

/-- The better of a block and the run at two positions; the earlier one wins a tie. -/
def Block.improve (best : Block) (i j size : Nat) : Block :=
  if size > best.size then ⟨i, j, size⟩ else best

def longestInRow (usable : Char → Bool) (a : List Char) (i j : Nat) (best : Block) :
    List Char → Block
  | [] => best
  | d :: ds =>
    longestInRow usable a i (j + 1) (best.improve i j (commonRun usable a (d :: ds))) ds

/-- The longest common run of usable characters, the first in `a` and then in `b`. -/
def longestFrom (usable : Char → Bool) (b : List Char) (i : Nat) (best : Block) :
    List Char → Block
  | [] => best
  | c :: cs => longestFrom usable b (i + 1) (longestInRow usable (c :: cs) i 0 best b) cs

/-- A block grown over all equal neighbours on both sides. -/
def Block.grow (k : Block) (a b : List Char) : Block :=
  let any := fun _ => true
  let before := commonRun any (a.take k.left).reverse (b.take k.right).reverse
  let after := commonRun any (a.drop (k.left + k.size)) (b.drop (k.right + k.size))
  ⟨k.left - before, k.right - before, before + k.size + after⟩

def longestBlock (usable : Char → Bool) (a b : List Char) : Block :=
  (longestFrom usable b 0 ⟨0, 0, 0⟩ a).grow a b

def matchedCount (usable : Char → Bool) (a b : List Char) : Nat :=
  match longestBlock usable a b with
  | ⟨i, j, size⟩ =>
    if _h : 0 < size ∧ i + size ≤ a.length then
      matchedCount usable (a.take i) (b.take j) + size +
        matchedCount usable (a.drop (i + size)) (b.drop (j + size))
    else 0
termination_by a.length
decreasing_by
  · simp only [List.length_take]; omega
  · simp only [List.length_drop]; omega

/-- In a long word a character that makes up more than a hundredth of it starts no block. -/
def startsBlock (word : List Char) (c : Char) : Bool :=
  word.length < 200 || word.count c ≤ word.length / 100 + 1

/-- A candidate with its similarity `2 * matched / total`. -/
structure Candidate where
  name : String
  matched : Nat
  total : Nat

/-- At least three fifths of the characters are matched. -/
def Candidate.isClose (x : Candidate) : Bool := 3 * x.total ≤ 10 * x.matched

/-- The more similar candidate comes first, then the greater name. -/
def Candidate.before (x y : Candidate) : Bool :=
  let l := x.matched * y.total
  let r := y.matched * x.total
  l > r || (l == r && (y.name < x.name || x.name == y.name))

def candidate (word : String) (name : String) : Candidate :=
  let w := word.toList
  ⟨name, matchedCount (startsBlock w) name.toList w, name.length + word.length⟩

/-- At most three names close to a word, the closest first. -/
def similarNames (word : String) (names : List String) : List String :=
  let close := (names.map (candidate word)).filter Candidate.isClose
  ((close.mergeSort Candidate.before).take 3).map Candidate.name

end Toolchain6502.Text
