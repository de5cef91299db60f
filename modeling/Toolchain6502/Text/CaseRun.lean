namespace Toolchain6502.Text

/-- Every `stride`-th code point from `first` to `last` moves by `offset`. -/
structure CaseRun where
  first : Nat
  last : Nat
  stride : Nat
  offset : Int

def CaseRun.applies (r : CaseRun) (n : Nat) : Bool :=
  r.first ≤ n && n ≤ r.last && (n - r.first) % r.stride == 0

/-- The counterpart of a character under the first run that holds it, else the character. -/
def CaseRun.map (runs : List CaseRun) (c : Char) : Char :=
  match runs.find? (·.applies c.toNat) with
  | some r => Char.ofNat (c.toNat + r.offset).toNat
  | none => c

end Toolchain6502.Text
