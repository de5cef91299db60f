namespace Toolchain6502

abbrev NameTable (α : Type) := List (String × α)

/-- A new value takes the place of an older one under the same name. -/
def NameTable.put (table : NameTable α) (name : String) (value : α) : NameTable α :=
  match table with
  | [] => [(name, value)]
  | entry :: rest =>
    if entry.1 = name then (name, value) :: rest else entry :: put rest name value

end Toolchain6502
