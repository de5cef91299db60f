import Mathlib.Data.List.Forall2
import Toolchain6502.Proofs.Assembly.ReferenceLayout

namespace Toolchain6502.Assembly

def Statement.isInstruction (s : Statement) : Bool :=
  match s.content with
  | .instruction _ _ => true
  | _ => false

/-- A row that a statement is written as, with its own line, text and bytes. -/
structure Statement.Writes (t : Symbols) (s : Statement) (row : Row) : Prop where
  bytes : row.bytes = s.bytes t row.address
  line : row.line = s.location.line
  source : row.source = s.source

section

variable {t : Symbols} {a : Nat} {ss : List Statement} {rows : List Row}

theorem emitRows_writes (hformed : ∀ s ∈ ss, s.content.Formed) (h : emitRows t a ss = .ok rows) :
    List.Forall₂ (fun row s => Statement.Writes t s row) rows
      (ss.filter Statement.isInstruction) := by
  induction ss generalizing a rows with
  | nil =>
    obtain rfl := Except.ok.inj h
    exact .nil
  | cons s rest ih =>
    obtain ⟨hs, hrest⟩ := List.forall_mem_cons.mp hformed
    unfold emitRows at h
    cases hc : s.content with
    | label | constant =>
      have hother : s.isInstruction = false := by simp [Statement.isInstruction, hc]
      rw [List.filter_cons_of_neg (by simp [hother])]
      simp only [hc] at h
      exact ih hrest h
    | instruction m o =>
      have hinstruction : s.isInstruction = true := by simp [Statement.isInstruction, hc]
      have ho : o.Formed := by simpa [hc, Content.Formed] using hs
      rw [List.filter_cons_of_pos hinstruction]
      simp only [hc] at h
      obtain ⟨row, hrow, h⟩ := bind_eq_ok.mp h
      obtain ⟨others, hothers, h⟩ := bind_eq_ok.mp h
      obtain rfl := Except.ok.inj h
      obtain ⟨-, rfl⟩ := (emitInstruction_eq_ok hc ho).mp hrow
      exact .cons ⟨rfl, rfl, rfl⟩ (ih hrest hothers)

/-- A row stands behind the bytes of the rows before it. -/
theorem emitRows_address (h : emitRows t a ss = .ok rows) {k : Nat} {row : Row}
    (hk : rows[k]? = some row) : row.address = a + ((rows.take k).flatMap Row.bytes).length := by
  induction ss generalizing a rows k with
  | nil =>
    obtain rfl := Except.ok.inj h
    simp at hk
  | cons s rest ih =>
    unfold emitRows at h
    split at h
    · exact ih h hk
    · exact ih h hk
    · rename_i m o hc
      obtain ⟨first, hfirst, h⟩ := bind_eq_ok.mp h
      obtain ⟨others, hothers, h⟩ := bind_eq_ok.mp h
      obtain rfl := Except.ok.inj h
      cases k with
      | zero =>
        obtain rfl : first = row := by simpa using hk
        simpa using (emitInstruction_row hc hfirst).address
      | succ k =>
        rw [ih hothers (by simpa using hk), ← (emitInstruction_row hc hfirst).length]
        simp [Nat.add_assoc]

end

theorem exists_rows_of_assemble {origin : Nat} {predefined : Symbols} {ss : List Statement}
    {image : Image} (h : assemble origin predefined ss = .ok image) :
    ∃ t rows, image = .ofRows t rows ∧ emitRows t origin ss = .ok rows := by
  rw [assemble_eq] at h
  obtain ⟨t, -, h⟩ := bind_eq_ok.mp h
  obtain ⟨rows, hrows, h⟩ := bind_eq_ok.mp h
  exact ⟨t, rows, (Except.ok.inj h).symm, hrows⟩

theorem emitRows_of_assemble {origin : Nat} {predefined : Symbols} {ss : List Statement}
    {image : Image} (h : assemble origin predefined ss = .ok image) :
    emitRows image.symbols origin ss = .ok image.rows := by
  obtain ⟨t, rows, rfl, hrows⟩ := exists_rows_of_assemble h
  exact hrows

theorem code_of_assemble {origin : Nat} {predefined : Symbols} {ss : List Statement}
    {image : Image} (h : assemble origin predefined ss = .ok image) :
    image.code = image.rows.flatMap Row.bytes ∧ image.lineMap = lineMapOf image.rows := by
  obtain ⟨t, rows, rfl, -⟩ := exists_rows_of_assemble h
  exact ⟨rfl, rfl⟩

/-- A list that is put together from parts, cut around one of them. -/
theorem flatMap_of_getElem? {l : List α} {k : Nat} {x : α} (hk : l[k]? = some x)
    (f : α → List β) :
    l.flatMap f = (l.take k).flatMap f ++ (f x ++ (l.drop (k + 1)).flatMap f) := by
  obtain ⟨hlt, rfl⟩ := List.getElem?_eq_some_iff.mp hk
  rw [← List.flatMap_cons, ← List.drop_eq_getElem_cons hlt, ← List.flatMap_append,
    List.take_append_drop]

namespace Image

variable {t : Symbols} {rows : List Row} {k : Nat} {row : Row}

theorem code_of_row (hk : rows[k]? = some row) :
    ((ofRows t rows).code.drop ((rows.take k).flatMap Row.bytes).length).take row.bytes.length =
      row.bytes := by
  rw [code_ofRows, flatMap_of_getElem? hk, List.drop_left, List.take_left]

theorem row_le_code (hk : rows[k]? = some row) :
    ((rows.take k).flatMap Row.bytes).length + row.bytes.length ≤ (ofRows t rows).code.length := by
  rw [code_ofRows, flatMap_of_getElem? hk, List.length_append, List.length_append]
  omega

theorem lineMap_of_row (hk : rows[k]? = some row) {j : Nat} (hj : j < row.bytes.length) :
    (ofRows t rows).lineMap[((rows.take k).flatMap Row.bytes).length + j]? = some row.line := by
  have hlength : ((rows.take k).flatMap Row.bytes).length =
      ((rows.take k).flatMap fun r => List.replicate r.bytes.length r.line).length := by
    simp [List.length_flatMap]
  rw [hlength, lineMap_ofRows, lineMapOf, flatMap_of_getElem? hk,
    List.getElem?_append_right (Nat.le_add_right _ _), Nat.add_sub_cancel_left,
    List.getElem?_append_left (by simpa using hj), List.getElem?_replicate_of_lt hj]

theorem exists_offset {origin : Nat} {predefined : Symbols} {ss : List Statement} {i : Image}
    (h : assemble origin predefined ss = .ok i) (hrow : row ∈ i.rows) :
    ∃ o, row.address = origin + o ∧ o + row.bytes.length ≤ i.code.length ∧
      (i.code.drop o).take row.bytes.length = row.bytes ∧
      ∀ j < row.bytes.length, i.lineMap[o + j]? = some row.line := by
  obtain ⟨t, rows, rfl, hrows⟩ := exists_rows_of_assemble h
  obtain ⟨k, hk⟩ := List.getElem?_of_mem hrow
  exact ⟨_, emitRows_address hrows hk, row_le_code hk, code_of_row hk,
    fun _ hj => lineMap_of_row hk hj⟩

end Image

end Toolchain6502.Assembly
