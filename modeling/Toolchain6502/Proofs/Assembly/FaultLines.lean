import Toolchain6502.Proofs.Assembly.Acceptance
import Toolchain6502.Proofs.Assembly.ByteLines

namespace Toolchain6502.Assembly

theorem readLine_eq_fault {line : String} {place : Location} {d : Diagnostic}
    (h : readLine line place = .error (.fault d)) :
    d.location = some place ∧ d.source = some line := by
  unfold readLine at h
  split at h
  · simp at h
  · rename_i e _
    cases e with
    | fault found =>
      obtain rfl : { found with location := some place, source := some line } = d := by
        simpa [ReadFailure.place] using h
      exact ⟨rfl, rfl⟩
    | numeral n => simp [ReadFailure.place] at h

theorem readLinesFrom_eq_fault {file : String} {number : Nat} {ls : List String} {d : Diagnostic}
    (h : readLinesFrom file number ls = .error (.fault d)) :
    ∃ (k : Nat) (line : String), ls[k]? = some line ∧
      d.location = some { file, line := number + k } ∧ d.source = some line := by
  induction ls generalizing number with
  | nil => simp [readLinesFrom] at h
  | cons first rest ih =>
    rcases bind_eq_error.mp h with h | ⟨own, -, h⟩
    · obtain ⟨hlocation, hsource⟩ := readLine_eq_fault h
      exact ⟨0, first, rfl, by simpa using hlocation, hsource⟩
    · rcases bind_eq_error.mp h with h | ⟨others, -, h⟩
      · obtain ⟨k, line, hk, hlocation, hsource⟩ := ih h
        have hnext : ((number + 1 : Nat) : Int) + k = number + (k + 1 : Nat) := by omega
        exact ⟨k + 1, line, hk, by rw [hlocation, hnext], hsource⟩
      · simp at h

theorem layOut_eq_fail {t : Symbols} {a : Nat} {ss : List Statement} {d : Diagnostic}
    (h : layOut t a ss = .error d) : ∃ s ∈ ss, d = s.fail d.fault := by
  induction ss generalizing t a with
  | nil => simp [layOut] at h
  | cons s rest ih =>
    rcases bind_eq_error.mp h with h | ⟨next, -, h⟩
    · exact ⟨s, List.mem_cons_self, (layStatement_locates t a s).fails d h⟩
    · obtain ⟨r, hr, hfail⟩ := ih h
      exact ⟨r, List.mem_cons_of_mem s hr, hfail⟩

theorem emitRows_eq_fail {t : Symbols} {a : Nat} {ss : List Statement} {d : Diagnostic}
    (h : emitRows t a ss = .error d) : ∃ s ∈ ss, d = s.fail d.fault := by
  induction ss generalizing a with
  | nil => simp [emitRows] at h
  | cons s rest ih =>
    have later {b : Nat} (h : emitRows t b rest = .error d) :
        ∃ r ∈ s :: rest, d = r.fail d.fault := by
      obtain ⟨r, hr, hfail⟩ := ih h
      exact ⟨r, List.mem_cons_of_mem s hr, hfail⟩
    rw [emitRows] at h
    split at h
    · exact later h
    · exact later h
    · rename_i m o _
      rcases bind_eq_error.mp h with h | ⟨row, -, h⟩
      · exact ⟨s, List.mem_cons_self, (emitInstruction_locates t a s m o).fails d h⟩
      · rcases bind_eq_error.mp h with h | ⟨rows, -, h⟩
        · exact later h
        · simp at h

/-- A unit that cannot be assembled is reported at one of its statements. -/
theorem assemble_eq_fail {origin : Nat} {predefined : Symbols} {ss : List Statement}
    {d : Diagnostic} (h : assemble origin predefined ss = .error d) :
    ∃ s ∈ ss, d = s.fail d.fault := by
  rw [assemble_eq] at h
  rcases bind_eq_error.mp h with h | ⟨t, -, h⟩
  · exact layOut_eq_fail h
  · rcases bind_eq_error.mp h with h | ⟨rows, -, h⟩
    · exact emitRows_eq_fail h
    · simp at h

/-- Every fault of a text is at one of its lines, and shows it. -/
theorem Session.assembleText_eq_fault {s : Session} {text : String} {d : Diagnostic}
    (h : (s.assembleText text).1 = .error (.assembly d)) :
    ∃ (k : Nat) (line : String), (Text.lines text)[k]? = some line ∧
      d.location = some { file := mergedName, line := (k : Int) + 1 } ∧ d.source = some line := by
  have hfirst (k : Nat) : ((1 : Nat) : Int) + k = k + 1 := by omega
  rw [assembleText_eq] at h
  cases hread : readSource mergedName text with
  | error e =>
    rw [hread] at h
    cases e with
    | numeral n => simp [ReadFailure.toFailure] at h
    | fault found =>
      obtain rfl : found = d := by simpa [ReadFailure.toFailure] using h
      obtain ⟨k, line, hk, hlocation, hsource⟩ := readLinesFrom_eq_fault hread
      exact ⟨k, line, hk, by rw [hlocation, hfirst k], hsource⟩
  | ok ss =>
    simp only [hread] at h
    cases hassemble : assemble s.origin s.predefined ss with
    | ok image => simp [hassemble] at h
    | error found =>
      obtain rfl : found = d := by simpa [hassemble] using h
      obtain ⟨r, hr, hfail⟩ := assemble_eq_fail hassemble
      obtain ⟨k, line, own, hk, hown, hmem, hlocation⟩ := exists_line_of_readLinesFrom hread hr
      have hnumber : r.location = { file := mergedName, line := (k : Int) + 1 } := by
        rw [hlocation, hfirst k]
      rw [hfail]
      exact ⟨k, line, hk, congrArg some hnumber,
        congrArg some (placed_of_readLine hown hmem).2⟩

end Toolchain6502.Assembly
