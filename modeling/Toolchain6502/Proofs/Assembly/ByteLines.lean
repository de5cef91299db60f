import Toolchain6502.Assembly.Session
import Toolchain6502.Proofs.Assembly.LoadedImage

namespace Toolchain6502.Assembly

open Cpu

theorem placed_of_readLine {line : String} {place : Location} {own : List Statement}
    (h : readLine line place = .ok own) {s : Statement} (hs : s ∈ own) :
    s.location = place ∧ s.source = line := by
  unfold readLine at h
  split at h
  · rw [← Except.ok.inj h] at hs
    obtain ⟨c, -, rfl⟩ := List.mem_map.mp hs
    exact ⟨rfl, rfl⟩
  · simp at h

theorem exists_line_of_readLinesFrom {file : String} {number : Nat} {ls : List String}
    {ss : List Statement} (h : readLinesFrom file number ls = .ok ss) {s : Statement}
    (hs : s ∈ ss) :
    ∃ (k : Nat) (line : String) (own : List Statement), ls[k]? = some line ∧
      readLine line s.location = .ok own ∧ s ∈ own ∧
      s.location = { file, line := number + k } := by
  induction ls generalizing number ss with
  | nil =>
    obtain rfl := Except.ok.inj h
    simp at hs
  | cons first rest ih =>
    obtain ⟨own, hown, h⟩ := bind_eq_ok.mp h
    obtain ⟨others, hothers, h⟩ := bind_eq_ok.mp h
    obtain rfl := Except.ok.inj h
    rcases List.mem_append.mp hs with hs | hs
    · have hlocation := (placed_of_readLine hown hs).1
      exact ⟨0, first, own, rfl, hlocation ▸ hown, hs, by simp [hlocation]⟩
    · obtain ⟨k, line, own, hk, hread, hmem, hlocation⟩ := ih hothers hs
      have hnext : ((number + 1 : Nat) : Int) + k = number + (k + 1 : Nat) := by omega
      exact ⟨k + 1, line, own, hk, hread, hmem, by rw [hlocation, hnext]⟩

/-- Every statement is one of those that its line is read to. -/
theorem exists_contents_of_mem {file text : String} {ss : List Statement}
    (h : readSource file text = .ok ss) {s : Statement} (hs : s ∈ ss) :
    ∃ contents, readContents s.source.toList = .ok contents ∧ s.content ∈ contents := by
  obtain ⟨-, line, own, -, hown, hmem, -⟩ := exists_line_of_readLinesFrom h hs
  rw [(placed_of_readLine hown hmem).2]
  unfold readLine at hown
  split at hown
  · rename_i contents hcontents
    rw [← Except.ok.inj hown] at hmem
    obtain ⟨c, hc, hs⟩ := List.mem_map.mp hmem
    rw [← hs]
    exact ⟨contents, hcontents, hc⟩
  · simp at hown

/-- A statement put the byte at an offset into the code of a unit. -/
def Statement.Emits (s : Statement) (origin : Nat) (ss : List Statement) (image : Image)
    (i : Nat) : Prop :=
  ∃ k j, ss[k]? = some s ∧ j < s.size ∧ origin + i = addressAt origin ss k + j ∧
    image.code[i]? = (s.bytes image.symbols (addressAt origin ss k))[j]?

theorem length_flatMap_placed {f : Nat × Statement → List α} (hf : ∀ p, (f p).length = p.2.size)
    (origin : Nat) (ss : List Statement) :
    ((placed origin ss).flatMap f).length = (ss.map Statement.size).sum := by
  induction ss generalizing origin with
  | nil => rfl
  | cons s rest ih =>
    rw [placed_cons, List.flatMap_cons, List.length_append, ih, hf, List.map_cons, List.sum_cons]

theorem flatMap_placed (f : Statement → List α) (origin : Nat) (ss : List Statement) :
    ((placed origin ss).flatMap fun p => f p.2) = ss.flatMap f := by
  induction ss generalizing origin with
  | nil => rfl
  | cons s rest ih => simp [ih]

theorem lineMap_of_rows (t : Symbols) (ps : List (Nat × Statement)) :
    (Image.ofRows t (ps.filterMap fun p => p.2.row? t p.1)).lineMap =
      ps.flatMap fun p => List.replicate p.2.size p.2.location.line := by
  rw [Image.lineMap_ofRows, lineMapOf, flatMap_row?]
  · rintro p row hrow
    rw [Statement.eq_of_row? hrow, Statement.bytes_length]
  · intro p hp
    rw [← p.2.bytes_length t p.1, Statement.bytes_of_row?_none hp]
    rfl

/-- There is one line for each byte, and it holds the instruction that the byte comes from. -/
theorem lineMap_traces {file text : String} {ss : List Statement}
    (hread : readSource file text = .ok ss) {origin : Nat} {predefined : Symbols} {image : Image}
    (h : assemble origin predefined ss = .ok image) :
    image.lineMap.length = image.code.length ∧
    ∀ i < image.code.length, ∃ (k : Nat) (line : String) (own : List Statement) (s : Statement)
      (m : Mnemonic) (o : Operand), image.lineMap[i]? = some ((k : Int) + 1) ∧
        (Text.lines text)[k]? = some line ∧
        readLine line { file, line := k + 1 } = .ok own ∧ s ∈ own ∧
        s.content = .instruction m o ∧ s.Emits origin ss image i := by
  obtain ⟨-, -, rfl⟩ := (assemble_eq_ok (readSource_formed hread)).mp h
  have hcode := length_flatMap_placed
    (fun p => p.2.bytes_length (tableAfter predefined origin ss) p.1) origin ss
  have hlines := length_flatMap_placed (f := fun p => List.replicate p.2.size p.2.location.line)
    (fun p => List.length_replicate) origin ss
  have hrows := code_of_rows (tableAfter predefined origin ss) (placed origin ss)
  constructor
  · rw [lineMap_of_rows, hrows, hlines, hcode]
  · intro i hi
    rw [hrows, hcode] at hi
    obtain ⟨k, s, j, hk, hj, hplace⟩ := exists_statement_at origin hi
    obtain ⟨n, line, own, hn, hown, hmem, hlocation⟩ :=
      exists_line_of_readLinesFrom hread (List.mem_of_getElem? hk)
    have hinstruction : ∃ m o, s.content = .instruction m o := by
      unfold Statement.size at hj
      split at hj
      · exact ⟨_, _, ‹_›⟩
      · simp at hj
    obtain ⟨m, o, hc⟩ := hinstruction
    have hfirst : ((1 : Nat) : Int) + n = n + 1 := by omega
    have hnumber : s.location = { file, line := (n : Int) + 1 } := by rw [hlocation, hfirst]
    refine ⟨n, line, own, s, m, o, ?_, hn, hnumber ▸ hown, hmem, hc, k, j, hk, hj, hplace, ?_⟩
    · rw [lineMap_of_rows, flatMap_placed_getElem? (fun p => List.length_replicate) hk hj hplace,
        List.getElem?_replicate_of_lt hj, hnumber]
    · rw [hrows]
      exact flatMap_placed_getElem? (fun p => p.2.bytes_length _ p.1) hk hj hplace

/-- A session of its own assembles a unit from no symbols. -/
theorem assembleSource_eq_ok {origin : Int} {text : String} {image : Image} :
    assembleSource origin text = .ok image ↔ 0 ≤ origin ∧ origin ≤ 0xFFFF ∧ ∃ ss,
      readSource mergedName text = .ok ss ∧ assemble origin.toNat [] ss = .ok image := by
  simp only [assembleSource, Session.start, Session.assembleText_eq]
  by_cases horigin : 0 ≤ origin ∧ origin ≤ 0xFFFF
  · rw [if_pos horigin, ok_bind]
    cases hread : readSource mergedName text with
    | error e => simp
    | ok ss =>
      cases hassemble : assemble origin.toNat [] ss with
      | error d => simp [hassemble]
      | ok image' => simp [hassemble, horigin]
  · rw [if_neg horigin]
    simp only [error_bind, reduceCtorEq, false_iff]
    rintro ⟨hlow, hhigh, -⟩
    exact horigin ⟨hlow, hhigh⟩

end Toolchain6502.Assembly
