import Mathlib.Data.List.Basic
import Toolchain6502.Proofs.Assembly.ByteLines
import Toolchain6502.Proofs.Source.MergedUnits

namespace Toolchain6502.Assembly

open Cpu Text

def Statement.lower (count : Nat) (s : Statement) : Statement :=
  { s with location := { s.location with line := s.location.line + count } }

@[simp] theorem Statement.lower_size (count : Nat) (s : Statement) :
    (s.lower count).size = s.size :=
  rfl

@[simp] theorem Statement.lower_line (count : Nat) (s : Statement) :
    (s.lower count).location.line = s.location.line + count := rfl

theorem readLinesFrom_append {file : String} {number : Nat} {first second : List String}
    {ss : List Statement} :
    readLinesFrom file number (first ++ second) = .ok ss ↔
      ∃ own others, readLinesFrom file number first = .ok own ∧
        readLinesFrom file (number + first.length) second = .ok others ∧ ss = own ++ others := by
  induction first generalizing number ss with
  | nil => simp [readLinesFrom]
  | cons line rest ih =>
    have hnumber : number + (line :: rest).length = number + 1 + rest.length := by
      rw [List.length_cons]
      omega
    simp only [List.cons_append, readLinesFrom, bind_eq_ok, pure_eq_ok, ih, hnumber]
    constructor
    · rintro ⟨head, hhead, _, ⟨own, others, hown, hothers, rfl⟩, ⟨⟩⟩
      exact ⟨_, others, ⟨head, hhead, own, hown, rfl⟩, hothers, (List.append_assoc ..).symm⟩
    · rintro ⟨_, others, ⟨head, hhead, own, hown, ⟨⟩⟩, hothers, rfl⟩
      exact ⟨head, hhead, _, ⟨own, others, hown, hothers, rfl⟩, by rw [List.append_assoc]⟩

/-- A line tells its number to its statements, and nothing else depends on it. -/
theorem readLinesFrom_lower {file : String} {number count : Nat} {ls : List String}
    {ss : List Statement} (h : readLinesFrom file (number + count) ls = .ok ss) :
    ∃ own, readLinesFrom file number ls = .ok own ∧ ss = own.map (Statement.lower count) := by
  induction ls generalizing number ss with
  | nil => exact ⟨[], rfl, (Except.ok.inj h).symm⟩
  | cons line rest ih =>
    obtain ⟨head, hhead, h⟩ := bind_eq_ok.mp h
    obtain ⟨others, hothers, h⟩ := bind_eq_ok.mp h
    obtain rfl := Except.ok.inj h
    rw [Nat.add_right_comm] at hothers
    obtain ⟨own, hown, rfl⟩ := ih hothers
    unfold readLine at hhead
    split at hhead
    · rename_i contents hcontents
      obtain rfl := Except.ok.inj hhead
      refine ⟨contents.map (fun c => ⟨c, { file, line := number }, line⟩) ++ own, ?_, ?_⟩
      · rw [readLinesFrom, readLine, hcontents, ok_bind, hown, ok_bind]
        rfl
      · simp [Statement.lower]
    · simp at hhead

theorem placed_append (origin : Nat) (first second : List Statement) :
    placed origin (first ++ second) =
      placed origin first ++ placed (origin + (first.map Statement.size).sum) second := by
  induction first generalizing origin with
  | nil => simp
  | cons s rest ih => simp [ih, Nat.add_assoc]

theorem tableAfter_append (t : Symbols) (origin : Nat) (first second : List Statement) :
    tableAfter t origin (first ++ second) =
      tableAfter (tableAfter t origin first) (origin + (first.map Statement.size).sum) second := by
  induction first generalizing t origin with
  | nil => simp [tableAfter]
  | cons s rest ih => simp [tableAfter, ih, Nat.add_assoc]

theorem prefix_tableAfter (t : Symbols) (origin : Nat) (ss : List Statement) :
    t <+: tableAfter t origin ss := by
  induction ss generalizing t origin with
  | nil => exact List.prefix_refl t
  | cons s rest ih => exact (List.prefix_append t _).trans (ih _ _)

/-- More symbols do not change the bytes of a statement whose own symbol has a value. -/
theorem Statement.Encodes.bytes_tableAfter {t : Symbols} {address : Nat} {s : Statement}
    (h : s.Encodes t address) (origin : Nat) (ss : List Statement) :
    s.bytes (tableAfter t origin ss) address = s.bytes t address := by
  refine Statement.bytes_congr fun m o opcode hc hopcode => ?_
  simp only [Statement.Encodes, hc, hopcode, Option.some.injEq, exists_eq_left'] at h
  have hvalue : o.term.value (Assembly.tableAfter t origin ss) = o.term.value t := by
    refine Operand.value_congr fun name hname => ?_
    obtain ⟨n, hn⟩ := Option.isSome_iff_exists.mp (h.resolves name hname)
    rw [hn, value?_tableAfter hn]
  simp only [Operand.carried, hvalue]

theorem lines_append_of_closed {a : String} (h : a = "" ∨ a.toList.getLast? = some '\n')
    (b : String) : lines (a ++ b) = lines a ++ lines b := by
  have hclosed : Source.Traced.Closed ⟨a, []⟩ := h
  exact Source.Traced.lines_append_of_closed hclosed ⟨b, []⟩

/-- Text behind a unit that ends its last line leaves the unit as it is: its bytes, their lines and
its symbols come first, and the other lines are counted on. -/
theorem assemble_append_keeps {file a b : String} (hclosed : a = "" ∨ a.toList.getLast? = some '\n')
    {origin : Nat} {predefined : Symbols} {ss ss' : List Statement} {image image' : Image}
    (hread : readSource file a = .ok ss) (h : assemble origin predefined ss = .ok image)
    (hread' : readSource file (a ++ b) = .ok ss')
    (h' : assemble origin predefined ss' = .ok image') :
    image.code <+: image'.code ∧ image.symbols <+: image'.symbols ∧
    (∀ name n, image.symbols.value? name = some n → image'.symbols.value? name = some n) ∧
    ∃ others, readSource file b = .ok others ∧
      image'.lineMap = image.lineMap ++ others.flatMap fun s =>
        List.replicate s.size (s.location.line + ((lines a).length : Int)) := by
  obtain ⟨-, hencodes, rfl⟩ := (assemble_eq_ok (readSource_formed hread)).mp h
  obtain ⟨-, -, rfl⟩ := (assemble_eq_ok (readSource_formed hread')).mp h'
  rw [readSource, lines_append_of_closed hclosed, readLinesFrom_append] at hread'
  obtain ⟨own, lowered, hown, hlowered, rfl⟩ := hread'
  obtain rfl : ss = own := Except.ok.inj (hread.symm.trans hown)
  obtain ⟨others, hothers, rfl⟩ := readLinesFrom_lower hlowered
  have htable := tableAfter_append predefined origin ss (others.map (.lower (lines a).length))
  simp only [code_of_rows, lineMap_of_rows, placed_append, List.flatMap_append]
  refine ⟨?_, ?_, ?_, others, hothers, ?_⟩
  · have hbytes : (placed origin ss).flatMap (fun p => p.2.bytes (tableAfter predefined origin
        (ss ++ others.map (.lower (lines a).length))) p.1) =
        (placed origin ss).flatMap fun p => p.2.bytes (tableAfter predefined origin ss) p.1 := by
      rw [htable]
      exact List.flatMap_congr fun p hp => (hencodes p hp).bytes_tableAfter _ _
    rw [hbytes]
    exact List.prefix_append _ _
  · rw [htable]
    exact prefix_tableAfter _ _ _
  · intro name n hn
    rw [htable]
    exact value?_tableAfter hn
  · have hlines := flatMap_placed fun s => List.replicate s.size s.location.line
    rw [hlines, hlines, List.flatMap_map]
    rfl

def loopText : String := "S: BNE E\nE: JMP S\n"

def entryText : String := "\n.const K 7\nT: JMP E\n"

theorem loopText_kept :
    ∃ ss ss' image image', readSource "m" loopText = .ok ss ∧
      assemble 0x200 [] ss = .ok image ∧ readSource "m" (loopText ++ entryText) = .ok ss' ∧
      assemble 0x200 [] ss' = .ok image' ∧ image.code <+: image'.code ∧
      ∃ others, readSource "m" entryText = .ok others ∧
        image'.lineMap = image.lineMap ++ others.flatMap fun s =>
          List.replicate s.size (s.location.line + ((lines loopText).length : Int)) := by
  have hunit (text : String) (h : ((readSource "m" text).toOption.bind fun ss =>
      (assemble 0x200 [] ss).toOption).isSome) :
      ∃ ss image, readSource "m" text = .ok ss ∧ assemble 0x200 [] ss = .ok image := by
    obtain ⟨image, h⟩ := Option.isSome_iff_exists.mp h
    obtain ⟨ss, hss, himage⟩ := Option.bind_eq_some_iff.mp h
    exact ⟨ss, image, eq_ok_of_toOption hss, eq_ok_of_toOption himage⟩
  obtain ⟨ss, image, hread, h⟩ := hunit loopText (by decide +kernel)
  obtain ⟨ss', image', hread', h'⟩ := hunit (loopText ++ entryText) (by decide +kernel)
  obtain ⟨hcode, -, -, hlines⟩ := assemble_append_keeps (.inr (by decide)) hread h hread' h'
  exact ⟨ss, ss', image, image', hread, h, hread', h', hcode, hlines⟩

end Toolchain6502.Assembly
