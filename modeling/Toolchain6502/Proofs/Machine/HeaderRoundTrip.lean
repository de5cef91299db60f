import Toolchain6502.Proofs.Assembly.ByteLines
import Toolchain6502.Proofs.Machine.AssemblyHeader

namespace Toolchain6502.Assembly

open Text

theorem labels_tableAfter_definitions {ss : List Statement} {ds : List (String × Nat)}
    (h : ss.map Statement.content = ds.map definition) (t : Symbols) (a : Nat) :
    (tableAfter t a ss).labels = t.labels := by
  induction ds generalizing ss t a with
  | nil =>
    obtain rfl : ss = [] := by simpa using h
    rfl
  | cons d ds ih =>
    obtain ⟨s, rest, rfl, hs, hrest⟩ := List.map_eq_cons_iff.mp h
    have hentries : s.entries t a = [constantSymbolAt d s.location] := by
      simp [Statement.entries, hs, definition, constantSymbolAt]
    rw [tableAfter, ih hrest, hentries]
    simp [Symbols.labels, constantSymbolAt, Symbol.isLabel]

theorem labels_of_definitions {text : String} {ds : List (String × Nat)}
    (h : DefinitionLines (lines text) ds) (hds : ∀ d ∈ ds, d.2 ≤ 0xFFFF) {origin : Int}
    {image : Image} (himage : assembleSource origin text = .ok image) : image.labels = [] := by
  obtain ⟨ss, hss, hcontents⟩ := (readLinesFrom_definitions h mergedName 1).1 hds
  obtain ⟨-, -, ss', hread, himage⟩ := assembleSource_eq_ok.mp himage
  obtain rfl : ss = ss' := Except.ok.inj (hss.symm.trans hread)
  rw [assemble_eq] at himage
  obtain ⟨t, hlay, himage⟩ := bind_eq_ok.mp himage
  obtain ⟨rows, -, himage⟩ := bind_eq_ok.mp himage
  obtain rfl := Except.ok.inj himage
  obtain ⟨-, rfl⟩ := layOut_eq_ok.mp hlay
  exact labels_tableAfter_definitions hcontents [] origin.toNat

end Toolchain6502.Assembly

namespace Toolchain6502.Machine

open Text Assembly

/-- A word under the name of a symbol. -/
structure Constant.IsWord (c : Constant) : Prop where
  name : isSymbol c.name.toList = true
  value : ∃ n : Int, 0 ≤ n ∧ n ≤ 0xFFFF ∧ c.value = .whole n

theorem Constant.IsWord.counts {c : Constant} (h : c.IsWord) : c.Counts ∧ c.count ≤ 0xFFFF := by
  obtain ⟨n, hpos, hle, hvalue⟩ := h.value
  have hcount : c.count = n.toNat := by rw [Constant.count, hvalue, Number.toInt]
  refine ⟨⟨h.name, ?_⟩, by omega⟩
  rw [hcount, hvalue, Int.toNat_of_nonneg hpos]

/-- Words under different names are written as a header that assembles to them, in order, at every
origin, without a byte of code or a label. -/
theorem assemblyHeader_round_trip {constants sprites : List Constant}
    (hwords : ∀ c ∈ constants ++ sprites, c.IsWord)
    (hnames : ((constants ++ sprites).map Constant.name).Nodup) :
    ∃ text, assemblyHeader constants sprites = .ok text ∧
      ∀ origin : Int, 0 ≤ origin → origin ≤ 0xFFFF →
        ∃ image, assembleSource origin text = .ok image ∧ image.code = [] ∧ image.labels = [] ∧
          image.symbols.constants.map (fun d => (d.1, Number.whole d.2)) =
            (constants ++ sprites).map fun c => (c.name, c.value) := by
  have hcounts : ∀ c ∈ constants ++ sprites, c.Counts := fun c hc => (hwords c hc).counts.1
  have hle : ∀ c ∈ constants ++ sprites, c.count ≤ 0xFFFF := fun c hc => (hwords c hc).counts.2
  obtain ⟨hsystem, hsprites⟩ := List.forall_mem_append.mp hcounts
  rcases assemblyHeader_lines hsystem hsprites with ⟨text, htext, hlines⟩ | ⟨-, c, hc, hlong⟩
  · refine ⟨text, htext, fun origin hlow hhigh => ?_⟩
    have hvalues : ∀ d ∈ (constants ++ sprites).map Constant.definition, d.2 ≤ 0xFFFF :=
      List.forall_mem_map.mpr hle
    have hdistinct : (((constants ++ sprites).map Constant.definition).map Prod.fst).Nodup := by
      rw [List.map_map]
      exact hnames
    obtain ⟨image, himage, hcode, hconstants⟩ :=
      (assembleSource_definitions hlines ⟨hlow, hhigh⟩).1 ⟨hvalues, hdistinct⟩
    refine ⟨image, himage, hcode, labels_of_definitions hlines hvalues himage, ?_⟩
    rw [hconstants, constantTable_of_counts hcounts hnames, constantTable_of_nodup hnames]
  · exact absurd (hle c hc) (by omega)

def smallTable : List Constant × List Constant :=
  ([{ name := "VRAM", value := .whole 0x2000, isHex := true },
    { name := "_last", value := .whole 0xFFFF, isHex := false }],
   [{ name := "SPR_SHIP", value := .whole 0, isHex := false },
    { name := "SPR_SHOT", value := .whole 1, isHex := true }])

theorem smallTable_round_trip :
    ∃ text image, assemblyHeader smallTable.1 smallTable.2 = .ok text ∧
      assembleSource 0x0200 text = .ok image ∧ image.code = [] ∧ image.labels = [] ∧
      image.symbols.constants.map (fun d => (d.1, Number.whole d.2)) =
        [("VRAM", .whole 0x2000), ("_last", .whole 0xFFFF), ("SPR_SHIP", .whole 0),
          ("SPR_SHOT", .whole 1)] := by
  have hwords : ∀ c ∈ smallTable.1 ++ smallTable.2, c.IsWord := by
    intro c hc
    simp only [smallTable, List.cons_append, List.nil_append, List.mem_cons, List.not_mem_nil,
      or_false] at hc
    rcases hc with rfl | rfl | rfl | rfl <;>
      exact ⟨by decide +kernel, _, by decide, by decide, rfl⟩
  obtain ⟨text, htext, hassembles⟩ := assemblyHeader_round_trip hwords (by decide +kernel)
  obtain ⟨image, himage, hcode, hlabels, hconstants⟩ :=
    hassembles 0x0200 (by decide) (by decide)
  exact ⟨text, image, htext, himage, hcode, hlabels, hconstants⟩

end Toolchain6502.Machine
