import Mathlib.Data.List.Nodup
import Toolchain6502.Proofs.Assembly.ImageRows
import Toolchain6502.Proofs.Project.ByteProvenance

namespace Toolchain6502.Project

open Assembly Files Source Text

theorem filter_range (low high n : Nat) :
    (List.range n).filter (fun i => low ≤ i && i ≤ high) =
      List.range' low (min n (high + 1) - low) := by
  induction n with
  | zero => simp
  | succ n ih =>
    rw [List.range_succ, List.filter_append, ih]
    by_cases h : low ≤ n ∧ n ≤ high
    · have hcount : min (n + 1) (high + 1) - low = min n (high + 1) - low + 1 := by omega
      have hnext : low + (min n (high + 1) - low) = n := by omega
      rw [hcount, List.range'_1_concat, hnext]
      simp [h]
    · have hcount : min (n + 1) (high + 1) - low = min n (high + 1) - low := by omega
      rw [hcount, List.filter_cons_of_neg (by simpa using h), List.filter_nil, List.append_nil]

/-- The lines of a text from `radius` lines before the line `c` to as many behind it, as far as there
are lines. The line `c` is marked. -/
structure Shows (ls : List String) (c radius : Nat) (w : List ContextLine) : Prop where
  numbers : w.map ContextLine.line =
    List.range' (max 1 (c - radius)) (min ls.length (c + radius) + 1 - max 1 (c - radius))
  texts : ∀ l ∈ w, ls[l.line - 1]? = some l.text
  current : ∀ l ∈ w, l.isCurrent = true ↔ l.line = c

theorem Shows.filter_current {ls : List String} {c radius : Nat} {w : List ContextLine}
    (h : Shows ls c radius w) (hlow : 1 ≤ c) (hhigh : c ≤ ls.length) :
    ∃ l, w.filter ContextLine.isCurrent = [l] ∧ l.line = c := by
  have hnumbers : (w.filter ContextLine.isCurrent).map ContextLine.line = [c] := by
    have hmarked : w.filter ContextLine.isCurrent = w.filter (fun l => l.line == c) := by
      refine List.filter_congr fun l hl => ?_
      rw [Bool.eq_iff_iff, h.current l hl, beq_iff_eq]
    have hmem : c ∈ w.map ContextLine.line := by
      rw [h.numbers, List.mem_range'_1]
      omega
    have hnodup : (w.map ContextLine.line).Nodup := h.numbers ▸ List.nodup_range'
    calc (w.filter ContextLine.isCurrent).map ContextLine.line
        = (w.map ContextLine.line).filter (· == c) := by rw [hmarked, List.filter_map]; rfl
      _ = List.replicate ((w.map ContextLine.line).count c) c := List.filter_beq c
      _ = [c] := by rw [List.count_eq_one_of_mem hnodup hmem]; rfl
  obtain ⟨l, hl, hline⟩ := List.map_eq_singleton_iff.mp hnumbers
  exact ⟨l, hl, hline⟩

namespace Artifacts

variable {a : Artifacts}

theorem context_shows {o c : Nat} (hline : a.image.lineMap[o]? = some (c : Int)) (hlow : 1 ≤ c)
    (radius : Nat) : Shows a.unit.lines c radius (a.context o radius) := by
  have hcontext : a.context o radius = (a.unit.lines.zipIdx.filter fun p =>
      ((c : Int) - 1 - radius ≤ p.2 && (p.2 : Int) ≤ c - 1 + radius)).map fun p =>
        ⟨p.2 + 1, p.1, (c : Int) - 1 = p.2⟩ := by
    simp [context, hline]
  have hinside : ∀ l ∈ a.context o radius, ∃ i : Nat, a.unit.lines[i]? = some l.text ∧
      l.line = i + 1 ∧ (l.isCurrent = true ↔ (c : Int) - 1 = i) := by
    intro l hl
    rw [hcontext] at hl
    obtain ⟨⟨text, i⟩, hp, rfl⟩ := List.mem_map.mp hl
    refine ⟨i, List.mem_zipIdx_iff_getElem?.mp (List.mem_filter.mp hp).1, rfl, decide_eq_true_iff⟩
  refine ⟨?_, ?_, ?_⟩
  · have hnumbers : (a.context o radius).map ContextLine.line =
        ((a.unit.lines.zipIdx.map Prod.snd).filter
          fun i => (c - 1 - radius ≤ i && i ≤ c - 1 + radius)).map (1 + ·) := by
      have hnear : (a.unit.lines.zipIdx.filter fun p =>
          ((c : Int) - 1 - radius ≤ p.2 && (p.2 : Int) ≤ c - 1 + radius)) =
          a.unit.lines.zipIdx.filter fun p => (c - 1 - radius ≤ p.2 && p.2 ≤ c - 1 + radius) := by
        refine List.filter_congr fun p _ => ?_
        rw [Bool.eq_iff_iff]
        simp only [Bool.and_eq_true, decide_eq_true_eq]
        omega
      rw [hcontext, hnear, List.filter_map, List.map_map, List.map_map]
      exact List.map_congr_left fun p _ => Nat.add_comm p.2 1
    rw [hnumbers, List.zipIdx_map_snd, ← List.range_eq_range', filter_range, List.map_add_range']
    congr 1 <;> omega
  · intro l hl
    obtain ⟨i, htext, hnumber, -⟩ := hinside l hl
    rw [hnumber]
    exact htext
  · intro l hl
    obtain ⟨i, -, hnumber, hcurrent⟩ := hinside l hl
    rw [hcurrent, hnumber]
    omega

theorem context_congr {o o' : Nat} (h : a.image.lineMap[o]? = a.image.lineMap[o']?)
    (radius : Int) : a.context o radius = a.context o' radius := by
  simp [context, h]

theorem sourceAtAddress?_eq (a : Artifacts) {o : Nat} (ho : o < a.program.length) :
    a.sourceAtAddress? (a.loadAddress + o) = a.origins[o]? := by
  have hoffset : a.offsetOf? (a.loadAddress + o) = some o := by
    simp only [offsetOf?]
    rw [if_pos (by omega)]
    exact congrArg some (by omega)
  simp [sourceAtAddress?, hoffset, sourceAtOffset?]

theorem sourceAtAddress?_isSome (h : a.origins.length = a.program.length) (address : Int) :
    (a.sourceAtAddress? address).isSome ↔
      a.loadAddress ≤ address ∧ address < a.loadAddress + a.program.length := by
  constructor
  · intro hsome
    by_contra hout
    have hoffset : a.offsetOf? address = none := by
      rw [offsetOf?, if_neg (by omega)]
    simp [sourceAtAddress?, hoffset] at hsome
  · rintro ⟨hlow, hhigh⟩
    obtain ⟨o, ho⟩ := Int.eq_ofNat_of_zero_le (Int.sub_nonneg.mpr hlow)
    obtain rfl : address = a.loadAddress + o := by omega
    rw [a.sourceAtAddress?_eq (by omega), List.getElem?_eq_getElem (by omega)]
    rfl

end Artifacts

/-- The two questions about a build have answers that fit. There is an authored line exactly for the
addresses of the program. The lines shown around a byte are those next to its line in the merged
source, of which that line alone is marked, and the authored line is the one that the marked line
comes from. The bytes of an instruction share their answers. -/
theorem assembleProject_queries_agree {root : Path} {config : Option Machine.Config} {t t' : Tree}
    {a : Artifacts} (h : assembleProject root config t = (.ok a, t')) :
    (∀ address : Int, (a.sourceAtAddress? address).isSome ↔
      a.loadAddress ≤ address ∧ address < a.loadAddress + a.program.length) ∧
    (∀ o < a.program.length, ∃ c : Nat, a.image.lineMap[o]? = some (c : Int) ∧ 1 ≤ c ∧
      c ≤ a.unit.lines.length ∧ ∀ radius : Nat, Shows a.unit.lines c radius (a.context o radius) ∧
        ∃ l, (a.context o radius).filter ContextLine.isCurrent = [l] ∧
          a.sourceAtAddress? (a.loadAddress + o) = a.unit.origins[l.line - 1]?) ∧
    ∃ ss, readSource mergedName a.unit.text = .ok ss ∧
      List.Forall₂ (fun row s => Statement.Writes a.image.symbols s row) a.image.rows
        (ss.filter Statement.isInstruction) ∧
      ∀ row ∈ a.image.rows, ∃ o, row.address = a.loadAddress + o ∧
        (a.program.drop o).take row.bytes.length = row.bytes ∧
        ∀ i < row.bytes.length, ∀ j < row.bytes.length,
          a.sourceAtAddress? (row.address + i) = a.sourceAtAddress? (row.address + j) ∧
          ∀ radius : Nat, a.context (o + i) radius = a.context (o + j) radius := by
  obtain ⟨-, -, ss, -, hss, himage, horigins⟩ := assembleProject_eq_ok h
  obtain ⟨hlength, htraces⟩ := lineMap_traces hss himage
  obtain ⟨hcount, hfound⟩ := originMap_eq_ok horigins
  have hrows := emitRows_of_assemble himage
  -- The line of a byte and the origin of that line.
  have hline {o : Nat} (ho : o < a.program.length) : ∃ c : Nat, a.image.lineMap[o]? = some (c : Int) ∧
      1 ≤ c ∧ c ≤ a.unit.lines.length ∧ a.origins[o]? = a.unit.origins[c - 1]? := by
    obtain ⟨k, line, -, -, -, -, hk, hline, -⟩ := htraces o ho
    obtain ⟨origin, horigin, hout⟩ := hfound o k hk
    have hlt := (List.getElem?_eq_some_iff.mp hline).1
    exact ⟨k + 1, hk, Nat.le_add_left 1 k, hlt, hout.trans horigin.symm⟩
  refine ⟨a.sourceAtAddress?_isSome (hcount.trans hlength), ?_, ss, hss,
    emitRows_writes (readSource_formed hss) hrows, ?_⟩
  · intro o ho
    obtain ⟨c, hc, hlow, hhigh, horigin⟩ := hline ho
    refine ⟨c, hc, hlow, hhigh, fun radius => ?_⟩
    have hshows := a.context_shows hc hlow radius
    obtain ⟨l, hl, hnumber⟩ := hshows.filter_current hlow hhigh
    refine ⟨hshows, l, hl, ?_⟩
    rw [a.sourceAtAddress?_eq ho, hnumber, horigin]
  · intro row hrow
    obtain ⟨o, haddress, hinside, hbytes, hlines⟩ := Image.exists_offset himage hrow
    have hsource {i : Nat} (hi : i < row.bytes.length) :
        a.sourceAtAddress? (row.address + i) = a.unit.origins[row.line.toNat - 1]? := by
      have hin : o + i < a.program.length := Nat.lt_of_lt_of_le (Nat.add_lt_add_left hi o) hinside
      obtain ⟨c, hc, -, -, horigin⟩ := hline hin
      have hnumber : row.line = c := Option.some.inj ((hlines i hi).symm.trans hc)
      rw [haddress, Int.natCast_add, Int.add_assoc, ← Int.natCast_add, a.sourceAtAddress?_eq hin,
        horigin, hnumber, Int.toNat_natCast]
    refine ⟨o, haddress, hbytes, fun i hi j hj => ⟨(hsource hi).trans (hsource hj).symm, ?_⟩⟩
    intro radius
    rw [← Int.natCast_add, ← Int.natCast_add]
    exact Artifacts.context_congr ((hlines i hi).trans (hlines j hj).symm) radius

def jumpProject : Tree where
  entries := [(["w"], .directory), (["w", "src"], .directory),
    (["w", "src", "main.asm"], .file (encodeUtf8 "\nJMP End\nEnd: NOP\n".toList))]
  current := ["w"]

theorem jumpProject_queries : ∃ a t', assembleProject (Path.ofText ".") (some {}) jumpProject =
    (.ok a, t') ∧ a.program.length = 4 ∧ (a.sourceAtAddress? (a.loadAddress + 2)).isSome ∧
    a.sourceAtAddress? (a.loadAddress + 4) = none ∧
    (a.context 2 5).map ContextLine.line = [1, 2, 3] ∧
    ∃ l, (a.context 2 5).filter ContextLine.isCurrent = [l] ∧ l.line = 2 := by
  have hbuild : ((assembleProject (Path.ofText ".") (some {}) jumpProject).1.toOption.map
      fun a => (a.program.length, a.image.lineMap[2]?, a.unit.lines.length)) =
        some (4, some 2, 3) := by decide +kernel
  obtain ⟨a, t', hrun, hfacts⟩ := Disk.exists_eq_ok hbuild
  obtain ⟨hsize, hline, hlines⟩ : a.program.length = 4 ∧ a.image.lineMap[2]? = some 2 ∧
      a.unit.lines.length = 3 := by simpa using hfacts
  obtain ⟨hsome, hqueries, -⟩ := assembleProject_queries_agree hrun
  obtain ⟨c, hc, -, -, hcontext⟩ := hqueries 2 (by omega)
  obtain rfl : c = 2 := Int.ofNat_inj.mp (Option.some.inj (hc.symm.trans hline))
  obtain ⟨hshows, l, hl, -⟩ := hcontext 5
  have hmarked := List.mem_filter.mp (hl ▸ List.mem_singleton_self l)
  refine ⟨a, t', hrun, hsize, (hsome _).mpr (by omega), ?_, ?_, l, hl, ?_⟩
  · rw [← Option.not_isSome_iff_eq_none, hsome]
    omega
  · refine hshows.numbers.trans ?_
    rw [hlines]
    rfl
  · exact (hshows.current l hmarked.1).mp hmarked.2

end Toolchain6502.Project
