import Toolchain6502.Machine.Headers
import Toolchain6502.Proofs.Assembly.WrittenConstant

namespace Toolchain6502.Machine

open Text Assembly

def Config.sized (c : Config) (width height colors : Nat) (sprites : List String) : Config :=
  { c with
    videoWidth := .integer width, videoHeight := .integer height, globalColors := .integer colors
    spriteNames := sprites.map .text }

def videoBytes (width height : Nat) : Nat := (width * height + 1) / 2

def regionEnd (start size : Nat) : Nat := min (start + size) 0xFFFF

def paletteAddress (width height : Nat) : Nat := regionEnd videoBase (videoBytes width height)

def spriteAddress (width height colors : Nat) : Nat :=
  regionEnd (paletteAddress width height) (colors * bytesPerColor)

def ioAddress (width height colors : Nat) : Nat :=
  regionEnd (spriteAddress width height colors) spriteBytes

def sizedMemory (width height colors : Nat) : MemoryMap where
  paletteRam := .whole (paletteAddress width height)
  spriteRam := .whole (spriteAddress width height colors)
  io := .whole (ioAddress width height colors)
  rom := .whole (regionEnd (ioAddress width height colors) ioBytes)

def sizedScreen (width height : Nat) : Screen :=
  ⟨.whole width, .whole height, .whole (videoBytes width height)⟩

def spriteIndices (sprites : List String) : List Constant :=
  sprites.zipIdx.map fun (name, i) =>
    { name := spriteConstantName name, value := .whole i, isHex := false }

theorem clamp_count (n : Nat) : clamp (.whole n) = .whole (min n 0xFFFF : Nat) := by
  by_cases hn : n ≤ 0xFFFF
  · have hfits : ¬ (n : Int) > (0xFFFF : Nat) := by omega
    simp only [clamp, Number.exceeds, Number.toInt, hfits, decide_false, Bool.false_eq_true,
      if_false, Nat.min_eq_left hn]
  · have hexceeds : (n : Int) > (0xFFFF : Nat) := by omega
    simp only [clamp, Number.exceeds, Number.toInt, hexceeds, decide_true, if_true,
      Nat.min_eq_right (by omega : 0xFFFF ≤ n)]
    rfl

theorem clamp_advance (n size : Nat) :
    clamp ((Number.whole n).advance size) = .whole (regionEnd n size) :=
  clamp_count (n + size)

theorem screen_sized (c : Config) (width height colors : Nat) (sprites : List String) :
    (c.sized width height colors sprites).screen = .ok (sizedScreen width height) := by
  have hhalf : ((width : Int) * height + 1).fdiv 2 = (videoBytes width height : Nat) := by
    rw [Int.fdiv_eq_ediv_of_nonneg _ (by decide), videoBytes]
    omega
  simp [Config.screen, Config.sized, Toml.Value.number?, screenBytes, Number.mul, Number.combine,
    Number.int?, Number.advance, Number.toInt, Number.half, hhalf, sizedScreen, Except.mapError]

theorem add_counts (m n : Nat) : (Number.whole m).add (.whole n) = .ok (.whole (m + n : Nat)) := rfl

theorem lay_counts (width height colors : Nat) :
    MemoryMap.lay (.whole (videoBytes width height)) (.whole (colors * bytesPerColor : Nat)) =
      .ok (sizedMemory width height colors) := by
  have hpalette : paletteStart (.whole (videoBytes width height)) =
      .whole (paletteAddress width height) := by
    rw [paletteStart, clamp_advance, paletteAddress, regionEnd, regionEnd, Nat.add_comm]
  have hsprites : clamp (.whole (paletteAddress width height + colors * bytesPerColor : Nat)) =
      .whole (spriteAddress width height colors) := clamp_count _
  have hio : clamp ((Number.whole (spriteAddress width height colors)).advance spriteBytes) =
      .whole (ioAddress width height colors) := clamp_advance _ _
  simp only [MemoryMap.lay, hpalette, add_counts, ok_bind, hsprites, hio, clamp_advance, pure_eq_ok,
    sizedMemory]

theorem memoryMap_eq_ok {c : Config} {screen : Screen} {palette : Number} {m : MemoryMap}
    (hpalette : c.paletteBytes = .ok (some palette)) (hscreen : c.screen = .ok screen)
    (hlay : MemoryMap.lay screen.bytes palette = .ok m) : c.memoryMap = .ok m := by
  simp [Config.memoryMap, hpalette, hscreen, hlay, Except.mapError]

theorem memoryMap_sized (c : Config) (width height colors : Nat) (sprites : List String) :
    (c.sized width height colors sprites).memoryMap = .ok (sizedMemory width height colors) := by
  have hpalette : (c.sized width height colors sprites).paletteBytes =
      .ok (some (.whole (colors * bytesPerColor : Nat))) := by
    simp [Config.paletteBytes, Config.sized, Toml.Value.number?, Number.times, Number.toInt]
  exact memoryMap_eq_ok hpalette (screen_sized c width height colors sprites)
    (lay_counts width height colors)

theorem mapM_textOf (sprites : List String) :
    (sprites.map Toml.Value.text).mapM textOf = .ok sprites := by
  induction sprites with
  | nil => rfl
  | cons name sprites ih => simp [textOf, ih]

theorem layout_sized (c : Config) (width height colors : Nat) (sprites : List String) :
    (c.sized width height colors sprites).layout =
      .ok ⟨sizedMemory width height colors,
        systemConstants (sizedMemory width height colors) (sizedScreen width height),
        spriteIndices sprites⟩ := by
  have hsprites : spriteConstants (c.sized width height colors sprites).spriteNames =
      .ok (spriteIndices sprites) := by
    rw [spriteConstants, Config.sized, mapM_textOf]
    rfl
  simp [Config.layout, memoryMap_sized, screen_sized, hsprites]

def Constant.count (c : Constant) : Nat := c.value.toInt.toNat

def Constant.definition (c : Constant) : String × Nat := (c.name, c.count)

/-- A count under the name of a symbol. -/
structure Constant.Counts (c : Constant) : Prop where
  name : isSymbol c.name.toList = true
  value : c.value = .whole c.count

def Writes (ds : List (String × Nat)) : Except NumberFault (List String) → Prop
  | .ok ls => DefinitionLines ls ds
  | .error e => e = .tooManyDigits ∧ ∃ d ∈ ds, 0xFFFF < d.2

theorem text_count (n : Nat) :
    (Number.whole n).text = .ok (toString n) ∧ n < 10 ^ maxDecimalDigits ∨
      (Number.whole n).text = .error .tooManyDigits ∧ 0xFFFF < n := by
  have hlimit : 10 ^ 5 ≤ 10 ^ maxDecimalDigits := Nat.pow_le_pow_right (by decide) (by decide)
  have htext : toString (n : Int) = toString n := rfl
  rw [Number.text, Int.natAbs_natCast, Nat.pow_eq, htext]
  generalize 10 ^ maxDecimalDigits = limit at *
  split
  · exact .inl ⟨rfl, by assumption⟩
  · exact .inr ⟨rfl, by omega⟩

theorem Constant.Counts.define {c : Constant} (hc : c.Counts) {line : String} {value : List Char}
    (hvalue : Spells value c.count) (hline : line.toList = constantLine c.name.toList value) :
    DefinitionLines [line] [c.definition] :=
  .define hc.name hvalue hline .nil

theorem Constant.Counts.plainLine {c : Constant} (hc : c.Counts) :
    Writes [c.definition] ((c.plainLine ".const").map ([·])) := by
  rw [Constant.plainLine, hc.value]
  cases text_count c.count with
  | inl hshort =>
    rw [hshort.1]
    refine hc.define (spells_decimal hshort.2) ?_
    simp [constantLine, constantWord, toString, Nat.repr]
  | inr hlong =>
    rw [hlong.1]
    exact ⟨rfl, c.definition, List.mem_singleton_self _, hlong.2⟩

theorem Constant.Counts.assemblyLine {c : Constant} (hc : c.Counts) :
    Writes [c.definition] (c.assemblyLine.map ([·])) := by
  cases hhex : c.isHex with
  | false =>
    have hplain : c.assemblyLine = c.plainLine ".const" := by
      simp [Constant.assemblyLine, Constant.line, hhex]
    rw [hplain]
    exact hc.plainLine
  | true =>
    have hdigits : c.value.hexText 4 = .ok (hex 4 c.count) := by
      rw [hc.value]
      rfl
    have hline : c.assemblyLine = .ok (".const" ++ " " ++ c.name ++ " " ++ "$" ++ hex 4 c.count) := by
      simp only [Constant.assemblyLine, Constant.line, hhex, hdigits]
      rfl
    rw [hline]
    refine hc.define (spells_hex 3 c.count) ?_
    simp [constantLine, constantWord]

theorem Writes.append {ds ds' : List (String × Nat)} {r r' : Except NumberFault (List String)}
    (h : Writes ds r) (h' : Writes ds' r') :
    Writes (ds ++ ds') (do return (← r) ++ (← r')) := by
  cases r with
  | error e =>
    obtain ⟨he, d, hd, hlong⟩ := h
    exact ⟨he, d, List.mem_append_left ds' hd, hlong⟩
  | ok ls =>
    cases r' with
    | error e =>
      obtain ⟨he, d, hd, hlong⟩ := h'
      exact ⟨he, d, List.mem_append_right ds hd, hlong⟩
    | ok ls' => exact DefinitionLines.append h h'

theorem writes_mapM {f : Constant → Except NumberFault String} {cs : List Constant}
    (h : ∀ c ∈ cs, Writes [c.definition] ((f c).map ([·]))) :
    Writes (cs.map Constant.definition) (cs.mapM f) := by
  induction cs with
  | nil => exact DefinitionLines.nil
  | cons c cs ih =>
    rw [List.forall_mem_cons] at h
    have hboth := h.1.append (ih h.2)
    rw [List.mapM_cons]
    cases hfirst : f c with
    | error e => simpa [hfirst, Except.map] using hboth
    | ok line => simpa [hfirst, Except.map] using hboth

theorem definitionLines_remarks {ls : List String}
    (h : ∀ l ∈ ls, readContents l.toList = .ok [] ∧ l.toList.any isBreak = false) :
    DefinitionLines ls [] := by
  induction ls with
  | nil => exact .nil
  | cons l ls ih =>
    rw [List.forall_mem_cons] at h
    have hbreak : ∀ c ∈ l.toList, isBreak c = false := by simpa using h.1.2
    exact .remark h.1.1 hbreak (ih h.2)

theorem writes_spriteLines {sprites : List Constant} (h : ∀ c ∈ sprites, c.Counts) :
    Writes (sprites.map Constant.definition) (spriteLines "; Sprite indices" ".const" sprites) := by
  unfold spriteLines
  split
  · rename_i hnone
    rw [List.isEmpty_iff.mp hnone]
    exact DefinitionLines.nil
  · have hheading : Writes [] (.ok ["", "; Sprite indices"]) :=
      definitionLines_remarks (by decide +kernel)
    exact hheading.append (writes_mapM fun c hc => (h c hc).plainLine)

theorem assemblyHeader_lines {cs sprites : List Constant} (hcs : ∀ c ∈ cs, c.Counts)
    (hsprites : ∀ c ∈ sprites, c.Counts) :
    (∃ text, assemblyHeader cs sprites = .ok text ∧
      DefinitionLines (lines text) ((cs ++ sprites).map Constant.definition)) ∨
    assemblyHeader cs sprites = .error .tooManyDigits ∧ ∃ c ∈ cs ++ sprites, 0xFFFF < c.count := by
  have hheading : Writes [] (.ok ["; Auto-generated by chipcade. Do not edit.", "; System constants"]) :=
    definitionLines_remarks (by decide +kernel)
  have hall := (hheading.append (writes_mapM fun c hc => (hcs c hc).assemblyLine)).append
    (writes_spriteLines hsprites)
  rw [List.nil_append, ← List.map_append] at hall
  unfold assemblyHeader
  cases hfirst : cs.mapM Constant.assemblyLine with
  | error e =>
    rw [hfirst] at hall
    obtain ⟨rfl, d, hd, hlong⟩ := hall
    obtain ⟨c, hc, rfl⟩ := List.mem_map.mp hd
    exact .inr ⟨rfl, c, hc, hlong⟩
  | ok ls =>
    cases hsecond : spriteLines "; Sprite indices" ".const" sprites with
    | error e =>
      rw [hfirst, hsecond] at hall
      obtain ⟨rfl, d, hd, hlong⟩ := hall
      obtain ⟨c, hc, rfl⟩ := List.mem_map.mp hd
      exact .inr ⟨rfl, c, hc, hlong⟩
    | ok ls' =>
      rw [hfirst, hsecond] at hall
      refine .inl ⟨_, rfl, ?_⟩
      rw [joinLines, lines_join (DefinitionLines.isBreak_eq_false hall)]
      exact hall

theorem put_of_not_mem {table : NameTable α} {name : String} (h : name ∉ table.map Prod.fst)
    (value : α) : table.put name value = table ++ [(name, value)] := by
  induction table with
  | nil => rfl
  | cons entry rest ih =>
    simp only [List.map_cons, List.mem_cons, not_or] at h
    rw [NameTable.put, if_neg (Ne.symm h.1), ih h.2]
    rfl

theorem foldl_put {cs : List Constant} {table : NameTable Number}
    (h : (table.map Prod.fst ++ cs.map Constant.name).Nodup) :
    cs.foldl (fun table c => table.put c.name c.value) table =
      table ++ cs.map fun c => (c.name, c.value) := by
  induction cs generalizing table with
  | nil => simp
  | cons c cs ih =>
    have hnew : c.name ∉ table.map Prod.fst := by
      intro hmem
      exact absurd rfl ((List.nodup_append.mp h).2.2 c.name hmem c.name List.mem_cons_self)
    have hnext : ((table ++ [(c.name, c.value)]).map Prod.fst ++ cs.map Constant.name).Nodup := by
      simpa using h
    rw [List.foldl_cons, put_of_not_mem hnew, ih hnext]
    simp

/-- Constants under different names all stay in the table. -/
theorem constantTable_of_nodup {cs : List Constant} (h : (cs.map Constant.name).Nodup) :
    constantTable cs = cs.map fun c => (c.name, c.value) :=
  foldl_put h

theorem constantTable_of_counts {cs : List Constant} (hcs : ∀ c ∈ cs, c.Counts)
    (h : (cs.map Constant.name).Nodup) :
    (cs.map Constant.definition).map (fun d => (d.1, Number.whole d.2)) = constantTable cs := by
  rw [constantTable_of_nodup h, List.map_map]
  refine List.map_congr_left fun c hc => ?_
  simp [Constant.definition, ← (hcs c hc).value]

theorem isSymbolPart_of_isConstantChar {c : Char} (h : isConstantChar c = true) :
    isSymbolPart c = true := by
  rw [isConstantChar, Bool.or_eq_true] at h
  rcases h with h | h
  · have halpha : c.isAlpha = true := (Bool.or_eq_true _ _).mpr (.inl h)
    simp [isSymbolPart, Char.isAlphanum, halpha]
  · exact isSymbolPart_of_isDigit h

theorem toList_spriteConstantName (name : String) : (spriteConstantName name).toList =
    "SPR_".toList ++ (upper name.toList).map fun c => if isConstantChar c then c else '_' := by
  simp [spriteConstantName]

theorem isSymbol_spriteConstantName (name : String) :
    isSymbol (spriteConstantName name).toList = true := by
  have hrest : ∀ c ∈ (upper name.toList).map fun c => if isConstantChar c then c else '_',
      isSymbolPart c = true := by
    intro c hc
    obtain ⟨d, -, rfl⟩ := List.mem_map.mp hc
    split
    · exact isSymbolPart_of_isConstantChar (by assumption)
    · rfl
  rw [toList_spriteConstantName]
  generalize (upper name.toList).map _ = rest at hrest
  have hfirst : ("SPR_".toList ++ rest) = 'S' :: (['P', 'R', '_'] ++ rest) := rfl
  rw [hfirst, isSymbol, List.all_append, List.all_eq_true.mpr hrest]
  rfl

theorem advance_count (n k : Nat) : (Number.whole n).advance k = .whole (n + k : Nat) := rfl

/-- The names are the same for every machine, and no sprite has one of them. -/
theorem systemConstants_names (m : MemoryMap) (screen : Screen) :
    ((systemConstants m screen).map Constant.name).Nodup ∧
    ∀ name ∈ (systemConstants m screen).map Constant.name,
      isSymbol name.toList = true ∧ "SPR_".toList.isPrefixOf name.toList = false := by
  have hnames : (systemConstants m screen).map Constant.name =
      (systemConstants (sizedMemory 0 0 0) (sizedScreen 0 0)).map Constant.name := rfl
  rw [hnames]
  decide +kernel

theorem systemConstants_values (width height colors : Nat) :
    ∀ c ∈ systemConstants (sizedMemory width height colors) (sizedScreen width height),
      c.value = .whole c.count := by
  simp only [systemConstants, sizedMemory, sizedScreen, advance_count, List.forall_mem_cons,
    List.not_mem_nil, false_implies, implies_true, and_true]
  and_intros <;> rfl

theorem counts_systemConstants (width height colors : Nat) :
    ∀ c ∈ systemConstants (sizedMemory width height colors) (sizedScreen width height),
      c.Counts := by
  intro c hc
  obtain ⟨-, hnames⟩ := systemConstants_names (sizedMemory width height colors)
    (sizedScreen width height)
  exact ⟨(hnames c.name (List.mem_map_of_mem hc)).1, systemConstants_values width height colors c hc⟩

theorem counts_spriteIndices (sprites : List String) : ∀ c ∈ spriteIndices sprites, c.Counts := by
  intro c hc
  obtain ⟨⟨name, i⟩, -, rfl⟩ := List.mem_map.mp hc
  exact ⟨isSymbol_spriteConstantName name, rfl⟩

theorem names_spriteIndices (sprites : List String) :
    (spriteIndices sprites).map Constant.name = sprites.map spriteConstantName := by
  calc (spriteIndices sprites).map Constant.name
      = (sprites.zipIdx.map Prod.fst).map spriteConstantName := by
        rw [spriteIndices, List.map_map, List.map_map]
        rfl
    _ = sprites.map spriteConstantName := by rw [List.zipIdx_map_fst]

structure Fits (width height colors : Nat) (sprites : List String) : Prop where
  width_le : width ≤ 0xFFFF
  height_le : height ≤ 0xFFFF
  /-- The last of the input registers is in the memory. -/
  registers_le :
    videoBase + videoBytes width height + colors * bytesPerColor + spriteBytes + 5 ≤ 0xFFFF
  indices_le : sprites.length ≤ 0x10000
  names_nodup : (sprites.map spriteConstantName).Nodup

theorem names_nodup_iff (m : MemoryMap) (screen : Screen) (sprites : List String) :
    ((systemConstants m screen ++ spriteIndices sprites).map Constant.name).Nodup ↔
      (sprites.map spriteConstantName).Nodup := by
  obtain ⟨hnodup, hnames⟩ := systemConstants_names m screen
  rw [List.map_append, names_spriteIndices, List.nodup_append]
  refine ⟨fun h => h.2.1, fun h => ⟨hnodup, h, ?_⟩⟩
  -- only the names of sprites start as these do
  intro system hsystem sprite hsprite heq
  obtain ⟨name, -, rfl⟩ := List.mem_map.mp hsprite
  have hprefix := (hnames system hsystem).2
  have hsprefix : "SPR_".toList.isPrefixOf (spriteConstantName name).toList = true := by
    rw [toList_spriteConstantName, List.isPrefixOf_iff_prefix]
    exact List.prefix_append _ _
  rw [heq, hsprefix] at hprefix
  simp at hprefix

theorem regionEnd_le (start size : Nat) : regionEnd start size ≤ 0xFFFF := Nat.min_le_right _ _

/-- Regions that are cut off leave no room for the input registers. -/
theorem ioAddress_room_iff (width height colors : Nat) : ioAddress width height colors + 5 ≤ 0xFFFF ↔
    videoBase + videoBytes width height + colors * bytesPerColor + spriteBytes + 5 ≤ 0xFFFF := by
  simp only [ioAddress, spriteAddress, paletteAddress, regionEnd, videoBase, spriteBytes]
  omega

theorem system_fits_iff (width height colors : Nat) :
    (∀ c ∈ systemConstants (sizedMemory width height colors) (sizedScreen width height),
      c.count ≤ 0xFFFF) ↔
    width ≤ 0xFFFF ∧ height ≤ 0xFFFF ∧
      videoBase + videoBytes width height + colors * bytesPerColor + spriteBytes + 5 ≤ 0xFFFF := by
  have hpalette : paletteAddress width height ≤ 0xFFFF := regionEnd_le _ _
  have hsprites : spriteAddress width height colors ≤ 0xFFFF := regionEnd_le _ _
  have hio : ioAddress width height colors ≤ 0xFFFF := regionEnd_le _ _
  have hrom : regionEnd (ioAddress width height colors) ioBytes ≤ 0xFFFF := regionEnd_le _ _
  rw [← ioAddress_room_iff]
  have hvideo := ioAddress_room_iff width height colors
  simp only [systemConstants, sizedMemory, sizedScreen, advance_count, List.forall_mem_cons,
    List.not_mem_nil, false_implies, implies_true, and_true, Constant.count, Number.toInt,
    Int.toNat_natCast]
  generalize colors * bytesPerColor = bytes at hvideo
  omega

theorem sprites_fit_iff (sprites : List String) :
    (∀ c ∈ spriteIndices sprites, c.count ≤ 0xFFFF) ↔ sprites.length ≤ 0x10000 := by
  constructor
  · intro h
    by_contra hlong
    have hi : 0x10000 < sprites.length := by omega
    have hmem : (sprites[0x10000], 0x10000) ∈ sprites.zipIdx :=
      List.mk_mem_zipIdx_iff_getElem?.mpr (by simp)
    have hcount : (0x10000 : Nat) ≤ 0xFFFF := h _ (List.mem_map_of_mem hmem)
    omega
  · intro h c hc
    obtain ⟨⟨name, i⟩, hmem, rfl⟩ := List.mem_map.mp hc
    have hi : i < sprites.length := by
      simpa using (List.mem_zipIdx hmem).2.1
    simp only [Constant.count, Number.toInt, Int.toNat_natCast]
    omega

theorem definable_iff_fits (width height colors : Nat) (sprites : List String) :
    Definable ((systemConstants (sizedMemory width height colors) (sizedScreen width height) ++
      spriteIndices sprites).map Constant.definition) ↔ Fits width height colors sprites := by
  have hnames := names_nodup_iff (sizedMemory width height colors) (sizedScreen width height) sprites
  have hvalues : (∀ c ∈ systemConstants (sizedMemory width height colors)
      (sizedScreen width height) ++ spriteIndices sprites, c.count ≤ 0xFFFF) ↔ _ :=
    List.forall_mem_append.trans
      (and_congr (system_fits_iff width height colors) (sprites_fit_iff sprites))
  rw [Definable, List.forall_mem_map, List.map_map]
  constructor
  · rintro ⟨hcounts, hnodup⟩
    obtain ⟨⟨hwidth, hheight, hregisters⟩, hindices⟩ := hvalues.mp hcounts
    exact ⟨hwidth, hheight, hregisters, hindices, hnames.mp hnodup⟩
  · rintro ⟨hwidth, hheight, hregisters, hindices, hnodup⟩
    exact ⟨hvalues.mpr ⟨⟨hwidth, hheight, hregisters⟩, hindices⟩, hnames.mpr hnodup⟩

/-- The header of a machine is assembled just when its constants fit, at every origin. It has no
code then, and its constants are those that C sources are given. Otherwise a number is too long to
be written, or the text is refused with a report. -/
theorem assemblyHeader_agrees (c : Config) (width height colors : Nat) (sprites : List String)
    (origin : Int) (horigin : 0 ≤ origin ∧ origin ≤ 0xFFFF) :
    ∃ l, (c.sized width height colors sprites).layout = .ok l ∧
      (Fits width height colors sprites → ∃ text image,
        assemblyHeader l.system l.sprites = .ok text ∧ assembleSource origin text = .ok image ∧
        image.code = [] ∧
        image.symbols.constants.map (fun d => (d.1, Number.whole d.2)) = l.constants) ∧
      (¬ Fits width height colors sprites →
        assemblyHeader l.system l.sprites = .error .tooManyDigits ∨
        ∃ text d, assemblyHeader l.system l.sprites = .ok text ∧
          assembleSource origin text = .error (.assembly d)) := by
  refine ⟨_, layout_sized c width height colors sprites, ?_⟩
  have hsystem := counts_systemConstants width height colors
  have hsprites := counts_spriteIndices sprites
  have hfits := definable_iff_fits width height colors sprites
  simp only [Layout.constants]
  generalize systemConstants (sizedMemory width height colors) (sizedScreen width height) = cs at *
  generalize spriteIndices sprites = ss at *
  cases assemblyHeader_lines hsystem hsprites with
  | inl h =>
    obtain ⟨text, htext, hlines⟩ := h
    obtain ⟨hassembled, hrefused⟩ := assembleSource_definitions hlines horigin
    constructor
    · intro hfit
      obtain ⟨image, himage, hcode, hconstants⟩ := hassembled (hfits.mpr hfit)
      refine ⟨text, image, htext, himage, hcode, ?_⟩
      rw [hconstants]
      refine constantTable_of_counts (List.forall_mem_append.mpr ⟨hsystem, hsprites⟩) ?_
      simpa [Constant.definition, Function.comp_def] using (hfits.mpr hfit).2
    · intro hfit
      obtain ⟨d, hd⟩ := hrefused fun hds => hfit (hfits.mp hds)
      exact .inr ⟨text, d, htext, hd⟩
  | inr h =>
    obtain ⟨herror, c, hc, hlong⟩ := h
    constructor
    · intro hfit
      have hshort := (hfits.mpr hfit).1 c.definition (List.mem_map_of_mem hc)
      exact absurd hshort (Nat.not_le.mpr hlong)
    · exact fun _ => .inl herror

theorem namedSprites_agree :
    Fits 256 192 16 ["player", "Enemy 1"] ∧ ∃ l text image,
      (Config.sized {} 256 192 16 ["player", "Enemy 1"]).layout = .ok l ∧
      assemblyHeader l.system l.sprites = .ok text ∧ assembleSource 0x200 text = .ok image ∧
      image.code = [] ∧
      image.symbols.constants.map (fun d => (d.1, Number.whole d.2)) = l.constants := by
  have hfits : Fits 256 192 16 ["player", "Enemy 1"] :=
    ⟨by decide, by decide, by decide, by decide, by decide +kernel⟩
  obtain ⟨l, hl, hagree, -⟩ :=
    assemblyHeader_agrees {} 256 192 16 ["player", "Enemy 1"] 0x200 (by decide)
  obtain ⟨text, image, h⟩ := hagree hfits
  exact ⟨hfits, l, text, image, hl, h⟩

/-- The regions of a wide screen reach the end of the memory, and no address is left for the
registers behind it. -/
theorem wideScreen_refused : ∃ l text d,
    (Config.sized {} 640 200 16 []).layout = .ok l ∧ assemblyHeader l.system l.sprites = .ok text ∧
      assembleSource 0x200 text = .error (.assembly d) := by
  have hsystem := counts_systemConstants 640 200 16
  have horigin : (0 : Int) ≤ 0x200 ∧ (0x200 : Int) ≤ 0xFFFF := by decide
  obtain ⟨text, htext⟩ : ∃ text, assemblyHeader
      (systemConstants (sizedMemory 640 200 16) (sizedScreen 640 200)) (spriteIndices []) = .ok text :=
    exists_eq_ok_of_isSome (by decide +kernel)
  rcases assemblyHeader_lines hsystem (counts_spriteIndices []) with ⟨text', htext', hlines⟩ | ⟨h, -⟩
  · have hwide : ¬ Fits 640 200 16 [] := fun hfits => absurd hfits.registers_le (by decide)
    have hvalues := (definable_iff_fits 640 200 16 []).not.mpr hwide
    obtain ⟨d, hd⟩ := (assembleSource_definitions hlines horigin).2 hvalues
    exact ⟨_, text', d, layout_sized {} 640 200 16 [], htext', hd⟩
  · simp [htext] at h

end Toolchain6502.Machine
