import Toolchain6502.Proofs.Assembly.Decoding
import Toolchain6502.Proofs.Assembly.MovedOrigin
import Toolchain6502.Proofs.Assembly.Sessions
import Toolchain6502.Proofs.Assembly.UnvaluedNumerals

namespace Toolchain6502.Assembly

open Cpu

def Symbols.Below (n : Nat) (t : Symbols) : Prop := ∀ x ∈ t, x.value < n

theorem Symbols.Below.predefine {t : Symbols} (h : t.Below addressLimit) (name : String)
    (value : Int) : (t.predefine name value).Below addressLimit := by
  have hvalue : (value % 0x10000).toNat < addressLimit := by
    unfold addressLimit
    omega
  unfold Symbols.predefine
  simp only
  split
  · intro x hx
    obtain ⟨y, hy, rfl⟩ := List.mem_map.mp hx
    split
    · exact hvalue
    · exact h y hy
  · intro x hx
    rcases List.mem_append.mp hx with hx | hx
    · exact h x hx
    · rw [List.mem_singleton.mp hx]
      exact hvalue

theorem Session.defineAll_below {s : Session} (h : s.predefined.Below addressLimit)
    (defines : List (String × Int)) :
    (s.defineAll defines).origin = s.origin ∧
      (s.defineAll defines).predefined.Below addressLimit := by
  unfold Session.defineAll
  induction defines generalizing s with
  | nil => exact ⟨rfl, h⟩
  | cons d defines ih => exact ih (s := s.define d.1 d.2) (h.predefine d.1 d.2)

/-- A number that is bound by a constant is a word. -/
def Content.Sized : Content → Prop
  | .constant _ (.number n) => n < addressLimit
  | _ => True

theorem readConstantValue_sized {text : List Char} {v : ConstantValue}
    (h : readConstantValue text = .ok v) (name : String) : (Content.constant name v).Sized := by
  unfold readConstantValue at h
  split at h
  · simp at h
  · rename_i n _
    unfold constantNumber at h
    split at h
    · obtain rfl := Except.ok.inj h
      simp only [Content.Sized, addressLimit]
      omega
    · simp [faultAs] at h
  · unfold constantSymbol at h
    split at h
    · obtain rfl := Except.ok.inj h
      trivial
    · simp [faultAs] at h

theorem readSource_sized {file text : String} {ss : List Statement}
    (h : readSource file text = .ok ss) : ∀ s ∈ ss, s.content.Sized := by
  intro s hs
  obtain ⟨contents, hcontents, hmem⟩ := exists_contents_of_mem h hs
  rcases statement_of_readContents hcontents hmem with ⟨name, hc⟩ | ⟨body, hbody, hmem⟩
  · rw [hc]
    trivial
  · rcases readBody_eq_ok hbody hmem with hdirective | ⟨m, o, -, hc⟩
    · obtain ⟨name, value, v, hv, hc⟩ := readDirective_eq_ok hdirective
      rw [hc]
      exact readConstantValue_sized hv name
    · rw [hc]
      trivial

section

variable {n : Nat} {t : Symbols} {a : Nat}

/-- What a statement adds stays below a bound just when a label does. A copy has the value of a
symbol that is there already. -/
theorem Statement.entries_below {s : Statement} (hn : addressLimit ≤ n) (hsized : s.content.Sized) :
    (Symbols.Below n (t ++ s.entries t a)) ↔
      t.Below n ∧ ∀ name, s.content = .label name → a < n := by
  have happend (u : Symbols) : Symbols.Below n (t ++ u) ↔ t.Below n ∧ Symbols.Below n u :=
    List.forall_mem_append
  have hsingle (x : Symbol) : Symbols.Below n [x] ↔ x.value < n := List.forall_mem_singleton
  rw [happend]
  unfold Statement.entries
  match hc : s.content with
  | .label name => simp [hsingle]
  | .constant name (.number m) =>
    have hm : m < n := Nat.lt_of_lt_of_le (by simpa [hc, Content.Sized] using hsized) hn
    simp [hsingle, hm]
  | .constant name (.copy source) =>
    have hcopied (ht : t.Below n) : (t.value? source).getD 0 < n := by
      cases hvalue : t.value? source with
      | none => exact Nat.lt_of_lt_of_le (by decide) hn
      | some m =>
        obtain ⟨x, hx, rfl⟩ := Option.map_eq_some_iff.mp hvalue
        exact ht x (List.mem_of_find?_eq_some hx)
    simpa [hsingle] using hcopied
  | .instruction m o => simp [Symbols.Below]

theorem tableAfter_below {ss : List Statement} (hn : addressLimit ≤ n)
    (hsized : ∀ s ∈ ss, s.content.Sized) :
    (tableAfter t a ss).Below n ↔
      t.Below n ∧ ∀ p ∈ placed a ss, ∀ name, p.2.content = .label name → p.1 < n := by
  induction ss generalizing t a with
  | nil => simp [tableAfter]
  | cons s rest ih =>
    rw [List.forall_mem_cons] at hsized
    rw [tableAfter, ih hsized.2, Statement.entries_below hn hsized.1, placed_cons,
      List.forall_mem_cons, and_assoc]

/-- No statement starts behind the end of the address space. -/
theorem AllFit.address_le {ss : List Statement} (h : AllFit t a ss) (ha : a ≤ addressLimit) :
    ∀ p ∈ placed a ss, p.1 ≤ addressLimit := by
  induction ss generalizing t a with
  | nil => simp
  | cons s rest ih =>
    have hnext : a + s.size ≤ addressLimit := by
      have hfits := h.1
      unfold Statement.Fits at hfits
      match hc : s.content with
      | .label _ | .constant _ _ => simpa [Statement.size, hc] using ha
      | .instruction m o =>
        rw [hc] at hfits
        exact hfits.2
    rw [placed_cons, List.forall_mem_cons]
    exact ⟨ha, ih h.2 hnext⟩

end

/-- A statement has its bytes in the code at its offset. -/
theorem code_slice {ss : List Statement} {k : Nat} {s : Statement} (hk : ss[k]? = some s)
    (t : Symbols) (origin : Nat) :
    ((Image.ofRows t ((placed origin ss).filterMap fun p => p.2.row? t p.1)).code.drop
        (addressAt 0 ss k)).take s.size = s.bytes t (addressAt origin ss k) := by
  apply List.ext_getElem?
  intro j
  rw [List.getElem?_take]
  split
  · rw [List.getElem?_drop]
    exact code_at_statement hk ‹_› t origin
  · rw [List.getElem?_eq_none]
    rw [s.bytes_length]
    omega

/-- A symbol in a word operand is put there modulo the size of the address space. -/
theorem Statement.Encodes.word {t : Symbols} {address : Nat} {s : Statement}
    (h : s.Encodes t address) {m : Mnemonic} {o : Operand} {name : String} (hformed : o.Formed)
    (hc : s.content = .instruction m o) (hmode : (encodingMode m o).operandSize = 2)
    (ho : o.symbol? = some name) :
    s.size = 3 ∧ ∃ n opcode operand, t.value? name = some n ∧
      s.bytes t address = opcode :: operand ∧ bytesNumber operand = n % addressLimit := by
  simp only [Statement.Encodes, hc] at h
  obtain ⟨opcode, hencoding, hencodes⟩ := h
  rw [← encoding?_mode hencoding] at hmode
  obtain ⟨n, hn⟩ := Option.isSome_iff_exists.mp (hencodes.resolves name ho)
  have hsuits : o.Suits opcode.mode := encoding?_mode hencoding ▸ hformed.suits m
  have hrelative : opcode.mode ≠ .relative := by
    intro hrelative
    simp [hrelative, Mode.operandSize] at hmode
  have hvalue : o.term.value t = n := by
    cases hterm : o.term with
    | number | minus => simp [Operand.symbol?, hterm] at ho
    | symbol other =>
      obtain rfl : other = name := by simpa [Operand.symbol?, hterm] using ho
      simp [Term.value, hn]
    | half half other =>
      have himmediate := hsuits.half half other hterm
      simp [himmediate, Mode.operandSize] at hmode
  have hcarried : o.carried t (address + opcode.size) opcode.mode = n := by
    simp [Operand.carried, hrelative, hvalue]
  refine ⟨by simp [Statement.size, hc, hencoding, Opcode.size, hmode], n, opcode.code,
    littleEndian 2 n, hn, ?_, ?_⟩
  · simp [Statement.bytes, hc, hencoding, hmode, hcarried]
  · have hbytes := bytesNumber_littleEndian 2 n
    unfold addressLimit
    omega

section

variable {origin : Nat} {predefined : Symbols} {file text : String} {ss : List Statement}
  {image : Image}

theorem mem_placed {k : Nat} {s : Statement} (hk : ss[k]? = some s) :
    (addressAt origin ss k, s) ∈ placed origin ss :=
  List.mem_of_getElem? (by rw [placed_getElem?, hk]; rfl)

theorem symbols_le_of_assemble (hread : readSource file text = .ok ss)
    (h : assemble origin predefined ss = .ok image) (horigin : origin ≤ addressLimit)
    (hpredefined : predefined.Below addressLimit) : image.symbols.Below (addressLimit + 1) := by
  obtain ⟨hfit, -, rfl⟩ := (assemble_eq_ok (readSource_formed hread)).mp h
  refine (tableAfter_below (Nat.le_succ _) (readSource_sized hread)).mpr ⟨?_, ?_⟩
  · exact fun x hx => Nat.lt_succ_of_lt (hpredefined x hx)
  · exact fun p hp _ _ => Nat.lt_succ_of_le (hfit.address_le horigin p hp)

theorem symbols_below_iff_of_assemble (hread : readSource file text = .ok ss)
    (h : assemble origin predefined ss = .ok image) (horigin : origin ≤ addressLimit)
    (hpredefined : predefined.Below addressLimit) :
    image.symbols.Below addressLimit ↔ ∀ k s name, ss[k]? = some s → s.content = .label name →
      addressAt origin ss k ≠ addressLimit := by
  obtain ⟨hfit, -, rfl⟩ := (assemble_eq_ok (readSource_formed hread)).mp h
  refine (tableAfter_below (Nat.le_refl _) (readSource_sized hread)).trans ?_
  simp only [hpredefined, true_and]
  constructor
  · intro hlabels k s name hk hc
    exact Nat.ne_of_lt (hlabels _ (mem_placed hk) name hc)
  · intro hlabels p hp name hc
    obtain ⟨k, hk⟩ := List.getElem?_of_mem hp
    rw [placed_getElem?] at hk
    obtain ⟨s, hs, rfl⟩ := Option.map_eq_some_iff.mp hk
    exact Nat.lt_of_le_of_ne (hfit.address_le horigin _ hp) (hlabels k s name hs hc)

theorem word_operand_of_assemble (hread : readSource file text = .ok ss)
    (h : assemble origin predefined ss = .ok image) {k : Nat} {s : Statement} (hk : ss[k]? = some s)
    {m : Mnemonic} {o : Operand} {name : String} (hc : s.content = .instruction m o)
    (ho : o.symbol? = some name) (hmode : (encodingMode m o).operandSize = 2) :
    ∃ n opcode operand, image.symbols.value? name = some n ∧
      (image.code.drop (addressAt 0 ss k)).take 3 = opcode :: operand ∧
      bytesNumber operand = n % addressLimit := by
  have hformed := readSource_formed hread
  obtain ⟨-, hencodes, rfl⟩ := (assemble_eq_ok hformed).mp h
  have hown : o.Formed := by simpa [hc, Content.Formed] using hformed s (List.mem_of_getElem? hk)
  obtain ⟨hsize, n, opcode, operand, hn, hbytes, hnumber⟩ :=
    Statement.Encodes.word (hencodes _ (mem_placed hk)) hown hc hmode ho
  refine ⟨n, opcode, operand, hn, ?_, hnumber⟩
  rw [← hsize, code_slice hk]
  exact hbytes

end

namespace Session

theorem start_eq_ok {origin : Int} {s : Session} (h : start origin = .ok s) :
    s.predefined = [] ∧ s.origin ≤ addressLimit := by
  unfold start at h
  split at h
  · rw [← Except.ok.inj h]
    refine ⟨rfl, ?_⟩
    simp only [addressLimit]
    omega
  · simp at h

theorem assembleText_eq_ok {s final : Session} {text : String} {code : List UInt8} :
    s.assembleText text = (.ok code, final) ↔ ∃ ss image, readSource mergedName text = .ok ss ∧
      Assembly.assemble s.origin s.predefined ss = .ok image ∧ image.code = code ∧
      final = { s with pc := s.origin + image.code.length, image } := by
  rw [assembleText_eq]
  cases readSource mergedName text with
  | error e => simp
  | ok ss => cases h : Assembly.assemble s.origin s.predefined ss <;> simp [h, eq_comm]

/-- The symbols of a unit that is assembled are words, unless a label stands at the end of the
address space. That label and its copies have the first address that is no word, and an operand
that names one of them loses its only bit; every other word operand holds the value of its
symbol. -/
theorem symbols_are_words_iff {origin : Int} {first final : Session}
    {defines : List (String × Int)} {text : String} {code : List UInt8}
    (hstart : start origin = .ok first)
    (h : (first.defineAll defines).assembleText text = (.ok code, final)) :
    ∃ ss, readSource mergedName text = .ok ss ∧
      (∀ x ∈ final.image.symbols, x.value ≤ addressLimit) ∧
      ((∀ x ∈ final.image.symbols, x.value < addressLimit) ↔
        ∀ k s name, ss[k]? = some s → s.content = .label name →
          addressAt first.origin ss k ≠ addressLimit) ∧
      ∀ k s m o name, ss[k]? = some s → s.content = .instruction m o → o.symbol? = some name →
        (encodingMode m o).operandSize = 2 →
        ∃ n opcode operand, final.image.symbols.value? name = some n ∧
          (code.drop (addressAt 0 ss k)).take 3 = opcode :: operand ∧
          (n < addressLimit → bytesNumber operand = n) ∧
          (n = addressLimit → bytesNumber operand = 0) := by
  obtain ⟨hempty, horigin⟩ := start_eq_ok hstart
  have hnone : first.predefined.Below addressLimit := by simp [hempty, Symbols.Below]
  obtain ⟨hsame, hpredefined⟩ := defineAll_below hnone defines
  obtain ⟨ss, image, hread, hassemble, rfl, rfl⟩ := assembleText_eq_ok.mp h
  rw [hsame] at hassemble
  refine ⟨ss, hread, ?_, symbols_below_iff_of_assemble hread hassemble horigin hpredefined, ?_⟩
  · have hbelow := symbols_le_of_assemble hread hassemble horigin hpredefined
    exact fun x hx => Nat.le_of_lt_succ (hbelow x hx)
  · intro k s m o name hk hc ho hmode
    obtain ⟨n, opcode, operand, hn, hslice, hnumber⟩ :=
      word_operand_of_assemble hread hassemble hk hc ho hmode
    refine ⟨n, opcode, operand, hn, hslice, fun hlow => ?_, fun hlimit => ?_⟩
    · rw [hnumber, Nat.mod_eq_of_lt hlow]
    · rw [hnumber, hlimit, Nat.mod_self]

def storeText : String := "JMP End\nEnd: STA VRAM"

def storeUnit : List Statement := [
  ⟨.instruction .jmp ⟨.direct, .symbol "End"⟩, { file := mergedName, line := 1 }, "JMP End"⟩,
  ⟨.label "End", { file := mergedName, line := 2 }, "End: STA VRAM"⟩,
  ⟨.instruction .sta ⟨.direct, .symbol "VRAM"⟩, { file := mergedName, line := 2 }, "End: STA VRAM"⟩]

theorem storeText_words : ∃ first final code, start 0x200 = .ok first ∧
    (first.defineAll [("VRAM", -0x8000)]).assembleText storeText = (.ok code, final) ∧
    (∀ x ∈ final.image.symbols, x.value ≤ addressLimit) ∧
    ∃ n opcode operand, final.image.symbols.value? "VRAM" = some n ∧
      (code.drop 3).take 3 = opcode :: operand ∧ (n < addressLimit → bytesNumber operand = n) := by
  have hread : readSource mergedName storeText = .ok storeUnit :=
    eq_ok_of_toOption (by decide +kernel)
  obtain ⟨image, himage⟩ : ∃ image,
      Assembly.assemble 0x200 [⟨"VRAM", 0x8000, .predefined⟩] storeUnit = .ok image :=
    exists_eq_ok_of_isSome (by decide +kernel)
  let first : Session := { origin := 0x200 }
  have hstart : start 0x200 = .ok first := rfl
  have h : (first.defineAll [("VRAM", -0x8000)]).assembleText storeText = (.ok image.code, _) :=
    assembleText_eq_ok.mpr ⟨storeUnit, image, hread, himage, rfl, rfl⟩
  obtain ⟨ss, hss, hle, -, hwords⟩ := symbols_are_words_iff hstart h
  obtain rfl : storeUnit = ss := Except.ok.inj (hread.symm.trans hss)
  obtain ⟨n, opcode, operand, hn, hslice, hkept, -⟩ := hwords 2 _ _ _ "VRAM" rfl rfl rfl rfl
  exact ⟨first, _, image.code, hstart, h, hle, n, opcode, operand, hn, hslice, hkept⟩

/-- A jump at the end of the memory: the label behind it is no word, and the jump goes to
address zero. -/
theorem endLabel_no_word : ∃ image, assembleSource 0xFFFD "JMP End\nEnd:" = .ok image ∧
    image.symbols.value? "End" = some 0x10000 ∧ image.code = [0x4C, 0, 0] ∧
    ¬∀ x ∈ image.symbols, x.value ≤ 0xFFFF := by
  have hrun : (assembleSource 0xFFFD "JMP End\nEnd:").toOption.map
      (fun i => (i.symbols.value? "End", i.code)) = some (some 0x10000, [0x4C, 0, 0]) := by
    decide +kernel
  obtain ⟨image, himage, hpair⟩ := Option.map_eq_some_iff.mp hrun
  obtain ⟨hvalue, hcode⟩ := Prod.mk.inj hpair
  refine ⟨image, eq_ok_of_toOption himage, hvalue, hcode, fun hall => ?_⟩
  obtain ⟨x, hx, hlimit⟩ := Option.map_eq_some_iff.mp hvalue
  have hword := hall x (List.mem_of_find?_eq_some hx)
  omega

end Session

end Toolchain6502.Assembly
