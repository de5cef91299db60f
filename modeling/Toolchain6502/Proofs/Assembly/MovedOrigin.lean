import Mathlib.Data.List.Forall2
import Mathlib.Data.List.Pairwise
import Toolchain6502.Proofs.Assembly.Acceptance
import Toolchain6502.Proofs.Assembly.ByteLines

namespace Toolchain6502.Assembly

open Cpu

variable {predefined t u : Symbols} {origin : Nat} {ss : List Statement} {s : Statement}

/-- A name moves with the origin: it is a label, or a constant that copies such a name. -/
inductive Moves (ss : List Statement) : String → Prop
  | label {s : Statement} {name : String} (hs : s ∈ ss) (hc : s.content = .label name) :
    Moves ss name
  | copy {s : Statement} {name source : String} (hs : s ∈ ss)
    (hc : s.content = .constant name (.copy source)) (hsource : Moves ss source) : Moves ss name

structure Symbol.Moved (moves : String → Prop) (distance : Int) (x y : Symbol) : Prop where
  name : y.name = x.name
  definition : y.definition = x.definition
  moved : moves x.name → (y.value : Int) = x.value + distance
  kept : ¬moves x.name → y.value = x.value

theorem AllFit.fresh (h : AllFit predefined origin ss) (hs : s ∈ ss) {name : String}
    (hdefines : s.defines? = some name) : name ∉ predefined.names := by
  obtain ⟨k, hk⟩ := List.getElem?_of_mem hs
  exact fun hknown =>
    fits_iff.mp (allFit_iff.mp h k s hk) (.redefined name hdefines (.inl hknown))

/-- No two statements define one name. -/
theorem AllFit.eq_of_defines (h : AllFit predefined origin ss) {r : Statement} (hs : s ∈ ss)
    (hr : r ∈ ss) {name : String} (hsname : s.defines? = some name)
    (hrname : r.defines? = some name) : s = r := by
  have hdistinct := h.distinct
  rw [definedNames, List.Nodup, List.pairwise_filterMap] at hdistinct
  by_contra hne
  have : Std.Symm fun a b : Statement => ∀ n ∈ a.defines?, ∀ n' ∈ b.defines?, n ≠ n' :=
    ⟨fun a b hab n hn n' hn' => (hab n' hn' n hn).symm⟩
  exact hdistinct.forall hs hr hne name hsname name hrname rfl

section

variable {predefined : Symbols} {origin : Nat} {ss : List Statement} {s : Statement}
  {name source : String}

theorem Moves.definer (h : Moves ss name) :
    ∃ r ∈ ss, r.defines? = some name ∧ (r.content = .label name ∨
      ∃ source, r.content = .constant name (.copy source) ∧ Moves ss source) := by
  cases h with
  | label hs hc => exact ⟨_, hs, by simp [Statement.defines?, hc], .inl hc⟩
  | copy hs hc hsource => exact ⟨_, hs, by simp [Statement.defines?, hc], .inr ⟨_, hc, hsource⟩⟩

theorem AllFit.not_moves_predefined (h : AllFit predefined origin ss)
    (hname : name ∈ predefined.names) : ¬Moves ss name := by
  intro hmoves
  obtain ⟨r, hr, hdefines, -⟩ := hmoves.definer
  exact h.fresh hr hdefines hname

theorem AllFit.not_moves_number (h : AllFit predefined origin ss) (hs : s ∈ ss) {n : Nat}
    (hc : s.content = .constant name (.number n)) : ¬Moves ss name := by
  intro hmoves
  obtain ⟨r, hr, hdefines, hmoving⟩ := hmoves.definer
  obtain rfl := h.eq_of_defines hs hr (by simp [Statement.defines?, hc]) hdefines
  simp [hc] at hmoving

theorem AllFit.moves_copy_iff (h : AllFit predefined origin ss) (hs : s ∈ ss)
    (hc : s.content = .constant name (.copy source)) : Moves ss name ↔ Moves ss source := by
  constructor
  · intro hmoves
    obtain ⟨r, hr, hdefines, hmoving⟩ := hmoves.definer
    obtain rfl := h.eq_of_defines hs hr (by simp [Statement.defines?, hc]) hdefines
    rcases hmoving with hlabel | ⟨source', hc', hsource⟩
    · simp [hc] at hlabel
    · rw [hc] at hc'
      obtain ⟨-, hvalue⟩ := Content.constant.inj hc'
      rwa [ConstantValue.copy.inj hvalue]
  · exact Moves.copy hs hc

end

section

variable {moves : String → Prop} {distance : Int} {t u : Symbols}

theorem find?_moved (h : List.Forall₂ (Symbol.Moved moves distance) t u) (name : String) :
    (t.find? name = none ∧ u.find? name = none) ∨
      ∃ x y, t.find? name = some x ∧ u.find? name = some y ∧ x.Moved moves distance y := by
  induction h with
  | nil => exact .inl ⟨rfl, rfl⟩
  | @cons x y t u hxy _ ih =>
    by_cases hname : x.name = name
    · have hname' : y.name = name := hxy.name.trans hname
      exact .inr ⟨x, y, by simp [Symbols.find?, hname], by simp [Symbols.find?, hname'], hxy⟩
    · have hname' : y.name ≠ name := fun hy => hname (hxy.name.symm.trans hy)
      simpa [Symbols.find?, hname, hname'] using ih

theorem value?_moved (h : List.Forall₂ (Symbol.Moved moves distance) t u) {name : String}
    {n : Nat} (hn : t.value? name = some n) :
    ∃ n', u.value? name = some n' ∧ (moves name → (n' : Int) = n + distance) ∧
      (¬moves name → n' = n) := by
  rcases find?_moved h name with ⟨hnone, -⟩ | ⟨x, y, hx, hy, hxy⟩
  · simp [Symbols.value?, hnone] at hn
  · have hname : x.name = name := by simpa using List.find?_some hx
    obtain rfl : x.value = n := by simpa [Symbols.value?, hx] using hn
    exact ⟨y.value, by simp [Symbols.value?, hy], hname ▸ hxy.moved, hname ▸ hxy.kept⟩

end

/-- What a statement adds to the table moves with its name. -/
theorem entries_moved (hunit : AllFit predefined origin ss) (hs : s ∈ ss) {distance : Int}
    (h : List.Forall₂ (Symbol.Moved (Moves ss) distance) t u) {a b : Nat} (hfits : s.Fits t a)
    (hb : (b : Int) = a + distance) :
    List.Forall₂ (Symbol.Moved (Moves ss) distance) (s.entries t a) (s.entries u b) := by
  unfold Statement.entries Statement.Fits at *
  match hc : s.content with
  | .label name =>
    have hmoves : Moves ss name := .label hs hc
    exact .cons ⟨rfl, rfl, fun _ => hb, fun hfixed => absurd hmoves hfixed⟩ .nil
  | .constant name (.number n) =>
    have hfixed := hunit.not_moves_number hs hc
    exact .cons ⟨rfl, rfl, fun hmoves => absurd hmoves hfixed, fun _ => rfl⟩ .nil
  | .constant name (.copy source) =>
    simp only [hc] at hfits
    have hcopy := hunit.moves_copy_iff hs hc
    obtain ⟨x, hx⟩ := Option.isSome_iff_exists.mp hfits.1
    have hvalue : t.value? source = some x.value := by simp [Symbols.value?, hx]
    obtain ⟨n, hn, hmoved, hkept⟩ := value?_moved h hvalue
    simp only [hvalue, hn, Option.getD_some]
    exact .cons ⟨rfl, rfl, fun hmoves => hmoved (hcopy.mp hmoves),
      fun hfixed => hkept fun hmoves => hfixed (hcopy.mpr hmoves)⟩ .nil
  | .instruction m o => exact .nil

/-- Two layouts of the same statements, each from its own table on. -/
theorem tableAfter_moved (hunit : AllFit predefined origin ss) {distance : Int}
    {rest : List Statement} (hrest : rest ⊆ ss)
    (h : List.Forall₂ (Symbol.Moved (Moves ss) distance) t u) {a b : Nat} (hfits : AllFit t a rest)
    (hb : (b : Int) = a + distance) :
    List.Forall₂ (Symbol.Moved (Moves ss) distance) (tableAfter t a rest) (tableAfter u b rest) := by
  induction rest generalizing t u a b with
  | nil => exact h
  | cons s rest ih =>
    obtain ⟨hs, hrest⟩ := List.cons_subset.mp hrest
    have hentries := entries_moved hunit hs h hfits.1 hb
    exact ih hrest (List.rel_append h hentries) hfits.2 (by omega)

/-- The whole table at another origin. The predefined symbols are the same in both. -/
theorem table_moved {o₁ : Nat} (hunit : AllFit predefined o₁ ss) (o₂ : Nat) :
    List.Forall₂ (Symbol.Moved (Moves ss) (o₂ - o₁)) (tableAfter predefined o₁ ss)
      (tableAfter predefined o₂ ss) := by
  have hpredefined : List.Forall₂ (Symbol.Moved (Moves ss) (o₂ - o₁)) predefined predefined := by
    refine List.forall₂_same.mpr fun x hx => ?_
    have hfixed : ¬Moves ss x.name := hunit.not_moves_predefined (List.mem_map_of_mem hx)
    exact ⟨rfl, rfl, fun hmoves => absurd hmoves hfixed, fun _ => rfl⟩
  exact tableAfter_moved hunit (List.Subset.refl ss) hpredefined hunit (by omega)

theorem mode_relative_iff {m : Mnemonic} {o : Operand} {opcode : Opcode}
    (h : encoding? m o = some opcode) : opcode.mode = .relative ↔ m.isBranch = true := by
  have hall : ∀ opcode ∈ m.opcodes, opcode.mode = .relative ↔ m.isBranch = true := by
    cases m <;> decide
  exact hall opcode (List.mem_of_find?_eq_some h)

/-- A branch leads to a name that moves, and another instruction has a name that stays. -/
def Statement.Rigid (moves : String → Prop) (s : Statement) : Prop :=
  ∀ m o name, s.content = .instruction m o → o.symbol? = some name → (m.isBranch = true ↔ moves name)

/-- A rigid statement has the same bytes in both layouts. -/
theorem Statement.bytes_moved {moves : String → Prop} {distance : Int}
    (h : List.Forall₂ (Symbol.Moved moves distance) t u) {a b : Nat} (hformed : s.content.Formed)
    (hencodes : s.Encodes t a) (hb : (b : Int) = a + distance) (hrigid : s.Rigid moves) :
    s.bytes t a = s.bytes u b := by
  refine Statement.bytes_congr fun m o opcode hc hopcode => ?_
  simp only [Statement.Encodes, hc, hopcode, Option.some.injEq, exists_eq_left'] at hencodes
  cases hsymbol : o.symbol? with
  | none =>
    have hvalue : o.term.value t = o.term.value u :=
      Operand.value_congr fun name hname => by simp [hsymbol] at hname
    simp [Operand.carried, hsymbol, hvalue]
  | some name =>
    obtain ⟨n, hn⟩ := Option.isSome_iff_exists.mp (hencodes.resolves name hsymbol)
    obtain ⟨n', hn', hmoved, hkept⟩ := value?_moved h hn
    by_cases hbranch : m.isBranch = true
    · have hmode := (mode_relative_iff hopcode).mpr hbranch
      have hterm : o.term = .symbol name := by
        have hsuits : o.Suits opcode.mode :=
          encoding?_mode hopcode ▸ Operand.Formed.suits (by simpa [hc, Content.Formed] using hformed) m
        cases hterm : o.term with
        | number n => simp [Operand.symbol?, hterm] at hsymbol
        | minus n => simp [Operand.symbol?, hterm] at hsymbol
        | symbol other => simpa [Operand.symbol?, hterm] using hsymbol
        | half half other => exact absurd (hsuits.half half other hterm) (by simp [hmode])
      have hdistance := hmoved ((hrigid m o name hc hsymbol).mp hbranch)
      simp only [Operand.carried, hmode, hsymbol, hterm, Term.value, hn, hn', Option.isSome_some,
        and_self, if_true, Option.getD_some]
      omega
    · have hmode : opcode.mode ≠ .relative := fun hmode => hbranch ((mode_relative_iff hopcode).mp hmode)
      have hfixed : ¬moves name := fun hmoves => hbranch ((hrigid m o name hc hsymbol).mpr hmoves)
      have hvalue : o.term.value t = o.term.value u := by
        refine Operand.value_congr fun other hother => ?_
        obtain rfl : name = other := Option.some.inj (hsymbol.symm.trans hother)
        rw [hn, hn', hkept hfixed]
      simp only [Operand.carried, hmode, false_and, if_false, hvalue]

theorem addressAt_eq_add (origin : Nat) (ss : List Statement) (k : Nat) :
    addressAt origin ss k = origin + addressAt 0 ss k := by
  simp [addressAt]

theorem Statement.bytes_zero (t u : Symbols) (a b : Nat) (s : Statement) :
    (s.bytes t a)[0]? = (s.bytes u b)[0]? := by
  unfold Statement.bytes
  split
  · split <;> rfl
  · rfl

/-- The bytes of a statement are found at the same offset in every layout. -/
theorem code_at_statement {k j : Nat} (hk : ss[k]? = some s) (hj : j < s.size) (t : Symbols)
    (origin : Nat) :
    (Image.ofRows t ((placed origin ss).filterMap fun p => p.2.row? t p.1)).code[addressAt 0 ss k + j]? =
      (s.bytes t (addressAt origin ss k))[j]? := by
  rw [code_of_rows]
  refine flatMap_placed_getElem? (fun p => p.2.bytes_length t p.1) hk hj ?_
  rw [addressAt_eq_add origin]
  omega

/-- Where two layouts of a unit differ there is an operand that tells them apart. -/
theorem exists_operand_of_code_ne {o₁ o₂ i : Nat} {moves : String → Prop}
    (hsame : ∀ (k : Nat) (s : Statement), ss[k]? = some s →
      s.Rigid moves → s.bytes t (addressAt o₁ ss k) = s.bytes u (addressAt o₂ ss k))
    (hne : (Image.ofRows t ((placed o₁ ss).filterMap fun p => p.2.row? t p.1)).code[i]? ≠
      (Image.ofRows u ((placed o₂ ss).filterMap fun p => p.2.row? u p.1)).code[i]?) :
    ∃ (k j : Nat) (s : Statement) (m : Mnemonic) (o : Operand) (name : String),
      ss[k]? = some s ∧ s.content = .instruction m o ∧ o.symbol? = some name ∧
        i = addressAt 0 ss k + j ∧ 1 ≤ j ∧ j < s.size ∧ (m.isBranch = true ↔ ¬moves name) := by
  have hi : i < (ss.map Statement.size).sum := by
    by_contra hpast
    apply hne
    rw [code_of_rows, code_of_rows, List.getElem?_eq_none, List.getElem?_eq_none]
    · rw [length_flatMap_placed fun p => p.2.bytes_length u p.1]
      omega
    · rw [length_flatMap_placed fun p => p.2.bytes_length t p.1]
      omega
  obtain ⟨k, s, j, hk, hj, hplace⟩ := exists_statement_at 0 hi
  rw [Nat.zero_add] at hplace
  subst hplace
  rw [code_at_statement hk hj, code_at_statement hk hj] at hne
  by_contra hnone
  apply hne
  have hoperand : j ≠ 0 := by
    rintro rfl
    exact hne (s.bytes_zero t u _ _)
  rw [hsame k s hk]
  intro m o name hc hsymbol
  by_contra hdiffers
  exact hnone ⟨k, j, s, m, o, name, hk, hc, hsymbol, rfl, by omega, hj, by tauto⟩

/-- A unit at another origin is the same unit moved. The code differs at most in operands: of a
branch, if its name stays where it is, and of any other instruction, if its name moves. -/
theorem assemble_moved {file text : String} {ss : List Statement}
    (hread : readSource file text = .ok ss) {predefined : Symbols} {o₁ o₂ : Nat} {i₁ i₂ : Image}
    (h₁ : assemble o₁ predefined ss = .ok i₁) (h₂ : assemble o₂ predefined ss = .ok i₂) :
    i₁.code.length = i₂.code.length ∧ i₁.lineMap = i₂.lineMap ∧
    i₁.symbols.names = i₂.symbols.names ∧
    (∀ name, Moves ss name → ∃ n₁ n₂, i₁.symbols.value? name = some n₁ ∧
      i₂.symbols.value? name = some n₂ ∧ (n₂ : Int) - n₁ = (o₂ : Int) - o₁) ∧
    (∀ name, ¬Moves ss name → i₁.symbols.value? name = i₂.symbols.value? name) ∧
    (∀ i, i₁.code[i]? ≠ i₂.code[i]? → ∃ (k j : Nat) (s : Statement) (m : Mnemonic) (o : Operand)
      (name : String), ss[k]? = some s ∧ s.content = .instruction m o ∧ o.symbol? = some name ∧
        i = addressAt 0 ss k + j ∧ 1 ≤ j ∧ j < s.size ∧ (m.isBranch = true ↔ ¬Moves ss name)) ∧
    (∀ (k : Nat) (s : Statement) (m : Mnemonic) (o : Operand) (name : String), ss[k]? = some s →
      s.content = .instruction m o → m.isBranch = true → o.symbol? = some name → Moves ss name →
        ∀ j < s.size, i₁.code[addressAt 0 ss k + j]? = i₂.code[addressAt 0 ss k + j]?) := by
  have hformed := readSource_formed hread
  obtain ⟨hunit, hencodes, rfl⟩ := (assemble_eq_ok hformed).mp h₁
  obtain ⟨-, -, rfl⟩ := (assemble_eq_ok hformed).mp h₂
  have htable := table_moved hunit o₂
  have hnames := (tableAfter_names predefined o₁ ss).trans (tableAfter_names predefined o₂ ss).symm
  have hbytes (k : Nat) (s : Statement) (hk : ss[k]? = some s)
      (hrigid : s.Rigid (Moves ss)) :
      s.bytes (tableAfter predefined o₁ ss) (addressAt o₁ ss k) =
        s.bytes (tableAfter predefined o₂ ss) (addressAt o₂ ss k) := by
    have hplaced : (addressAt o₁ ss k, s) ∈ placed o₁ ss :=
      List.mem_of_getElem? (by rw [placed_getElem?, hk]; rfl)
    refine Statement.bytes_moved htable (hformed s (List.mem_of_getElem? hk))
      (hencodes _ hplaced) ?_ hrigid
    rw [addressAt_eq_add o₁, addressAt_eq_add o₂]
    omega
  refine ⟨?_, ?_, hnames, ?_, ?_, fun i hne => exists_operand_of_code_ne hbytes hne, ?_⟩
  · rw [code_of_rows, code_of_rows, length_flatMap_placed fun p => p.2.bytes_length _ p.1,
      length_flatMap_placed fun p => p.2.bytes_length _ p.1]
  · have hlines := flatMap_placed fun s => List.replicate s.size s.location.line
    rw [lineMap_of_rows, lineMap_of_rows, hlines, hlines]
  · intro name hmoves
    obtain ⟨r, hr, hdefines, -⟩ := hmoves.definer
    have hknown : name ∈ (tableAfter predefined o₁ ss).names := by
      rw [tableAfter_names]
      exact List.mem_append_right _ (mem_definedNames hr hdefines)
    obtain ⟨n₁, hn₁⟩ := Option.ne_none_iff_exists'.mp fun hnone => value?_eq_none_iff.mp hnone hknown
    obtain ⟨n₂, hn₂, hmoved, -⟩ := value?_moved htable hn₁
    have hdistance := hmoved hmoves
    exact ⟨n₁, n₂, hn₁, hn₂, by omega⟩
  · intro name hfixed
    simp only [Image.symbols_ofRows]
    cases hn₁ : (tableAfter predefined o₁ ss).value? name with
    | none =>
      rw [value?_eq_none_iff, hnames] at hn₁
      exact (value?_eq_none_iff.mpr hn₁).symm
    | some n =>
      obtain ⟨n₂, hn₂, -, hkept⟩ := value?_moved htable hn₁
      rw [hn₂, hkept hfixed]
  · intro k s m o name hk hc hbranch hsymbol hmoves j hj
    rw [code_at_statement hk hj, code_at_statement hk hj, hbytes k s hk]
    intro m' o' name' hc' hsymbol'
    obtain ⟨rfl, rfl⟩ := Content.instruction.inj (hc.symm.trans hc')
    obtain rfl := Option.some.inj (hsymbol.symm.trans hsymbol')
    exact iff_of_true hbranch hmoves

/-- The branch to a label is the same at both origins, and the jump through a copy of a label is
moved with it. -/
theorem forwardUnit_moved :
    ∃ i₁ i₂, assemble 0x200 [] forwardUnit = .ok i₁ ∧ assemble 0x3A0 [] forwardUnit = .ok i₂ ∧
      i₁.code[1]? = i₂.code[1]? ∧ i₁.code[4]? ≠ i₂.code[4]? ∧
      ∃ n₁ n₂, i₁.symbols.value? "K" = some n₁ ∧ i₂.symbols.value? "K" = some n₂ ∧
        (n₂ : Int) - n₁ = 0x1A0 := by
  have hread : readSource "m" forwardText = .ok forwardUnit := eq_ok_of_toOption (by decide +kernel)
  obtain ⟨i₁, h₁⟩ : ∃ i, assemble 0x200 [] forwardUnit = .ok i :=
    exists_eq_ok_of_isSome (by decide +kernel)
  obtain ⟨i₂, h₂⟩ : ∃ i, assemble 0x3A0 [] forwardUnit = .ok i :=
    exists_eq_ok_of_isSome (by decide +kernel)
  obtain ⟨-, -, -, hmoves, -, -, hbranch⟩ := assemble_moved hread h₁ h₂
  have hlabels : Moves forwardUnit "S" ∧ Moves forwardUnit "E" :=
    ⟨.label (List.mem_of_getElem? (i := 0) rfl) rfl, .label (List.mem_of_getElem? (i := 3) rfl) rfl⟩
  have hcopy : Moves forwardUnit "K" := .copy (List.mem_of_getElem? (i := 2) rfl) rfl hlabels.1
  have hdiffers : ((assemble 0x200 [] forwardUnit).toOption.bind (·.code[4]?)) ≠
      (assemble 0x3A0 [] forwardUnit).toOption.bind (·.code[4]?) := by decide +kernel
  rw [h₁, h₂] at hdiffers
  exact ⟨i₁, i₂, h₁, h₂, hbranch 1 _ _ _ "E" rfl rfl rfl rfl hlabels.2 1 (by decide), hdiffers,
    hmoves "K" hcopy⟩

end Toolchain6502.Assembly
