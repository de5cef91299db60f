import Mathlib.Algebra.GroupWithZero.Nat
import Toolchain6502.Proofs.Assembly.OperandForms
import Toolchain6502.Proofs.Assembly.Walks

namespace Toolchain6502.Assembly

open Cpu

variable {ss : List Statement} {s : Statement} {t : Symbols} {o : Operand} {a : Nat} {name : String}

def Symbols.value? (t : Symbols) (name : String) : Option Nat := (t.find? name).map Symbol.value

def addressAt (origin : Nat) (ss : List Statement) (k : Nat) : Nat :=
  origin + ((ss.take k).map Statement.size).sum

def placed (origin : Nat) (ss : List Statement) : List (Nat × Statement) :=
  ss.zipIdx.map fun p => (addressAt origin ss p.2, p.1)

def Term.value (t : Symbols) : Term → Int
  | .number n => n
  | .minus n => -n
  | .symbol name => (t.value? name).getD 0
  | .half .low name => (t.value? name).getD 0 % 0x100
  | .half .high name => (t.value? name).getD 0 / 0x100

/-- The number that an instruction carries. A branch to a symbol carries the way from its end. -/
def Operand.carried (o : Operand) (t : Symbols) (next : Nat) (mode : Mode) : Int :=
  if mode = .relative ∧ o.symbol?.isSome then o.term.value t - next else o.term.value t

def littleEndian : Nat → Int → List UInt8
  | 0, _ => []
  | size + 1, n => byteOf n :: littleEndian size (n / 0x100)

def Statement.bytes (t : Symbols) (address : Nat) (s : Statement) : List UInt8 :=
  match s.content with
  | .instruction m o =>
    match encoding? m o with
    | some opcode => opcode.code ::
        littleEndian opcode.mode.operandSize (o.carried t (address + opcode.size) opcode.mode)
    | none => []
  | _ => []

theorem addressAt_zero (origin : Nat) (ss : List Statement) : addressAt origin ss 0 = origin := by
  simp [addressAt]

theorem addressAt_cons (origin : Nat) (s : Statement) (ss : List Statement) (k : Nat) :
    addressAt origin (s :: ss) (k + 1) = addressAt (origin + s.size) ss k := by
  simp [addressAt, Nat.add_assoc]

theorem addressAt_succ {origin : Nat} {k : Nat} (hk : ss[k]? = some s) :
    addressAt origin ss (k + 1) = addressAt origin ss k + s.size := by
  simp [addressAt, List.take_add_one, hk, Nat.add_assoc]

@[simp] theorem placed_nil (origin : Nat) : placed origin [] = [] := rfl

@[simp] theorem placed_cons (origin : Nat) (s : Statement) (ss : List Statement) :
    placed origin (s :: ss) = (origin, s) :: placed (origin + s.size) ss := by
  simp only [placed, List.zipIdx_cons, List.map_cons, addressAt_zero, Nat.zero_add]
  rw [List.zipIdx_succ, List.map_map]
  simp only [Function.comp_def, addressAt_cons]

theorem placed_getElem? (origin : Nat) (ss : List Statement) (k : Nat) :
    (placed origin ss)[k]? = ss[k]?.map fun s => (addressAt origin ss k, s) := by
  simp [placed, Function.comp_def]

theorem littleEndian_length (size : Nat) (n : Int) : (littleEndian size n).length = size := by
  induction size generalizing n with
  | zero => rfl
  | succ size ih => simp [littleEndian, ih]

theorem Statement.bytes_length (t : Symbols) (address : Nat) (s : Statement) :
    (s.bytes t address).length = s.size := by
  unfold Statement.bytes Statement.size
  cases s.content with
  | label | constant => rfl
  | instruction m o =>
    dsimp only
    cases encoding? m o with
    | none => rfl
    | some opcode => simp [littleEndian_length, Opcode.size, Nat.add_comm]

/-- A term depends on a table only by the value of its own symbol. -/
theorem Operand.value_congr {u : Symbols}
    (h : ∀ name, o.symbol? = some name → t.value? name = u.value? name) :
    o.term.value t = o.term.value u := by
  cases hterm : o.term with
  | number n => rfl
  | minus n => rfl
  | symbol name =>
    have hname : t.value? name = u.value? name := h name (by simp [Operand.symbol?, hterm])
    simp only [Term.value, hname]
  | half half name =>
    have hname : t.value? name = u.value? name := h name (by simp [Operand.symbol?, hterm])
    cases half <;> simp only [Term.value, hname]

/-- The bytes of a statement are told by the number that it carries. -/
theorem Statement.bytes_congr {u : Symbols} {b : Nat}
    (h : ∀ m o opcode, s.content = .instruction m o → encoding? m o = some opcode →
      o.carried t (a + opcode.size) opcode.mode = o.carried u (b + opcode.size) opcode.mode) :
    s.bytes t a = s.bytes u b := by
  unfold Statement.bytes
  split
  · rename_i m o hc
    split
    · rename_i opcode hopcode
      rw [h m o opcode hc hopcode]
    · rfl
  · rfl

def Statement.entries (t : Symbols) (address : Nat) (s : Statement) : Symbols :=
  match s.content with
  | .label name => [⟨name, address, .label s.location⟩]
  | .constant name (.number n) => [⟨name, n, .constant s.location⟩]
  | .constant name (.copy source) =>
    [⟨name, (t.value? source).getD 0, .constant s.location⟩]
  | .instruction _ _ => []

def Statement.Fits (t : Symbols) (address : Nat) (s : Statement) : Prop :=
  match s.content with
  | .label name => t.find? name = none
  | .constant name (.number _) => t.find? name = none
  | .constant name (.copy source) => (t.find? source).isSome ∧ t.find? name = none
  | .instruction m o => (encoding? m o).isSome ∧ address + s.size ≤ addressLimit

theorem define_eq_ok {t' : Symbols} {value : Nat} {d : Definition} :
    define t s name value d = .ok t' ↔
      t.find? name = none ∧ t' = t ++ [⟨name, value, d⟩] := by
  unfold define
  cases h : t.find? name with
  | none => simp [eq_comm]
  | some first => simp

theorem lookup_eq_ok {value : Nat} : lookup t s name = .ok value ↔ t.value? name = some value := by
  unfold lookup Symbols.value?
  cases h : t.find? name <;> simp

/-- One step of the first walk: everything a statement can do to the table and the address. -/
theorem layStatement_eq_ok {t' : Symbols} {a' : Nat} :
    layStatement t a s = .ok (t', a') ↔
      s.Fits t a ∧ t' = t ++ s.entries t a ∧ a' = a + s.size := by
  unfold layStatement Statement.Fits Statement.entries Statement.size
  match hc : s.content with
  | .label name => simp [bind_eq_ok, define_eq_ok]; grind
  | .constant name (.number n) => simp [bind_eq_ok, define_eq_ok, constantValue]; grind
  | .constant name (.copy source) =>
    simp only [constantValue, bind_eq_ok, lookup_eq_ok, define_eq_ok, pure_eq_ok]
    cases hs : t.find? source with
    | none => simp [Symbols.value?, hs]
    | some x => simp [Symbols.value?, hs]; grind
  | .instruction m o =>
    simp only [bind_eq_ok, encode_eq_ok]
    cases he : encoding? m o with
    | none => simp
    | some opcode => simp; split <;> grind

/-- The table after some statements, if none of them is at fault. -/
def tableAfter (t : Symbols) (address : Nat) : List Statement → Symbols
  | [] => t
  | s :: rest => tableAfter (t ++ s.entries t address) (address + s.size) rest

/-- Every statement fits behind those before it. -/
def AllFit (t : Symbols) (address : Nat) : List Statement → Prop
  | [] => True
  | s :: rest =>
    s.Fits t address ∧ AllFit (t ++ s.entries t address) (address + s.size) rest

theorem layOut_eq_ok {t' : Symbols} :
    layOut t a ss = .ok t' ↔ AllFit t a ss ∧ t' = tableAfter t a ss := by
  induction ss generalizing t a with
  | nil => simp [layOut, AllFit, tableAfter, eq_comm]
  | cons s rest ih =>
    simp only [layOut, bind_eq_ok, AllFit, tableAfter]
    constructor
    · rintro ⟨⟨t₁, a₁⟩, hs, hrest⟩
      obtain ⟨hfit, rfl, rfl⟩ := layStatement_eq_ok.mp hs
      obtain ⟨hfits, ht'⟩ := ih.mp hrest
      exact ⟨⟨hfit, hfits⟩, ht'⟩
    · rintro ⟨⟨hfit, hfits⟩, ht'⟩
      exact ⟨_, layStatement_eq_ok.mpr ⟨hfit, rfl, rfl⟩, ih.mpr ⟨hfits, ht'⟩⟩

theorem find?_append_of_some {u : Symbols} {x : Symbol} (h : t.find? name = some x) :
    Symbols.find? (t ++ u) name = some x := by
  simp only [Symbols.find?] at h ⊢
  rw [List.find?_append, h]
  rfl

/-- Later statements never change a symbol. -/
theorem find?_tableAfter {x : Symbol} (h : t.find? name = some x) :
    (tableAfter t a ss).find? name = some x := by
  induction ss generalizing t a with
  | nil => exact h
  | cons s rest ih => exact ih (find?_append_of_some h)

theorem value?_tableAfter {n : Nat} (h : t.value? name = some n) :
    (tableAfter t a ss).value? name = some n := by
  obtain ⟨x, hx, rfl⟩ := Option.map_eq_some_iff.mp h
  exact Option.map_eq_some_iff.mpr ⟨x, find?_tableAfter hx, rfl⟩

/-- What a statement binds in a table: a label its address, a constant its literal or the value
of the symbol it copies. -/
def Statement.Bound (t : Symbols) (address : Nat) (s : Statement) : Prop :=
  match s.content with
  | .label name => t.value? name = some address
  | .constant name (.number n) => t.value? name = some n
  | .constant name (.copy source) => ∃ n, t.value? source = some n ∧ t.value? name = some n
  | .instruction _ _ => True

theorem value?_append_fresh {n : Nat} {d : Definition} (h : t.find? name = none) :
    Symbols.value? (t ++ [⟨name, n, d⟩]) name = some n := by
  simp only [Symbols.value?, Symbols.find?] at h ⊢
  rw [List.find?_append, h]
  simp

theorem Statement.bound_of_fits (h : s.Fits t a) : s.Bound (t ++ s.entries t a) a := by
  unfold Statement.Fits at h
  unfold Statement.Bound Statement.entries
  match hc : s.content with
  | .label name => simp only [hc] at h ⊢; exact value?_append_fresh h
  | .constant name (.number n) => simp only [hc] at h ⊢; exact value?_append_fresh h
  | .constant name (.copy source) =>
    simp only [hc] at h ⊢
    obtain ⟨x, hx⟩ := Option.isSome_iff_exists.mp h.1
    have hv : t.value? source = some x.value := by simp [Symbols.value?, hx]
    refine ⟨x.value, ?_, ?_⟩
    · simp only [Symbols.value?]
      rw [find?_append_of_some hx]
      rfl
    · rw [hv]
      exact value?_append_fresh h.2
  | .instruction m o => trivial

theorem Statement.Bound.tableAfter {b : Nat} (h : s.Bound t a) : s.Bound (tableAfter t b ss) a := by
  unfold Statement.Bound at h ⊢
  match hc : s.content with
  | .label name => simp only [hc] at h ⊢; exact value?_tableAfter h
  | .constant name (.number n) => simp only [hc] at h ⊢; exact value?_tableAfter h
  | .constant name (.copy source) =>
    simp only [hc] at h ⊢
    obtain ⟨n, hsource, hname⟩ := h
    exact ⟨n, value?_tableAfter hsource, value?_tableAfter hname⟩
  | .instruction m o => trivial

theorem bound_of_allFit (h : AllFit t a ss) :
    ∀ p ∈ placed a ss, p.2.Bound (tableAfter t a ss) p.1 := by
  induction ss generalizing t a with
  | nil => simp
  | cons s rest ih =>
    intro p hp
    rw [placed_cons] at hp
    rcases List.mem_cons.mp hp with rfl | hp
    · exact (Statement.bound_of_fits h.1).tableAfter
    · exact ih h.2 p hp

/-- The one-byte addresses: the zero page and the pointers in it. -/
def pageZeroModes : List Mode := [
  .zeroPage, .zeroPageX, .zeroPageY, .indexedIndirect, .indirectIndexed]

def Operand.Resolves (t : Symbols) (o : Operand) : Prop :=
  ∀ name, o.symbol? = some name → (t.value? name).isSome

/-- A symbol in a zero-page, pointer or plain immediate place is a byte. -/
def Operand.Narrow (t : Symbols) (mode : Mode) (o : Operand) : Prop :=
  ∀ name,
    mode ∈ pageZeroModes ∧ o.symbol? = some name ∨ mode = .immediate ∧ o.term = .symbol name →
      ∀ n, t.value? name = some n → n ≤ 0xFF

/-- A branch reaches its symbol, and a negative displacement fits in a byte. -/
def Operand.Reaches (t : Symbols) (next : Nat) (mode : Mode) (o : Operand) : Prop :=
  mode = .relative →
    (∀ name, o.symbol? = some name → ∀ n, t.value? name = some n →
      -128 ≤ (n : Int) - next ∧ (n : Int) - next ≤ 127) ∧
    ∀ n, o.term = .minus n → n ≤ 128

structure Operand.Encodes (t : Symbols) (next : Nat) (mode : Mode) (o : Operand) : Prop where
  resolves : o.Resolves t
  narrow : o.Narrow t mode
  reaches : o.Reaches t next mode

theorem encoding?_mode {m : Mnemonic} {opcode : Opcode} (h : encoding? m o = some opcode) :
    opcode.mode = encodingMode m o := by
  simpa using List.find?_some h

/-- A term that suits a mode: the modes without an operand carry none, one byte of a symbol is an
immediate, and a minus sign makes a byte. -/
structure Operand.Suits (o : Operand) (mode : Mode) : Prop where
  bare : mode = .implied ∨ mode = .accumulator → o.term = .number 0
  half : ∀ half name, o.term = .half half name → mode = .immediate
  minus : ∀ n, o.term = .minus n → mode = .immediate ∨ mode = .relative ∨ mode ∈ pageZeroModes

theorem directMode_cases (m : Mnemonic) (named : Bool) :
    directMode m named = .relative ∨ named = true ∧ directMode m named = .absolute ∨
      directMode m named = .zeroPage := by
  unfold directMode
  split
  · exact .inl rfl
  · split <;> simp_all

theorem Operand.Formed.suits (h : o.Formed) (m : Mnemonic) : o.Suits (encodingMode m o) := by
  refine ⟨?_, ?_, ?_⟩
  · intro hmode
    apply h.bare
    unfold encodingMode at hmode
    split at hmode
    · rcases directMode_cases m o.symbol?.isSome with hd | ⟨-, hd⟩ | hd <;> simp [hd] at hmode
    · exact .inl ‹_›
    · split at hmode <;> simp at hmode
    · split at hmode <;> simp at hmode
    · rcases hmode with rfl | rfl
      · exact .inl ‹_›
      · exact .inr ‹_›
  · intro half name hterm
    simp [encodingMode, h.half half name hterm]
  · intro n hterm
    have hnone : o.symbol? = none := by simp [Operand.symbol?, hterm]
    have hshape := h.minus n hterm
    simp only [signedShapes, List.mem_cons, List.not_mem_nil, or_false] at hshape
    rcases hshape with hs | hs | hs | hs | hs | hs <;> simp only [encodingMode, hs]
    · rcases directMode_cases m o.symbol?.isSome with hd | ⟨hn, -⟩ | hd
      · exact .inr (.inl hd)
      · simp [hnone] at hn
      · exact .inr (.inr (by simp [hd, pageZeroModes]))
    all_goals simp [pageZeroModes]

theorem lookup_bind_eq_ok {f : Nat → Except Diagnostic α} {b : α} :
    (lookup t s name >>= f) = .ok b ↔ ∃ n, t.value? name = some n ∧ f n = .ok b := by
  simp [bind_eq_ok, lookup_eq_ok]

theorem Operand.resolves_iff (h : o.symbol? = some name) :
    o.Resolves t ↔ ∃ n, t.value? name = some n := by
  simp [Operand.Resolves, h, Option.isSome_iff_exists]

theorem Operand.resolves_of_none (h : o.symbol? = none) : o.Resolves t := by
  simp [Operand.Resolves, h]

theorem zeroPageByte_eq_ok {b : UInt8} (hhalf : ∀ half name, o.term ≠ .half half name) :
    zeroPageByte t s o.term = .ok b ↔
      (o.Resolves t ∧ ∀ name, o.symbol? = some name → ∀ n, t.value? name = some n → n ≤ 0xFF) ∧
        b = byteOf (o.term.value t) := by
  cases hterm : o.term with
  | number n =>
    have hnone : o.symbol? = none := by simp [Operand.symbol?, hterm]
    simp [zeroPageByte, Operand.resolves_of_none hnone, hnone, Term.value, eq_comm]
  | minus n =>
    have hnone : o.symbol? = none := by simp [Operand.symbol?, hterm]
    simp [zeroPageByte, Operand.resolves_of_none hnone, hnone, Term.value, eq_comm]
  | symbol name =>
    have hsome : o.symbol? = some name := by simp [Operand.symbol?, hterm]
    simp only [zeroPageByte, lookup_bind_eq_ok, Operand.resolves_iff hsome, hsome, Term.value]
    cases hv : t.value? name with
    | none => simp
    | some v => by_cases hle : v ≤ 0xFF <;> simp [hle, hv, @eq_comm _ b]
  | half half name => exact absurd hterm (hhalf half name)

theorem immediateByte_eq_ok {b : UInt8} :
    immediateByte t s o.term = .ok b ↔
      (o.Resolves t ∧ ∀ name, o.term = .symbol name → ∀ n, t.value? name = some n → n ≤ 0xFF) ∧
        b = byteOf (o.term.value t) := by
  cases hterm : o.term with
  | number n =>
    have hnone : o.symbol? = none := by simp [Operand.symbol?, hterm]
    simp [immediateByte, Operand.resolves_of_none hnone, Term.value, eq_comm]
  | minus n =>
    have hnone : o.symbol? = none := by simp [Operand.symbol?, hterm]
    simp [immediateByte, Operand.resolves_of_none hnone, Term.value, eq_comm]
  | symbol name =>
    have hsome : o.symbol? = some name := by simp [Operand.symbol?, hterm]
    simp only [immediateByte, lookup_bind_eq_ok, Operand.resolves_iff hsome, Term.value]
    cases hv : t.value? name with
    | none => simp
    | some v => by_cases hle : v ≤ 0xFF <;> simp [hle, hv, @eq_comm _ b]
  | half half name =>
    have hsome : o.symbol? = some name := by simp [Operand.symbol?, hterm]
    cases hv : t.value? name with
    | none =>
      cases half <;>
        simp [immediateByte, lookup_bind_eq_ok, Operand.resolves_iff hsome, hv]
    | some v =>
      cases half <;>
        simp [immediateByte, lookup_bind_eq_ok, Operand.resolves_iff hsome, hv, Term.value,
          byteOf, @eq_comm _ b]

theorem wordOperand_eq_ok {bytes : List UInt8} (hhalf : ∀ half name, o.term ≠ .half half name)
    (hminus : ∀ n, o.term ≠ .minus n) :
    wordOperand t s o.term = .ok bytes ↔
      o.Resolves t ∧ bytes = littleEndian 2 (o.term.value t) := by
  cases hterm : o.term with
  | number n =>
    have hnone : o.symbol? = none := by simp [Operand.symbol?, hterm]
    simp [wordOperand, Operand.resolves_of_none hnone, Term.value, wordBytes, littleEndian,
      eq_comm]
  | minus n => exact absurd hterm (hminus n)
  | symbol name =>
    have hsome : o.symbol? = some name := by simp [Operand.symbol?, hterm]
    simp only [wordOperand, lookup_bind_eq_ok, Operand.resolves_iff hsome, Term.value]
    cases hv : t.value? name with
    | none => simp
    | some v => simp [wordBytes, littleEndian, eq_comm]
  | half half name => exact absurd hterm (hhalf half name)

theorem branchByte_eq_ok {next : Nat} {b : UInt8} (hhalf : ∀ half name, o.term ≠ .half half name) :
    branchByte t s next o.term = .ok b ↔
      (o.Resolves t ∧ o.Reaches t next .relative) ∧ b = byteOf (o.carried t next .relative) := by
  cases hterm : o.term with
  | number n =>
    have hnone : o.symbol? = none := by simp [Operand.symbol?, hterm]
    simp [branchByte, Operand.resolves_of_none hnone, Operand.Reaches, Operand.carried, hnone,
      hterm, Term.value, eq_comm]
  | minus n =>
    have hnone : o.symbol? = none := by simp [Operand.symbol?, hterm]
    by_cases hle : n ≤ 128 <;>
      simp [branchByte, Operand.resolves_of_none hnone, Operand.Reaches, Operand.carried, hnone,
        hterm, Term.value, hle, eq_comm]
  | symbol name =>
    have hsome : o.symbol? = some name := by simp [Operand.symbol?, hterm]
    simp only [branchByte, lookup_bind_eq_ok, Operand.resolves_iff hsome, Operand.Reaches,
      Operand.carried, hsome, hterm, Term.value]
    cases hv : t.value? name with
    | none => simp
    | some v =>
      simp only [Option.some.injEq, exists_eq_left', exists_eq', forall_eq', hv, reduceCtorEq,
        false_implies, implies_true, and_true, true_and, true_implies, Option.isSome_some,
        Option.getD_some, if_true]
      generalize (v : Int) - next = distance
      by_cases hle : -128 ≤ distance ∧ distance ≤ 127
      · simp [hle, @eq_comm _ b]
      · simp [hle]
  | half half name => exact absurd hterm (hhalf half name)

/-- The operand bytes of a mode exist just when the operand encodes, and are the low bytes of the
number it carries. -/
theorem operandBytes_eq_ok {next : Nat} {mode : Mode} {bytes : List UInt8} (h : o.Suits mode) :
    operandBytes t s next mode o.term = .ok bytes ↔
      o.Encodes t next mode ∧
        bytes = littleEndian mode.operandSize (o.carried t next mode) := by
  have hsplit : o.Encodes t next mode ↔
      o.Resolves t ∧ o.Narrow t mode ∧ o.Reaches t next mode :=
    ⟨fun h => ⟨h.resolves, h.narrow, h.reaches⟩, fun h => ⟨h.1, h.2.1, h.2.2⟩⟩
  have hhalf (hmode : mode ≠ .immediate) : ∀ half name, o.term ≠ .half half name :=
    fun half name hterm => hmode (h.half half name hterm)
  have hcarried (hmode : mode ≠ .relative) : o.carried t next mode = o.term.value t := by
    simp [Operand.carried, hmode]
  have hreaches (hmode : mode ≠ .relative) : o.Reaches t next mode := by
    simp [Operand.Reaches, hmode]
  rw [hsplit]
  -- the case split is on the kind of place that the operand fills, not on its term
  by_cases hbare : mode = .implied ∨ mode = .accumulator
  · have hterm := h.bare hbare
    have hnone : o.symbol? = none := by simp [Operand.symbol?, hterm]
    rcases hbare with rfl | rfl <;>
      simp [operandBytes, Operand.resolves_of_none hnone, Operand.Narrow, hterm, hreaches,
        pageZeroModes, littleEndian, Mode.operandSize, eq_comm]
  by_cases himmediate : mode = .immediate
  · subst himmediate
    have hnarrow : o.Narrow t .immediate ↔
        ∀ name, o.term = .symbol name → ∀ n, t.value? name = some n → n ≤ 0xFF := by
      simp [Operand.Narrow, pageZeroModes]
    simp [operandBytes, bind_eq_ok, immediateByte_eq_ok, hnarrow, hreaches, hcarried,
      Mode.operandSize, littleEndian, and_assoc, @eq_comm _ bytes]
  by_cases hrelative : mode = .relative
  · subst hrelative
    have hnarrow : o.Narrow t .relative := by simp [Operand.Narrow, pageZeroModes]
    simp [operandBytes, bind_eq_ok, branchByte_eq_ok (hhalf himmediate), hnarrow,
      Mode.operandSize, littleEndian, and_assoc, @eq_comm _ bytes]
  by_cases hpage : mode ∈ pageZeroModes
  · have hnarrow : o.Narrow t mode ↔
        ∀ name, o.symbol? = some name → ∀ n, t.value? name = some n → n ≤ 0xFF := by
      simp [Operand.Narrow, hpage, himmediate]
    have hbytes : operandBytes t s next mode o.term =
        (zeroPageByte t s o.term >>= fun b => .ok [b]) ∧ mode.operandSize = 1 := by
      simp only [pageZeroModes, List.mem_cons, List.not_mem_nil, or_false] at hpage
      rcases hpage with rfl | rfl | rfl | rfl | rfl <;> exact ⟨rfl, rfl⟩
    simp [hbytes, bind_eq_ok, zeroPageByte_eq_ok (hhalf himmediate), hnarrow, hreaches hrelative,
      hcarried hrelative, littleEndian, and_assoc, @eq_comm _ bytes]
  · have hnarrow : o.Narrow t mode := by simp [Operand.Narrow, hpage, himmediate]
    have hminus : ∀ n, o.term ≠ .minus n := by
      intro n hterm
      have := h.minus n hterm
      simp [himmediate, hrelative, hpage] at this
    have hbytes : operandBytes t s next mode o.term = wordOperand t s o.term ∧
        mode.operandSize = 2 := by
      cases mode <;> simp_all [operandBytes, Mode.operandSize, pageZeroModes]
    rw [hbytes.1, hbytes.2, wordOperand_eq_ok (hhalf himmediate) hminus, hcarried hrelative]
    simp [hnarrow, hreaches hrelative]

def Statement.Encodes (t : Symbols) (address : Nat) (s : Statement) : Prop :=
  match s.content with
  | .instruction m o => ∃ opcode, encoding? m o = some opcode ∧
      o.Encodes t (address + opcode.size) opcode.mode
  | _ => True

def Statement.row? (t : Symbols) (address : Nat) (s : Statement) : Option Row :=
  match s.content with
  | .instruction _ _ => some ⟨address, s.bytes t address, s.location.line, s.source⟩
  | _ => none

theorem emitInstruction_eq_ok {m : Mnemonic} {row : Row} (hcontent : s.content = .instruction m o)
    (hformed : o.Formed) :
    emitInstruction t a s m o = .ok row ↔
      s.Encodes t a ∧ row = ⟨a, s.bytes t a, s.location.line, s.source⟩ := by
  simp only [emitInstruction, bind_eq_ok, encode_eq_ok, Statement.Encodes, Statement.bytes, hcontent]
  cases he : encoding? m o with
  | none => simp
  | some opcode =>
    have hsuits : o.Suits opcode.mode := encoding?_mode he ▸ hformed.suits m
    simp [operandBytes_eq_ok hsuits, and_assoc, @eq_comm _ row]

/-- The second walk succeeds just when every statement encodes at its address, and then gives
the rows of the reference layout. -/
theorem emitRows_eq_ok {rows : List Row} (hformed : ∀ s ∈ ss, s.content.Formed) :
    emitRows t a ss = .ok rows ↔
      (∀ p ∈ placed a ss, p.2.Encodes t p.1) ∧
        rows = (placed a ss).filterMap fun p => p.2.row? t p.1 := by
  induction ss generalizing a rows with
  | nil => simp [emitRows, eq_comm]
  | cons s rest ih =>
    have hrest := fun r hr => hformed r (List.mem_cons_of_mem s hr)
    cases hc : s.content with
    | label name | constant name value =>
      have hsize : s.size = 0 := by simp [Statement.size, hc]
      simp [emitRows, hc, ih hrest, Statement.Encodes, Statement.row?, hsize]
    | instruction m o =>
      have hs : o.Formed := by simpa [hc, Content.Formed] using hformed s List.mem_cons_self
      have hrow : s.row? t a = some ⟨a, s.bytes t a, s.location.line, s.source⟩ := by
        simp [Statement.row?, hc]
      simp only [emitRows, hc, bind_eq_ok, emitInstruction_eq_ok hc hs, placed_cons,
        List.forall_mem_cons, List.filterMap_cons, hrow]
      constructor
      · rintro ⟨row, ⟨hencodes, rfl⟩, others, hothers, hrows⟩
        obtain ⟨hall, rfl⟩ := (ih hrest).mp hothers
        exact ⟨⟨hencodes, hall⟩, (Except.ok.inj hrows).symm⟩
      · rintro ⟨⟨hencodes, hall⟩, rfl⟩
        exact ⟨_, ⟨hencodes, rfl⟩, _, (ih hrest).mpr ⟨hall, rfl⟩, rfl⟩

/-- Both walks together. -/
theorem assemble_eq_ok {origin : Nat} {predefined : Symbols} {image : Image}
    (hformed : ∀ s ∈ ss, s.content.Formed) :
    assemble origin predefined ss = .ok image ↔
      AllFit predefined origin ss ∧
        (∀ p ∈ placed origin ss, p.2.Encodes (tableAfter predefined origin ss) p.1) ∧
        image = .ofRows (tableAfter predefined origin ss) ((placed origin ss).filterMap fun p =>
          p.2.row? (tableAfter predefined origin ss) p.1) := by
  simp only [assemble_eq, walks, bind_eq_ok, layOut_eq_ok, pure_eq_ok]
  constructor
  · rintro ⟨t, ⟨hfit, rfl⟩, rows, hrows, himage⟩
    obtain ⟨hencodes, rfl⟩ := (emitRows_eq_ok hformed).mp hrows
    exact ⟨hfit, hencodes, (Except.ok.inj himage).symm⟩
  · rintro ⟨hfit, hencodes, rfl⟩
    exact ⟨_, ⟨hfit, rfl⟩, _, (emitRows_eq_ok hformed).mpr ⟨hencodes, rfl⟩, rfl⟩

theorem flatMap_row? {f : Row → List α} {g : Nat × Statement → List α} (ps : List (Nat × Statement))
    (hsome : ∀ p row, p.2.row? t p.1 = some row → f row = g p)
    (hnone : ∀ p, p.2.row? t p.1 = none → g p = []) :
    (ps.filterMap fun p => p.2.row? t p.1).flatMap f = ps.flatMap g := by
  induction ps with
  | nil => rfl
  | cons p ps ih =>
    cases h : p.2.row? t p.1 with
    | none => simp [h, ih, hnone p h]
    | some row => simp [h, ih, hsome p row h]

theorem Statement.bytes_of_row?_none (h : s.row? t a = none) : s.bytes t a = [] := by
  unfold Statement.row? at h
  unfold Statement.bytes
  split at h <;> simp_all

theorem Statement.eq_of_row? {row : Row} (h : s.row? t a = some row) :
    row = ⟨a, s.bytes t a, s.location.line, s.source⟩ := by
  unfold Statement.row? at h
  split at h <;> simp_all

theorem code_of_rows (t : Symbols) (ps : List (Nat × Statement)) :
    (Image.ofRows t (ps.filterMap fun p => p.2.row? t p.1)).code =
      ps.flatMap fun p => p.2.bytes t p.1 := by
  apply flatMap_row?
  · rintro p row hrow
    rw [Statement.eq_of_row? hrow]
  · exact fun p hp => Statement.bytes_of_row?_none hp

/-- Every unit that is assembled follows the reference layout: the labels and constants of its
table, its code and its line map are those of the statements at their addresses, all computed
from the one table. -/
theorem assemble_follows_reference {file text : String} {ss : List Statement}
    (hread : readSource file text = .ok ss) {origin : Nat} {predefined : Symbols} {image : Image}
    (h : assemble origin predefined ss = .ok image) :
    (∀ name n, predefined.value? name = some n → image.symbols.value? name = some n) ∧
    (∀ k s name, ss[k]? = some s → s.content = .label name →
      image.symbols.value? name = some (addressAt origin ss k)) ∧
    (∀ s ∈ ss, ∀ name n, s.content = .constant name (.number n) →
      image.symbols.value? name = some n) ∧
    (∀ s ∈ ss, ∀ name source, s.content = .constant name (.copy source) →
      ∃ n, image.symbols.value? source = some n ∧ image.symbols.value? name = some n) ∧
    image.code =
      ss.zipIdx.flatMap (fun p => p.1.bytes image.symbols (addressAt origin ss p.2)) ∧
    image.lineMap = ss.zipIdx.flatMap (fun p =>
      List.replicate (p.1.bytes image.symbols (addressAt origin ss p.2)).length
        p.1.location.line) := by
  obtain ⟨hfit, -, rfl⟩ := (assemble_eq_ok (readSource_formed hread)).mp h
  have hbound (k : Nat) (s : Statement) (hk : ss[k]? = some s) :
      s.Bound (tableAfter predefined origin ss) (addressAt origin ss k) := by
    have hmem : (placed origin ss)[k]? = some (addressAt origin ss k, s) := by
      simp [placed_getElem?, hk]
    exact bound_of_allFit hfit _ (List.mem_of_getElem? hmem)
  refine ⟨fun name n hn => value?_tableAfter hn, ?_, ?_, ?_, ?_, ?_⟩
  · intro k s name hk hc
    simpa [Statement.Bound, hc] using hbound k s hk
  · intro s hs name n hc
    obtain ⟨k, hk⟩ := List.getElem?_of_mem hs
    simpa [Statement.Bound, hc] using hbound k s hk
  · intro s hs name source hc
    obtain ⟨k, hk⟩ := List.getElem?_of_mem hs
    simpa [Statement.Bound, hc] using hbound k s hk
  · rw [code_of_rows]
    simp [placed, List.flatMap_map]
  · rw [Image.lineMap_ofRows, lineMapOf, flatMap_row? (g := fun p =>
      List.replicate (p.2.bytes (tableAfter predefined origin ss) p.1).length p.2.location.line)]
    · simp [placed, List.flatMap_map]
    · rintro p row hrow
      rw [Statement.eq_of_row? hrow]
    · intro p hp
      simp [Statement.bytes_of_row?_none hp]

def forwardText : String := "S: BNE E\n.const K S\nE: JMP K"

def forwardUnit : List Statement := [
  ⟨.label "S", { file := "m", line := 1 }, "S: BNE E"⟩,
  ⟨.instruction .bne ⟨.direct, .symbol "E"⟩, { file := "m", line := 1 }, "S: BNE E"⟩,
  ⟨.constant "K" (.copy "S"), { file := "m", line := 2 }, ".const K S"⟩,
  ⟨.label "E", { file := "m", line := 3 }, "E: JMP K"⟩,
  ⟨.instruction .jmp ⟨.direct, .symbol "K"⟩, { file := "m", line := 3 }, "E: JMP K"⟩]

theorem forwardUnit_follows_reference :
    ∃ image, readSource "m" forwardText = .ok forwardUnit ∧
      assemble 0x200 [] forwardUnit = .ok image ∧
      image.symbols.value? "E" = some (addressAt 0x200 forwardUnit 3) ∧
      image.code = forwardUnit.zipIdx.flatMap (fun p =>
        p.1.bytes image.symbols (addressAt 0x200 forwardUnit p.2)) := by
  have hread : readSource "m" forwardText = .ok forwardUnit :=
    eq_ok_of_toOption (by decide +kernel)
  obtain ⟨image, h⟩ : ∃ image, assemble 0x200 [] forwardUnit = .ok image :=
    exists_eq_ok_of_isSome (by decide +kernel)
  have href := assemble_follows_reference hread h
  exact ⟨image, hread, h, href.2.1 3 _ "E" rfl rfl, href.2.2.2.2.1⟩

end Toolchain6502.Assembly
