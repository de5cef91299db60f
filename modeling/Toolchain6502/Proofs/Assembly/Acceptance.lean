import Mathlib.Tactic.Common
import Toolchain6502.Proofs.Assembly.ReferenceLayout

namespace Toolchain6502.Assembly

open Cpu

variable {t predefined : Symbols} {name : String} {origin a : Nat} {s : Statement}
  {ss : List Statement}

def Statement.defines? (s : Statement) : Option String :=
  match s.content with
  | .label name | .constant name _ => some name
  | .instruction _ _ => none

def definedNames (ss : List Statement) : List String := ss.filterMap Statement.defines?

/-- The conditions on a unit. The values of its symbols are those of the reference layout. -/
structure WellFormed (origin : Nat) (predefined : Symbols) (ss : List Statement) : Prop where
  distinct : (definedNames ss).Nodup
  fresh : ∀ name ∈ definedNames ss, name ∉ predefined.names
  copies : ∀ k s name source, ss[k]? = some s → s.content = .constant name (.copy source) →
    source ∈ predefined.names ∨ source ∈ definedNames (ss.take k)
  legal : ∀ s ∈ ss, ∀ m o, s.content = .instruction m o → (encoding? m o).isSome
  ends : origin + (ss.map Statement.size).sum ≤ addressLimit
  resolves : ∀ s ∈ ss, ∀ m o name, s.content = .instruction m o → o.symbol? = some name →
    name ∈ predefined.names ∨ name ∈ definedNames ss
  narrow : ∀ s ∈ ss, ∀ m o opcode, s.content = .instruction m o → encoding? m o = some opcode →
    o.Narrow (tableAfter predefined origin ss) opcode.mode
  reaches : ∀ k s m o opcode, ss[k]? = some s → s.content = .instruction m o →
    encoding? m o = some opcode →
      o.Reaches (tableAfter predefined origin ss) (addressAt origin ss (k + 1)) opcode.mode

/-- A statement behind others breaks a condition of the first walk: it defines a name again,
copies a name that is not known yet, has no encoding, or runs past the end of memory. -/
inductive LayoutFault (origin : Nat) (predefined : Symbols) (before : List Statement)
    (s : Statement) : Prop where
  | redefined (name : String) (hdefines : s.defines? = some name)
      (hknown : name ∈ predefined.names ∨ name ∈ definedNames before)
  | unknownCopy (name source : String) (hcontent : s.content = .constant name (.copy source))
      (hpredefined : source ∉ predefined.names) (hbefore : source ∉ definedNames before)
  | illegal (m : Mnemonic) (o : Operand) (hcontent : s.content = .instruction m o)
      (hencoding : encoding? m o = none)
  | overrun (m : Mnemonic) (o : Operand) (hcontent : s.content = .instruction m o)
      (hends : addressLimit < origin + (before.map Statement.size).sum + s.size)

/-- The operand of an instruction names nothing, is too wide for its place, or is out of reach. -/
inductive OperandFault (t : Symbols) (address : Nat) (s : Statement) : Prop where
  | undefined (m : Mnemonic) (o : Operand) (name : String)
      (hcontent : s.content = .instruction m o) (hsymbol : o.symbol? = some name)
      (hvalue : t.value? name = none)
  | wide (m : Mnemonic) (o : Operand) (opcode : Opcode) (hcontent : s.content = .instruction m o)
      (hencoding : encoding? m o = some opcode) (hwide : ¬o.Narrow t opcode.mode)
  | unreached (m : Mnemonic) (o : Operand) (opcode : Opcode)
      (hcontent : s.content = .instruction m o) (hencoding : encoding? m o = some opcode)
      (hfar : ¬o.Reaches t (address + opcode.size) opcode.mode)

theorem find?_eq_none_iff : t.find? name = none ↔ name ∉ t.names := by
  simp [Symbols.find?, Symbols.names]

theorem find?_isSome_iff : (t.find? name).isSome ↔ name ∈ t.names := by
  rw [← not_iff_not, ← find?_eq_none_iff]
  simp

theorem value?_eq_none_iff : t.value? name = none ↔ name ∉ t.names := by
  simp [Symbols.value?, find?_eq_none_iff]

theorem entries_names (t : Symbols) (a : Nat) (s : Statement) :
    Symbols.names (s.entries t a) = s.defines?.toList := by
  unfold Statement.entries Statement.defines?
  split <;> simp_all [Symbols.names]

theorem tableAfter_names (t : Symbols) (a : Nat) (ss : List Statement) :
    (tableAfter t a ss).names = t.names ++ definedNames ss := by
  induction ss generalizing t a with
  | nil => simp [tableAfter, definedNames]
  | cons s rest ih =>
    rw [tableAfter, ih]
    have hentries := entries_names t a s
    simp only [Symbols.names, definedNames, List.map_append, List.filterMap_cons] at hentries ⊢
    rw [hentries]
    cases s.defines? <;> simp

/-- A definition that copies nothing breaks a condition only by its name. -/
theorem layoutFault_iff_known {before : List Statement} (hdefines : s.defines? = some name)
    (hplain : ∀ name source, s.content ≠ .constant name (.copy source)) :
    LayoutFault origin predefined before s ↔
      name ∈ predefined.names ∨ name ∈ definedNames before := by
  constructor
  · intro h
    cases h with
    | redefined name' hdefines' hknown =>
      rw [hdefines] at hdefines'
      rwa [Option.some.inj hdefines']
    | unknownCopy name' source hcontent => exact absurd hcontent (hplain name' source)
    | illegal m o hcontent => simp [Statement.defines?, hcontent] at hdefines
    | overrun m o hcontent => simp [Statement.defines?, hcontent] at hdefines
  · exact .redefined name hdefines

/-- A statement fits behind others just when it breaks no condition. -/
theorem fits_iff {before : List Statement} :
    s.Fits (tableAfter predefined origin before)
        (origin + (before.map Statement.size).sum) ↔
      ¬LayoutFault origin predefined before s := by
  have hnames := tableAfter_names predefined origin before
  have hnone (name : String) : (tableAfter predefined origin before).find? name = none ↔
      ¬(name ∈ predefined.names ∨ name ∈ definedNames before) := by
    rw [find?_eq_none_iff, hnames, List.mem_append]
  have hsome (name : String) : ((tableAfter predefined origin before).find? name).isSome ↔
      name ∈ predefined.names ∨ name ∈ definedNames before := by
    rw [find?_isSome_iff, hnames, List.mem_append]
  unfold Statement.Fits
  match hc : s.content with
  | .label name =>
    have hd : s.defines? = some name := by simp [Statement.defines?, hc]
    rw [layoutFault_iff_known hd (by simp [hc])]
    exact hnone name
  | .constant name (.number n) =>
    have hd : s.defines? = some name := by simp [Statement.defines?, hc]
    rw [layoutFault_iff_known hd (by simp [hc])]
    exact hnone name
  | .constant name (.copy source) =>
    have hd : s.defines? = some name := by simp [Statement.defines?, hc]
    simp only [hnone, hsome]
    constructor
    · rintro h (⟨n, hn, hk⟩ | ⟨_, _, hn, _⟩ | ⟨_, _, hn, _⟩ | ⟨_, _, hn, _⟩) <;> simp_all
    · intro h
      refine ⟨?_, fun hk => h (.redefined name hd hk)⟩
      by_contra hk
      exact h (.unknownCopy name source hc (fun hp => hk (.inl hp)) fun hb => hk (.inr hb))
  | .instruction m o =>
    have hd : s.defines? = none := by simp [Statement.defines?, hc]
    simp only
    constructor
    · rintro ⟨hl, he⟩ (⟨n, hn, hk⟩ | ⟨_, _, hn, _⟩ | ⟨_, _, hn, hk⟩ | ⟨_, _, hn, hk⟩)
      · simp [hd] at hn
      · simp [hc] at hn
      · simp_all
      · omega
    · intro h
      constructor
      · by_contra hk
        exact h (.illegal m o hc (by simpa using hk))
      · by_contra hk
        exact h (.overrun m o hc (by omega))

theorem allFit_iff :
    AllFit t a ss ↔ ∀ (k : Nat) (s : Statement), ss[k]? = some s →
      s.Fits (tableAfter t a (ss.take k)) (addressAt a ss k) := by
  induction ss generalizing t a with
  | nil => simp [AllFit]
  | cons s rest ih =>
    rw [AllFit, ih]
    constructor
    · rintro ⟨hs, hrest⟩ k r hk
      cases k with
      | zero =>
        obtain rfl : s = r := by simpa using hk
        simpa [tableAfter, addressAt_zero] using hs
      | succ k => simpa [tableAfter, addressAt_cons] using hrest k r (by simpa using hk)
    · intro h
      constructor
      · simpa [tableAfter, addressAt_zero] using h 0 s rfl
      · intro k r hk
        simpa [tableAfter, addressAt_cons] using h (k + 1) r (by simpa using hk)

structure Statement.Locates (s : Statement) (x : Except Diagnostic α) : Prop where
  fails : ∀ d, x = .error d → d = s.fail d.fault

theorem Statement.Locates.location {x : Except Diagnostic α} (hx : s.Locates x) (d : Diagnostic)
    (h : x = .error d) : d.location = some s.location := by
  rw [hx.fails d h]
  rfl

theorem Statement.locates_ok (s : Statement) (a : α) : s.Locates (.ok a) :=
  ⟨by simp⟩

theorem Statement.locates_fail (s : Statement) (fault : Fault) :
    s.Locates (.error (s.fail fault) : Except Diagnostic α) :=
  ⟨by simp [Statement.fail]⟩

theorem Statement.Locates.bind {x : Except Diagnostic α} {f : α → Except Diagnostic β}
    (hx : s.Locates x) (hf : ∀ a, s.Locates (f a)) : s.Locates (x >>= f) := by
  constructor
  intro d h
  rcases bind_eq_error.mp h with h | ⟨a, -, h⟩
  · exact hx.fails d h
  · exact (hf a).fails d h

theorem Statement.locates_ite {p : Prop} [Decidable p] {x y : Except Diagnostic α}
    (hx : s.Locates x) (hy : s.Locates y) : s.Locates (if p then x else y) := by
  split
  · exact hx
  · exact hy

theorem lookup_locates (t : Symbols) (s : Statement) (name : String) :
    s.Locates (lookup t s name) := by
  unfold lookup
  split
  · exact s.locates_ok _
  · exact s.locates_fail _

theorem define_locates (t : Symbols) (s : Statement) (name : String) (value : Nat)
    (d : Definition) : s.Locates (define t s name value d) := by
  unfold define
  split
  · exact s.locates_fail _
  · exact s.locates_ok _

theorem encode_locates (s : Statement) (m : Mnemonic) (o : Operand) :
    s.Locates (encode s m o) := by
  unfold encode
  split
  · exact s.locates_ok _
  · exact s.locates_fail _

theorem layStatement_locates (t : Symbols) (a : Nat) (s : Statement) :
    s.Locates (layStatement t a s) := by
  unfold layStatement
  split
  · exact (define_locates ..).bind fun _ => s.locates_ok _
  · rename_i name value _
    have hvalue : s.Locates (constantValue t s value) := by
      cases value with
      | number n => exact s.locates_ok n
      | copy source => exact lookup_locates t s source
    exact hvalue.bind fun _ => (define_locates ..).bind fun _ => s.locates_ok _
  · exact (encode_locates ..).bind fun _ =>
      Statement.locates_ite (s.locates_ok _) (s.locates_fail _)

/-- A failure of the first walk is at the first statement that does not fit. -/
theorem layOut_eq_error {d : Diagnostic} (h : layOut t a ss = .error d) :
    ∃ (k : Nat) (s : Statement), ss[k]? = some s ∧ d.location = some s.location ∧
      ¬s.Fits (tableAfter t a (ss.take k)) (addressAt a ss k) ∧
      ∀ (j : Nat) (r : Statement), j < k → ss[j]? = some r →
        r.Fits (tableAfter t a (ss.take j)) (addressAt a ss j) := by
  induction ss generalizing t a with
  | nil => simp [layOut] at h
  | cons s rest ih =>
    simp only [layOut, bind_eq_error] at h
    rcases h with h | ⟨⟨t₁, a₁⟩, hs, h⟩
    · refine ⟨0, s, rfl, (layStatement_locates t a s).location d h, ?_, by simp⟩
      intro hfit
      simp only [List.take_zero, tableAfter, addressAt_zero] at hfit
      rw [layStatement_eq_ok.mpr ⟨hfit, rfl, rfl⟩] at h
      simp at h
    · obtain ⟨hfit, rfl, rfl⟩ := layStatement_eq_ok.mp hs
      obtain ⟨k, r, hk, hlocation, hfault, hbefore⟩ := ih h
      refine ⟨k + 1, r, by simpa using hk, hlocation, ?_, ?_⟩
      · simpa [tableAfter, addressAt_cons] using hfault
      · intro j q hj hq
        cases j with
        | zero =>
          obtain rfl : s = q := by simpa using hq
          simpa [tableAfter, addressAt_zero] using hfit
        | succ j =>
          simpa [tableAfter, addressAt_cons] using
            hbefore j q (by omega) (by simpa using hq)

theorem zeroPageByte_locates (t : Symbols) (s : Statement) (term : Term) :
    s.Locates (zeroPageByte t s term) := by
  unfold zeroPageByte
  split
  · exact s.locates_ok _
  · exact s.locates_ok _
  all_goals
    exact (lookup_locates ..).bind fun _ =>
      Statement.locates_ite (s.locates_ok _) (s.locates_fail _)

theorem immediateByte_locates (t : Symbols) (s : Statement) (term : Term) :
    s.Locates (immediateByte t s term) := by
  unfold immediateByte
  split
  · exact s.locates_ok _
  · exact s.locates_ok _
  · exact (lookup_locates ..).bind fun _ => s.locates_ok _
  · exact (lookup_locates ..).bind fun _ => s.locates_ok _
  · exact (lookup_locates ..).bind fun _ =>
      Statement.locates_ite (s.locates_ok _) (s.locates_fail _)

theorem wordOperand_locates (t : Symbols) (s : Statement) (term : Term) :
    s.Locates (wordOperand t s term) := by
  unfold wordOperand
  split
  · exact s.locates_ok _
  · exact s.locates_ok _
  all_goals exact (lookup_locates ..).bind fun _ => s.locates_ok _

theorem branchByte_locates (t : Symbols) (s : Statement) (next : Nat) (term : Term) :
    s.Locates (branchByte t s next term) := by
  unfold branchByte
  split
  · exact s.locates_ok _
  · exact Statement.locates_ite (s.locates_ok _) (s.locates_fail _)
  all_goals
    exact (lookup_locates ..).bind fun _ =>
      Statement.locates_ite (s.locates_ok _) (s.locates_fail _)

theorem operandBytes_locates (t : Symbols) (s : Statement) (next : Nat) (mode : Mode)
    (term : Term) : s.Locates (operandBytes t s next mode term) := by
  cases mode with
  | implied | accumulator => exact s.locates_ok _
  | immediate => exact (immediateByte_locates ..).bind fun _ => s.locates_ok _
  | relative => exact (branchByte_locates ..).bind fun _ => s.locates_ok _
  | absolute | absoluteX | absoluteY | indirect => exact wordOperand_locates ..
  | zeroPage | zeroPageX | zeroPageY | indexedIndirect | indirectIndexed =>
    exact (zeroPageByte_locates ..).bind fun _ => s.locates_ok _

theorem emitInstruction_locates (t : Symbols) (a : Nat) (s : Statement) (m : Mnemonic)
    (o : Operand) : s.Locates (emitInstruction t a s m o) :=
  (encode_locates ..).bind fun _ => (operandBytes_locates ..).bind fun _ => s.locates_ok _

/-- A failure of the second walk is at the first statement that does not encode. -/
theorem emitRows_eq_error {d : Diagnostic} (hformed : ∀ s ∈ ss, s.content.Formed)
    (h : emitRows t a ss = .error d) :
    ∃ (k : Nat) (s : Statement), ss[k]? = some s ∧ d.location = some s.location ∧
      ¬s.Encodes t (addressAt a ss k) ∧
      ∀ (j : Nat) (r : Statement), j < k → ss[j]? = some r → r.Encodes t (addressAt a ss j) := by
  induction ss generalizing a with
  | nil => simp [emitRows] at h
  | cons s rest ih =>
    have hrest := fun r hr => hformed r (List.mem_cons_of_mem s hr)
    -- the fault lies behind the first statement, which encodes
    have later (hs : s.Encodes t a) (h : emitRows t (a + s.size) rest = .error d) :
        ∃ (k : Nat) (q : Statement), (s :: rest)[k]? = some q ∧ d.location = some q.location ∧
          ¬q.Encodes t (addressAt a (s :: rest) k) ∧
          ∀ (j : Nat) (r : Statement), j < k → (s :: rest)[j]? = some r →
            r.Encodes t (addressAt a (s :: rest) j) := by
      obtain ⟨k, q, hk, hlocation, hfault, hbefore⟩ := ih hrest h
      refine ⟨k + 1, q, by simpa using hk, hlocation, by simpa [addressAt_cons] using hfault, ?_⟩
      intro j r hj hr
      cases j with
      | zero =>
        obtain rfl : s = r := by simpa using hr
        simpa [addressAt_zero] using hs
      | succ j =>
        simpa [addressAt_cons] using hbefore j r (by omega) (by simpa using hr)
    cases hc : s.content with
    | label name =>
      have hsize : s.size = 0 := by simp [Statement.size, hc]
      exact later (by simp [Statement.Encodes, hc]) (by simpa [emitRows, hc, hsize] using h)
    | constant name value =>
      have hsize : s.size = 0 := by simp [Statement.size, hc]
      exact later (by simp [Statement.Encodes, hc]) (by simpa [emitRows, hc, hsize] using h)
    | instruction m o =>
      have hs : o.Formed := by simpa [hc, Content.Formed] using hformed s List.mem_cons_self
      simp only [emitRows, hc, bind_eq_error] at h
      rcases h with h | ⟨row, hrow, h | ⟨_, -, h⟩⟩
      · refine ⟨0, s, rfl, (emitInstruction_locates t a s m o).location d h, ?_, by simp⟩
        intro hencodes
        rw [addressAt_zero] at hencodes
        rw [(emitInstruction_eq_ok hc hs).mpr ⟨hencodes, rfl⟩] at h
        simp at h
      · exact later ((emitInstruction_eq_ok hc hs).mp hrow).1 h
      · simp at h

/-- An instruction that has an encoding encodes just when its operand is not at fault. -/
theorem encodes_iff (hlegal : ∀ m o, s.content = .instruction m o → (encoding? m o).isSome) :
    s.Encodes t a ↔ ¬OperandFault t a s := by
  unfold Statement.Encodes
  match hc : s.content with
  | .label name | .constant name value =>
    simp only [true_iff]
    rintro (⟨_, _, _, h, _⟩ | ⟨_, _, _, h, _⟩ | ⟨_, _, _, h, _⟩) <;> simp [hc] at h
  | .instruction m o =>
    obtain ⟨opcode, he⟩ := Option.isSome_iff_exists.mp (hlegal m o hc)
    simp only [he, Option.some.injEq, exists_eq_left']
    constructor
    · rintro ⟨hresolves, hnarrow, hreaches⟩ hfault
      cases hfault with
      | undefined m' o' name hc' hsymbol hvalue =>
        obtain ⟨rfl, rfl⟩ : m = m' ∧ o = o' := by simpa [hc] using hc'
        have := hresolves name hsymbol
        simp [hvalue] at this
      | wide m' o' opcode' hc' he' hwide =>
        obtain ⟨rfl, rfl⟩ : m = m' ∧ o = o' := by simpa [hc] using hc'
        obtain rfl : opcode = opcode' := by simpa [he] using he'
        exact hwide hnarrow
      | unreached m' o' opcode' hc' he' hfar =>
        obtain ⟨rfl, rfl⟩ : m = m' ∧ o = o' := by simpa [hc] using hc'
        obtain rfl : opcode = opcode' := by simpa [he] using he'
        exact hfar hreaches
    · intro h
      refine ⟨?_, ?_, ?_⟩
      · intro name hsymbol
        by_contra hvalue
        exact h (.undefined m o name hc hsymbol (by simpa using hvalue))
      · by_contra hwide
        exact h (.wide m o opcode hc he hwide)
      · by_contra hfar
        exact h (.unreached m o opcode hc he hfar)

theorem definedNames_nodup_iff :
    (definedNames ss).Nodup ↔ ∀ (k : Nat) (s : Statement) (name : String), ss[k]? = some s →
      s.defines? = some name → name ∉ definedNames (ss.take k) := by
  rw [definedNames, List.Nodup, List.pairwise_filterMap, List.pairwise_iff_getElem]
  simp only [definedNames, List.mem_filterMap, List.mem_take_iff_getElem]
  constructor
  · rintro h k s name hk hs ⟨r, ⟨j, hj, rfl⟩, hr⟩
    obtain ⟨hk', rfl⟩ := List.getElem?_eq_some_iff.mp hk
    exact h j k (by omega) hk' (by omega) name hr name hs rfl
  · rintro h j k hj hk hjk x hx y hy rfl
    exact h k ss[k] x (List.getElem?_eq_getElem hk) hy ⟨ss[j], ⟨j, by omega, rfl⟩, hx⟩

theorem AllFit.distinct (h : AllFit predefined origin ss) : (definedNames ss).Nodup := by
  rw [definedNames_nodup_iff]
  intro k s name hk hdefines hknown
  exact fits_iff.mp (allFit_iff.mp h k s hk) (.redefined name hdefines (.inr hknown))

theorem mem_definedNames (hs : s ∈ ss) (h : s.defines? = some name) : name ∈ definedNames ss :=
  List.mem_filterMap.mpr ⟨s, hs, h⟩

theorem addressAt_le (origin : Nat) (ss : List Statement) (k : Nat) :
    addressAt origin ss k ≤ origin + (ss.map Statement.size).sum := by
  have h := congrArg (fun l => (l.map Statement.size).sum) (List.take_append_drop k ss)
  simp only [List.map_append, List.sum_append] at h
  unfold addressAt
  omega

theorem ends_of_instructions (ha : a ≤ addressLimit)
    (h : ∀ (k : Nat) (s : Statement) (m : Mnemonic) (o : Operand), ss[k]? = some s →
      s.content = .instruction m o → addressAt a ss k + s.size ≤ addressLimit) :
    a + (ss.map Statement.size).sum ≤ addressLimit := by
  induction ss generalizing a with
  | nil => simpa using ha
  | cons s rest ih =>
    have hs : a + s.size ≤ addressLimit := by
      match hc : s.content with
      | .label name => simpa [Statement.size, hc] using ha
      | .constant name value => simpa [Statement.size, hc] using ha
      | .instruction m o => simpa [addressAt_zero] using h 0 s m o rfl hc
    have hrest := ih hs fun k r m o hk hr => by
      simpa [addressAt_cons] using h (k + 1) r m o (by simpa using hk) hr
    simp only [List.map_cons, List.sum_cons]
    omega

theorem value?_tableAfter_eq_none : (tableAfter predefined origin ss).value? name = none ↔
      ¬(name ∈ predefined.names ∨ name ∈ definedNames ss) := by
  rw [value?_eq_none_iff, tableAfter_names, List.mem_append]

theorem allFit_of_distinct (hplain : ∀ s ∈ ss, ∀ name value, s.content ≠ .constant name value)
    (hdistinct : (definedNames ss).Nodup)
    (hlegal : ∀ s ∈ ss, ∀ m o, s.content = .instruction m o → (encoding? m o).isSome)
    (hends : origin + (ss.map Statement.size).sum ≤ addressLimit) : AllFit [] origin ss := by
  rw [allFit_iff]
  intro k s hk
  have hs : s ∈ ss := List.mem_of_getElem? hk
  unfold Statement.Fits
  match hc : s.content with
  | .label name =>
    have hdefines : s.defines? = some name := by simp [Statement.defines?, hc]
    refine find?_eq_none_iff.mpr ?_
    rw [tableAfter_names]
    exact definedNames_nodup_iff.mp hdistinct k s name hk hdefines
  | .constant name value => exact absurd hc (hplain s hs name value)
  | .instruction m o =>
    refine ⟨hlegal s hs m o hc, ?_⟩
    rw [← addressAt_succ hk]
    exact Nat.le_trans (addressAt_le origin ss (k + 1)) hends

theorem isLabel_of_mem_tableAfter
    (hplain : ∀ s ∈ ss, ∀ name value, s.content ≠ .constant name value)
    (ht : ∀ e ∈ t, e.isLabel = true) : ∀ e ∈ tableAfter t a ss, e.isLabel = true := by
  induction ss generalizing t a with
  | nil => exact ht
  | cons s rest ih =>
    rw [List.forall_mem_cons] at hplain
    apply ih hplain.2
    refine List.forall_mem_append.mpr ⟨ht, ?_⟩
    unfold Statement.entries
    match hc : s.content with
    | .label name => simp [Symbol.isLabel]
    | .constant name value => exact absurd hc (hplain.1 name value)
    | .instruction m o => simp

/-- Without constants, the label table names all that is defined. -/
theorem labels_tableAfter (hplain : ∀ s ∈ ss, ∀ name value, s.content ≠ .constant name value) :
    (tableAfter [] origin ss).labels.map Prod.fst = definedNames ss := by
  have hlabels : ∀ e ∈ tableAfter [] origin ss, e.isLabel = true :=
    isLabel_of_mem_tableAfter hplain (by simp)
  have hnames := tableAfter_names [] origin ss
  simp only [Symbols.names, List.map_nil, List.nil_append] at hnames
  rw [Symbols.labels, List.filter_eq_self.mpr hlabels, Symbols.values, List.map_map, ← hnames]
  rfl

section
variable {origin : Nat} {predefined : Symbols} {ss : List Statement}

theorem WellFormed.not_layoutFault (h : WellFormed origin predefined ss) {k : Nat}
    (hk : ss[k]? = some s) : ¬LayoutFault origin predefined (ss.take k) s := by
  intro hfault
  cases hfault with
  | redefined name hdefines hknown =>
    rcases hknown with hknown | hknown
    · exact h.fresh name (mem_definedNames (List.mem_of_getElem? hk) hdefines) hknown
    · exact definedNames_nodup_iff.mp h.distinct k s name hk hdefines hknown
  | unknownCopy name source hc hpredefined hbefore =>
    rcases h.copies k s name source hk hc with hknown | hknown
    · exact hpredefined hknown
    · exact hbefore hknown
  | illegal m o hc he =>
    have hlegal := h.legal s (List.mem_of_getElem? hk) m o hc
    simp [he] at hlegal
  | overrun m o hc hends =>
    have hle := addressAt_le origin ss (k + 1)
    rw [addressAt_succ hk] at hle
    have hlimit := h.ends
    unfold addressAt at hle
    omega

theorem WellFormed.not_operandFault (h : WellFormed origin predefined ss) {k : Nat}
    (hk : ss[k]? = some s) :
    ¬OperandFault (tableAfter predefined origin ss) (addressAt origin ss k) s := by
  intro hfault
  cases hfault with
  | undefined m o name hc hsymbol hnone =>
    exact value?_tableAfter_eq_none.mp hnone
      (h.resolves s (List.mem_of_getElem? hk) m o name hc hsymbol)
  | wide m o opcode hc he hwide =>
    exact hwide (h.narrow s (List.mem_of_getElem? hk) m o opcode hc he)
  | unreached m o opcode hc he hfar =>
    have hsize : s.size = opcode.size := by simp [Statement.size, hc, he]
    rw [← hsize, ← addressAt_succ hk] at hfar
    exact hfar (h.reaches k s m o opcode hk hc he)

/-- The conditions hold just when no statement is at fault. -/
theorem wellFormed_iff (horigin : origin ≤ addressLimit) :
    WellFormed origin predefined ss ↔
      (∀ (k : Nat) (s : Statement), ss[k]? = some s →
        ¬LayoutFault origin predefined (ss.take k) s) ∧
      ∀ (k : Nat) (s : Statement), ss[k]? = some s →
        ¬OperandFault (tableAfter predefined origin ss) (addressAt origin ss k) s := by
  constructor
  · intro h
    exact ⟨fun k s hk => h.not_layoutFault hk, fun k s hk => h.not_operandFault hk⟩
  · rintro ⟨hlayout, hoperand⟩
    refine ⟨?_, ?_, ?_, ?_, ?_, ?_, ?_, ?_⟩
    · rw [definedNames_nodup_iff]
      exact fun k s name hk hdefines hknown =>
        hlayout k s hk (.redefined name hdefines (.inr hknown))
    · intro name hname hknown
      obtain ⟨s, hs, hdefines⟩ := List.mem_filterMap.mp hname
      obtain ⟨k, hk⟩ := List.getElem?_of_mem hs
      exact hlayout k s hk (.redefined name hdefines (.inl hknown))
    · intro k s name source hk hc
      by_contra hknown
      exact hlayout k s hk (.unknownCopy name source hc (fun hp => hknown (.inl hp))
        fun hb => hknown (.inr hb))
    · intro s hs m o hc
      obtain ⟨k, hk⟩ := List.getElem?_of_mem hs
      by_contra he
      exact hlayout k s hk (.illegal m o hc (by simpa using he))
    · apply ends_of_instructions horigin
      intro k s m o hk hc
      by_contra hends
      exact hlayout k s hk (.overrun m o hc (by simpa [addressAt] using hends))
    · intro s hs m o name hc hsymbol
      obtain ⟨k, hk⟩ := List.getElem?_of_mem hs
      by_contra hknown
      exact hoperand k s hk (.undefined m o name hc hsymbol (value?_tableAfter_eq_none.mpr hknown))
    · intro s hs m o opcode hc he
      obtain ⟨k, hk⟩ := List.getElem?_of_mem hs
      by_contra hwide
      exact hoperand k s hk (.wide m o opcode hc he hwide)
    · intro k s m o opcode hk hc he
      have hsize : s.size = opcode.size := by simp [Statement.size, hc, he]
      by_contra hfar
      rw [addressAt_succ hk, hsize] at hfar
      exact hoperand k s hk (.unreached m o opcode hc he hfar)

end

/-- The statement at an index is the first one at fault: no statement before it fails in the first
walk, or none at all does and it is the first whose operand is at fault. -/
def FirstFault (origin : Nat) (predefined : Symbols) (ss : List Statement) (k : Nat)
    (s : Statement) : Prop :=
  (LayoutFault origin predefined (ss.take k) s ∧
    ∀ (j : Nat) (r : Statement), j < k → ss[j]? = some r →
      ¬LayoutFault origin predefined (ss.take j) r) ∨
  ((∀ (j : Nat) (r : Statement), ss[j]? = some r →
      ¬LayoutFault origin predefined (ss.take j) r) ∧
    OperandFault (tableAfter predefined origin ss) (addressAt origin ss k) s ∧
    ∀ (j : Nat) (r : Statement), j < k → ss[j]? = some r →
      ¬OperandFault (tableAfter predefined origin ss) (addressAt origin ss j) r)

theorem legal_of_no_layoutFault {before : List Statement}
    (h : ¬LayoutFault origin predefined before s) :
    ∀ m o, s.content = .instruction m o → (encoding? m o).isSome := by
  intro m o hc
  by_contra he
  exact h (.illegal m o hc (by simpa using he))

/-- A unit is assembled just when it is well formed, and otherwise reported at its first fault. -/
theorem assemble_accepts_exactly {file text : String} {ss : List Statement}
    (hread : readSource file text = .ok ss) {origin : Nat} (horigin : origin ≤ 0xFFFF)
    (predefined : Symbols) :
    ((∃ image, assemble origin predefined ss = .ok image) ↔ WellFormed origin predefined ss) ∧
    ∀ d, assemble origin predefined ss = .error d →
      ∃ (k : Nat) (s : Statement), ss[k]? = some s ∧ d.location = some s.location ∧
        FirstFault origin predefined ss k s := by
  have hformed := readSource_formed hread
  have hlimit : origin ≤ addressLimit := by unfold addressLimit; omega
  have hfits (k : Nat) (s : Statement) :
      s.Fits (tableAfter predefined origin (ss.take k)) (addressAt origin ss k) ↔
        ¬LayoutFault origin predefined (ss.take k) s := fits_iff
  constructor
  · rw [wellFormed_iff hlimit]
    simp only [assemble_eq_ok hformed, allFit_iff, hfits]
    constructor
    · rintro ⟨image, hlayout, hencodes, -⟩
      refine ⟨hlayout, fun k s hk => ?_⟩
      have hmem : (addressAt origin ss k, s) ∈ placed origin ss :=
        List.mem_of_getElem? (by simp [placed_getElem?, hk] : (placed origin ss)[k]? = _)
      exact (encodes_iff (legal_of_no_layoutFault (hlayout k s hk))).mp (hencodes _ hmem)
    · rintro ⟨hlayout, hoperand⟩
      refine ⟨_, hlayout, fun p hp => ?_, rfl⟩
      obtain ⟨k, hk⟩ := List.getElem?_of_mem hp
      rw [placed_getElem?] at hk
      obtain ⟨s, hs, rfl⟩ := Option.map_eq_some_iff.mp hk
      exact (encodes_iff (legal_of_no_layoutFault (hlayout k s hs))).mpr (hoperand k s hs)
  · intro d h
    simp only [assemble_eq, walks, bind_eq_error] at h
    rcases h with h | ⟨t, ht, h | ⟨_, -, h⟩⟩
    · obtain ⟨k, s, hk, hlocation, hfault, hbefore⟩ := layOut_eq_error h
      refine ⟨k, s, hk, hlocation, .inl ⟨?_, ?_⟩⟩
      · by_contra hnone
        exact hfault ((hfits k s).mpr hnone)
      · exact fun j r hj hr => (hfits j r).mp (hbefore j r hj hr)
    · obtain ⟨hfit, rfl⟩ := layOut_eq_ok.mp ht
      have hlayout : ∀ (j : Nat) (r : Statement), ss[j]? = some r →
          ¬LayoutFault origin predefined (ss.take j) r :=
        fun j r hr => (hfits j r).mp (allFit_iff.mp hfit j r hr)
      obtain ⟨k, s, hk, hlocation, hfault, hbefore⟩ := emitRows_eq_error hformed h
      refine ⟨k, s, hk, hlocation, .inr ⟨hlayout, ?_, ?_⟩⟩
      · by_contra hnone
        exact hfault ((encodes_iff (legal_of_no_layoutFault (hlayout k s hk))).mpr hnone)
      · exact fun j r hj hr =>
          (encodes_iff (legal_of_no_layoutFault (hlayout j r hr))).mp (hbefore j r hj hr)
    · simp at h

/-- A label that is defined again behind an operand that names nothing. -/
def againUnit : List Statement := [
  ⟨.instruction .jmp ⟨.direct, .symbol "X"⟩, { file := "m", line := 1 }, "JMP X"⟩,
  ⟨.label "A", { file := "m", line := 2 }, "A:"⟩,
  ⟨.label "A", { file := "m", line := 3 }, "A:"⟩]

theorem againUnit_reported_first :
    WellFormed 0x200 [] forwardUnit ∧
    readSource "m" "JMP X\nA:\nA:" = .ok againUnit ∧
    ∃ d, assemble 0x200 [] againUnit = .error d ∧
      ∃ k s, againUnit[k]? = some s ∧ d.location = some s.location ∧
        FirstFault 0x200 [] againUnit k s := by
  have hforward : readSource "m" forwardText = .ok forwardUnit :=
    eq_ok_of_toOption (by decide +kernel)
  have hread : readSource "m" "JMP X\nA:\nA:" = .ok againUnit :=
    eq_ok_of_toOption (by decide +kernel)
  obtain ⟨d, h⟩ : ∃ d, assemble 0x200 [] againUnit = .error d :=
    exists_eq_error_of_isNone (by decide +kernel)
  refine ⟨?_, hread, d, h, (assemble_accepts_exactly hread (by decide) []).2 d h⟩
  exact (assemble_accepts_exactly hforward (by decide) []).1.mp
    (exists_eq_ok_of_isSome (by decide +kernel))

end Toolchain6502.Assembly
