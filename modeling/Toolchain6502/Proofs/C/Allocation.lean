import Toolchain6502.C.Program
import Toolchain6502.Proofs.Outcome

namespace Toolchain6502.C

open Files Source

theorem atLine_eq_ok {location : Location} {source : String} {x : Except Failure α} {a : α} :
    atLine location source x = .ok a ↔ x = .ok a := by
  unfold atLine
  split
  · split <;> simp
  · rfl

theorem place_eq_ok {a a' : Allocation} {v : Variable} {name : String} {location : Location} :
    a.place name location = .ok (v, a') ↔
      a.next < zeroPageLimit ∧ v = ⟨name, a.next, location⟩ ∧
        a' = { a with next := a.next + 1, addresses := a.addresses.put name a.next } := by
  unfold Allocation.place
  split
  · simp only [fail, reduceCtorEq, false_iff]
    rintro ⟨hroom, -⟩
    omega
  · have hroom : a.next < zeroPageLimit := by omega
    simp [hroom, @eq_comm _ v, @eq_comm _ a']

section

variable {current : List String} {path : Path} {line : SourceLine} {location : Location}

theorem Allocation.addGlobal_eq_ok {a a' : Allocation} {d : Declaration}
    (h : a.addGlobal current path line location d = .ok a') :
    a.next < zeroPageLimit ∧ ∃ added,
      a' = { a with
        next := a.next + 1
        addresses := a.addresses.put d.name a.next
        globals := a.globals ++ [⟨d.name, a.next, location⟩]
        initializers := a.initializers ++ added } ∧
      (∀ i ∈ added,
        i.target = ⟨d.name, a.next, location⟩ ∧ canonical current path = .ok i.file) ∧
      added.map Initializer.expression = d.initial.toList := by
  unfold addGlobal at h
  cases hfirst : a.globals.find? (·.name = d.name) with
  | some first => simp [hfirst, fail] at h
  | none =>
  simp only [hfirst] at h
  obtain ⟨⟨target, b⟩, hplace, h⟩ := bind_eq_ok.mp h
  obtain ⟨hroom, rfl, rfl⟩ := place_eq_ok.mp hplace
  refine ⟨hroom, ?_⟩
  cases hinitial : d.initial with
  | none =>
    simp only [hinitial] at h
    obtain rfl := Except.ok.inj h
    exact ⟨[], by simp, by simp, rfl⟩
  | some expression =>
    simp only [hinitial] at h
    obtain ⟨file, hfile, h⟩ := bind_eq_ok.mp h
    obtain rfl := Except.ok.inj h
    exact ⟨[_], rfl, by simpa using hfile, rfl⟩

/-- Everything that a line can do: it declares a function or nothing at all, or it adds a
global. -/
theorem Allocation.topLine_cases {a a' : Allocation} {depth : Nat}
    (h : a.topLine current path line location = .ok (depth, a')) :
    (∃ declared, a' = { a with declared }) ∨
      ∃ d, a.addGlobal current path line location d = .ok a' := by
  unfold topLine at h
  obtain ⟨prototype, -, h⟩ := bind_eq_ok.mp h
  cases hknown : prototype.isSome with
  | true =>
    obtain ⟨-, rfl⟩ : _ ∧ a = a' := by simpa [hknown] using h
    exact .inl ⟨a.declared, rfl⟩
  | false =>
  simp only [hknown, Bool.false_eq_true, if_false] at h
  obtain ⟨external, -, h⟩ := bind_eq_ok.mp h
  cases external with
  | true =>
    obtain ⟨-, rfl⟩ : _ ∧ a = a' := by simpa using h
    exact .inl ⟨a.declared, rfl⟩
  | false =>
  simp only [Bool.false_eq_true, if_false] at h
  obtain ⟨start, -, h⟩ := bind_eq_ok.mp h
  cases start with
  | some name =>
    obtain ⟨-, rfl⟩ := Prod.mk.inj (Except.ok.inj h)
    exact .inl ⟨_, rfl⟩
  | none =>
  obtain ⟨d, -, h⟩ := bind_eq_ok.mp h
  cases d with
  | none =>
    obtain ⟨-, rfl⟩ := Prod.mk.inj (Except.ok.inj h)
    exact .inl ⟨a.declared, rfl⟩
  | some d =>
    obtain ⟨b, hb, h⟩ := bind_eq_ok.mp h
    obtain ⟨-, rfl⟩ := Prod.mk.inj (Except.ok.inj h)
    exact .inr ⟨d, hb⟩

end

/-- What holds along the lines of a file, if functions that are declared do not matter to it. -/
theorem Allocation.addLines_preserves {current : List String} {file : SourceFile}
    {P : Allocation → Prop} (hdeclared : ∀ a declared, P a → P { a with declared })
    {ls : List SourceLine}
    (hglobal : ∀ line ∈ ls, ∀ a d a', P a →
      a.addGlobal current file.path line (file.location line) d = .ok a' → P a')
    {depth : Nat} {a a' : Allocation} (h : P a) (ha : addLines current file depth a ls = .ok a') :
    P a' := by
  induction ls generalizing depth a with
  | nil =>
    cases depth <;> exact Except.ok.inj ha ▸ h
  | cons line rest ih =>
    rw [List.forall_mem_cons] at hglobal
    cases depth with
    | zero =>
      obtain ⟨⟨depth, b⟩, hb, ha⟩ := bind_eq_ok.mp ha
      refine ih hglobal.2 ?_ ha
      rcases topLine_cases (atLine_eq_ok.mp hb) with ⟨declared, rfl⟩ | ⟨d, hd⟩
      · exact hdeclared a declared h
      · exact hglobal.1 a d b h hd
    | succ depth => exact ih hglobal.2 h ha

def Options.Places (options : Options) (address : Int) : Prop :=
  options.zeroPageBase ≤ address ∧ address < zeroPageLimit

structure Allocation.Placed (options : Options) (a : Allocation) : Prop where
  next : options.zeroPageBase ≤ a.next
  globals : ∀ v ∈ a.globals, options.Places v.address
  initializers : ∀ i ∈ a.initializers, options.Places i.target.address

section

variable {options : Options} {a a' : Allocation}

theorem Allocation.Placed.place (h : a.Placed options) {name : String} {location : Location}
    {v : Variable} (ha : a.place name location = .ok (v, a')) :
    options.Places v.address ∧ a'.Placed options := by
  obtain ⟨hroom, rfl, rfl⟩ := place_eq_ok.mp ha
  have hnext := h.next
  exact ⟨⟨hnext, hroom⟩, ⟨by dsimp only; omega, h.globals, h.initializers⟩⟩

theorem Allocation.Placed.addGlobal (h : a.Placed options) {current : List String} {path : Path}
    {line : SourceLine} {location : Location} {d : Declaration}
    (ha : a.addGlobal current path line location d = .ok a') : a'.Placed options := by
  obtain ⟨hroom, added, rfl, hadded, -⟩ := addGlobal_eq_ok ha
  have hnext := h.next
  refine ⟨by dsimp only; omega, ?_, ?_⟩
  · refine List.forall_mem_append.mpr ⟨h.globals, ?_⟩
    simpa using ⟨hnext, hroom⟩
  · refine List.forall_mem_append.mpr ⟨h.initializers, fun i hi => ?_⟩
    rw [(hadded i hi).1]
    exact ⟨hnext, hroom⟩

theorem Allocation.Placed.addFiles {current : List String} {files : List SourceFile}
    (h : a.Placed options) (ha : files.foldlM (addFile current) a = .ok a') :
    a'.Placed options := by
  refine foldlM_preserves ?_ h ha
  intro a f a' _ h ha
  refine addLines_preserves ?_ ?_ h ha
  · exact fun a declared h => ⟨h.next, h.globals, h.initializers⟩
  · exact fun line _ a d a' h ha => h.addGlobal ha

end

end Toolchain6502.C
