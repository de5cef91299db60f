import Toolchain6502.Project.Build
import Toolchain6502.Proofs.Files.Changes
import Toolchain6502.Proofs.Source.IncludeGraph

namespace Toolchain6502

open Files Source

variable {t t' : Tree} {p root : Path}

namespace Source

theorem finds_eq_ok {found : Bool} : finds t p = .ok found ↔ t.finds p = .ok found :=
  failWith_eq_ok

theorem holds_of_finds {found : Bool} (h : finds t p = .ok found) : t.holds p = found :=
  (Tree.finds_eq_ok.mp (finds_eq_ok.mp h)).1

namespace Disk

variable {onFault : FileFault → Failure}

theorem bind_eq_ok {x : Disk α} {f : α → Disk β} {b : β} :
    (x >>= f) t = (.ok b, t') ↔ ∃ a t₁, x t = (.ok a, t₁) ∧ f a t₁ = (.ok b, t') := by
  rw [bind_apply]
  cases x t with
  | mk r t₁ =>
  cases r with
  | error e =>
    constructor
    · rintro ⟨⟩
    · rintro ⟨a, t₁, ⟨⟩, -⟩
  | ok a =>
    constructor
    · exact fun h => ⟨a, t₁, rfl, h⟩
    · rintro ⟨a, t₁, ⟨⟩, h⟩
      exact h

theorem look_eq_ok {f : Tree → Except Failure α} {a : α} :
    look f t = (.ok a, t') ↔ f t = .ok a ∧ t' = t := by
  constructor
  · intro h
    exact ⟨congrArg Prod.fst h, (congrArg Prod.snd h).symm⟩
  · rintro ⟨h, rfl⟩
    rw [look, h]

theorem exists_eq_ok {r : Except Failure α × Tree} {f : α → β} {b : β}
    (h : r.1.toOption.map f = some b) : ∃ a t', r = (.ok a, t') ∧ f a = b := by
  obtain ⟨a, ha, hb⟩ := Option.map_eq_some_iff.mp h
  exact ⟨a, r.2, Prod.ext (eq_ok_of_toOption ha) rfl, hb⟩

/-- A look at the tree leaves it as it is. -/
theorem look_bind_eq_ok {f : Tree → Except Failure α} {g : α → Disk β} {b : β} :
    (look f >>= g) t = (.ok b, t') ↔ ∃ a, f t = .ok a ∧ g a t = (.ok b, t') := by
  rw [bind_eq_ok]
  constructor
  · rintro ⟨a, t₁, hlook, h⟩
    obtain ⟨ha, rfl⟩ := look_eq_ok.mp hlook
    exact ⟨a, ha, h⟩
  · rintro ⟨a, ha, h⟩
    exact ⟨a, t, look_eq_ok.mpr ⟨ha, rfl⟩, h⟩

theorem attempt_eq_ok {work : Tree → Except FileFault Unit × Tree} {u : Unit} :
    attempt onFault p work t = (.ok u, t') ↔ p.hasNull = false ∧ work t = (.ok (), t') := by
  unfold attempt
  cases p.hasNull with
  | true =>
    constructor
    · rintro ⟨⟩
    · rintro ⟨⟨⟩, -⟩
  | false =>
    simp only [Bool.false_eq_true, if_false, true_and]
    cases work t with
    | mk r t₁ =>
      cases r with
      | error e =>
        constructor
        · rintro ⟨⟩
        · rintro ⟨⟩
      | ok u =>
        constructor
        · rintro ⟨⟩
          rfl
        · rintro ⟨⟩
          rfl

theorem ensureDirectories_eq_ok {u : Unit} :
    ensureDirectories onFault p t = (.ok u, t') ↔
      p.hasNull = false ∧ t.ensureDirectories p = (.ok (), t') :=
  attempt_eq_ok

theorem writeBytes_eq_ok {bytes : List UInt8} {u : Unit} :
    writeBytes onFault p bytes t = (.ok u, t') ↔
      p.hasNull = false ∧ t.write p bytes = (.ok (), t') :=
  attempt_eq_ok

theorem writeText_eq_ok {text : String} {u : Unit} :
    writeText onFault p text t = (.ok u, t') ↔
      p.hasNull = false ∧ t.write p (Text.encodeUtf8 text.toList) = (.ok (), t') :=
  writeBytes_eq_ok

end Disk

end Source

namespace Project

def Paths.ofRoot (t : Tree) (root : Path) : Paths :=
  .under root (if !t.holds (root.child "src") && t.holds (root.child "asm") then root.child "asm"
    else root.child "src")

theorem Paths.find_eq_ok {ps : Paths} :
    Paths.find t root = .ok ps ↔ ps = .ofRoot t root ∧
      (∃ found, finds t (root.child "src") = .ok found) ∧
      (t.holds (root.child "src") = false → ∃ found, finds t (root.child "asm") = .ok found) := by
  unfold find ofRoot
  cases hsrc : finds t (root.child "src") with
  | error e => simp [hsrc]
  | ok found =>
    rw [holds_of_finds hsrc]
    cases found with
    | true => simp [hsrc, eq_comm]
    | false =>
      cases hasm : finds t (root.child "asm") with
      | error e => simp [hsrc, hasm]
      | ok older =>
        rw [holds_of_finds hasm]
        cases older <;> simp [hsrc, hasm, eq_comm]

end Project

end Toolchain6502
