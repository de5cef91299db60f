import Toolchain6502.Proofs.Files.Changes
import Toolchain6502.Proofs.Source.Expansion

namespace Toolchain6502

open Files Text

namespace Files.Tree

variable {t t' : Tree} {p : Path} {paths : List Path}

/-- A file that no path of the written ones leads to is read as before. -/
theorem KeepsFiles.read (h : t.KeepsFiles paths t') {bytes : List UInt8}
    (hread : t.read p = .ok bytes) (hother : ∀ q ∈ paths, t'.place q ≠ t'.place p) :
    t'.read p = .ok bytes := by
  rw [read_eq_ok] at hread ⊢
  obtain ⟨place, hplace, hnode⟩ := bind_eq_ok.mp hread
  have hplace' := h.place hplace
  have hkept : t'.file? place = t.file? place :=
    h.files place fun q hq hq' => hother q hq (hq'.trans hplace'.symm)
  have hfile : t.file? place = some bytes := by
    unfold file?
    split at hnode <;> simp_all
  rw [hfile] at hkept
  unfold file? at hkept
  split at hkept
  · next found hfound =>
    obtain rfl := Option.some.inj hkept
    simp [stat, hplace', hfound]
  · simp at hkept

end Files.Tree

namespace Source

variable {t t' : Tree} {p : Path} {paths : List Path} {text : String}

theorem readText_of_kept (h : t.KeepsFiles paths t') {onFault : FileFault → Failure}
    (hread : readText t onFault p = .ok text) (hother : ∀ q ∈ paths, t'.place q ≠ t'.place p) :
    readText t' onFault p = .ok text := by
  obtain ⟨hnull, bytes, chars, hbytes, hchars, rfl⟩ := readText_eq_ok.mp hread
  exact readText_eq_ok.mpr ⟨hnull, bytes, chars, h.read hbytes hother, hchars, rfl⟩

/-- What is included need only be expanded where it was before. -/
theorem expandLines_of_included {f g : List Path → Path → Except Failure Expanded} {u : Piece}
    {c : Path} {visited : List Path} {number : Nat} {ls : List String} {r : Expanded}
    (hincluded : ∀ line ∈ ls, isInclude line.toList = true → ∀ p, u.target? line = some p →
      ∀ visited r, f visited p = .ok r → g visited p = .ok r)
    (h : expandLines f u.base c visited number ls = .ok r) :
    expandLines g u.base c visited number ls = .ok r := by
  induction ls generalizing visited number r with
  | nil => exact h
  | cons line rest ih =>
    obtain ⟨hline, hrest⟩ := List.forall_mem_cons.mp hincluded
    obtain ⟨⟨first, between⟩, hfirst, h⟩ := bind_eq_ok.mp h
    obtain ⟨⟨others, after⟩, hothers, h⟩ := bind_eq_ok.mp h
    refine bind_eq_ok.mpr ⟨(first, between), ?_, bind_eq_ok.mpr ⟨(others, after), ?_, h⟩⟩
    · rw [expandLine_eq_ok] at hfirst ⊢
      refine hfirst.imp_right fun ⟨hinclude, p, htarget, hp⟩ => ?_
      exact ⟨hinclude, p, htarget, hline hinclude p htarget visited _ hp⟩
    · exact ih hrest hothers

/-- An expansion is repeated in a tree where every included file reads the same, below the same
depth or a greater one. -/
theorem expandWithin_of_kept (hcurrent : t'.current = t.current) {depth depth' : Nat}
    (hdepth : depth ≤ depth') {visited after : List Path} {u : Piece} {out : List TracedLine}
    (hkept : ∀ w v, Reaches t u w → Includes t w v → readIncluded t' v.file = .ok v.text)
    (h : expandWithin t depth visited u.base u.file u.text = .ok (out, after)) :
    expandWithin t' depth' visited u.base u.file u.text = .ok (out, after) := by
  have hcanonical (u : Piece) : u.canonical t' = u.canonical t := by
    rw [Piece.canonical, hcurrent, Piece.canonical]
  induction depth generalizing depth' visited after u out with
  | zero =>
    obtain ⟨-, -, d, left, hd, -⟩ := expandWithin_eq_ok.mp h
    simp at hd
  | succ depth ih =>
    obtain ⟨hnull, hfresh, d, left, hd, hlines, hafter⟩ := expandWithin_eq_ok.mp h
    obtain rfl := Nat.succ.inj hd
    obtain ⟨depth', rfl⟩ : ∃ k, depth' = k + 1 := ⟨depth' - 1, by omega⟩
    rw [expandWithin_eq_ok, hcanonical]
    refine ⟨hnull, hfresh, depth', left, rfl, expandLines_of_included ?_ hlines, hafter⟩
    rintro line hmem hinclude p htarget visited ⟨out, after⟩ hp
    obtain ⟨text, hread, hp⟩ := expandIncluded_eq_ok.mp hp
    have hincludes : Includes t u (.ofFile p text) :=
      ⟨line, Piece.mem_directives.mpr ⟨hmem, hinclude⟩, p, text, htarget, hread, rfl⟩
    refine expandIncluded_eq_ok.mpr ⟨text, hkept u _ .refl hincludes, ?_⟩
    exact ih (u := .ofFile p text) (by omega) (fun w v hw => hkept w v (.head hincludes hw)) hp

/-- The texts that a file is expanded from. -/
def Gathers (t : Tree) (p : Path) (u : Piece) : Prop :=
  ∃ text, readIncluded t p = .ok text ∧ Reaches t (.ofFile p text) u

theorem Gathers.readIncluded {u : Piece} (h : Gathers t p u) :
    readIncluded t u.file = .ok u.text := by
  obtain ⟨text, htext, hreaches⟩ := h
  cases hreaches with
  | refl => exact htext
  | tail _ hincludes =>
    obtain ⟨-, -, q, text, -, hread, rfl⟩ := hincludes
    exact hread

/-- A text without directives is expanded from its own file alone. -/
theorem Gathers.file_eq {u : Piece} (h : Gathers t p u)
    (hnone : ∀ text, Source.readIncluded t p = .ok text → (Piece.ofFile p text).directives = []) :
    u.file = p := by
  obtain ⟨text, htext, hreaches⟩ := h
  rcases Relation.ReflTransGen.cases_head hreaches with rfl | ⟨_, ⟨line, hline, -⟩, -⟩
  · rfl
  · simp [hnone text htext] at hline

/-- A file is expanded as before, if none of the texts that it is expanded from was written. -/
theorem expandFile_of_kept (h : t.KeepsFiles paths t')
    (hlength : t.entries.length ≤ t'.entries.length) {unit : Traced}
    (hother : ∀ u, Gathers t p u → ∀ q ∈ paths, t'.place q ≠ t'.place u.file)
    (hexpand : expandFile t [] p = .ok unit) : expandFile t' [] p = .ok unit := by
  have hkept {u : Piece} (hu : Gathers t p u) : readIncluded t' u.file = .ok u.text :=
    readText_of_kept h hu.readIncluded (hother u hu)
  obtain ⟨⟨unit', after⟩, hvisiting, hunit⟩ := bind_eq_ok.mp hexpand
  obtain ⟨text, hread, hvisiting⟩ := bind_eq_ok.mp hvisiting
  obtain ⟨ls, hls, rfl⟩ := (expandVisiting_eq_ok (u := .ofFile p text)).mp hvisiting
  have hdepth : includeDepth t ≤ includeDepth t' := by
    unfold includeDepth
    omega
  have hls' := expandWithin_of_kept (u := .ofFile p text) h.current hdepth
    (fun w v hw hv => hkept ⟨text, hread, hw.tail hv⟩) hls
  refine bind_eq_ok.mpr ⟨(.ofLines ls, after), bind_eq_ok.mpr ⟨text, ?_, ?_⟩, hunit⟩
  · exact hkept ⟨text, hread, .refl⟩
  · exact (expandVisiting_eq_ok (u := .ofFile p text)).mpr ⟨ls, hls', rfl⟩

end Source

end Toolchain6502
