import Toolchain6502.Proofs.Project.Stages

namespace Toolchain6502

open Files Source

namespace Source.Disk

/-- Whether it succeeds or fails, work on a tree writes no file but those at some paths. -/
def WritesOnly (paths : List Path) (x : Disk α) : Prop :=
  ∀ t : Tree, t.KeepsFiles paths (x t).2

variable {t : Tree} {paths : List Path}

theorem keepsFiles_bind {x : Disk α} {f : α → Disk β} (hx : t.KeepsFiles paths (x t).2)
    (hf : ∀ a t₁, x t = (.ok a, t₁) → t₁.KeepsFiles paths (f a t₁).2) :
    t.KeepsFiles paths ((x >>= f) t).2 := by
  rw [bind_apply]
  split
  · rename_i a t₁ hrun
    rw [hrun] at hx
    exact hx.trans (hf a t₁ hrun)
  · rename_i e t₁ hrun
    rw [hrun] at hx
    exact hx

namespace WritesOnly

theorem bind {x : Disk α} {f : α → Disk β} (hx : WritesOnly paths x)
    (hf : ∀ a, WritesOnly paths (f a)) : WritesOnly paths (x >>= f) :=
  fun t => keepsFiles_bind (hx t) fun a t₁ _ => hf a t₁

theorem pure (a : α) : WritesOnly paths (pure a) :=
  fun t => .refl paths t

theorem look (f : Tree → Except Failure α) : WritesOnly paths (look f) :=
  fun t => .refl paths t

theorem attempt {onFault : FileFault → Failure} {p : Path}
    {work : Tree → Except FileFault Unit × Tree} (h : ∀ t : Tree, t.KeepsFiles paths (work t).2) :
    WritesOnly paths (attempt onFault p work) := by
  intro t
  unfold Disk.attempt
  split
  · exact .refl paths t
  · exact h t

theorem ensureDirectories (onFault : FileFault → Failure) (p : Path) :
    WritesOnly paths (ensureDirectories onFault p) :=
  .attempt fun _ => (Tree.keepsFiles_of_ensureDirectories rfl).mono (List.nil_subset paths)

theorem writeText (onFault : FileFault → Failure) {p : Path} (hp : p ∈ paths) (text : String) :
    WritesOnly paths (writeText onFault p text) :=
  .attempt fun t => (Tree.keepsFiles_write t p _).mono (by simpa using hp)

end WritesOnly

theorem writeBytes_cases (onFault : FileFault → Failure) (p : Path) (bytes : List UInt8) (t : Tree) :
    (∃ e, writeBytes onFault p bytes t = (.error e, t)) ∨
      ∃ place, t.place p = .ok place ∧ t.node? place ≠ some .directory ∧
        writeBytes onFault p bytes t =
          (if t.fits place bytes then .ok () else .error (onFault .noSpace),
            t.put place (.file (t.taken place bytes))) := by
  unfold writeBytes attempt
  split
  · exact .inl ⟨_, rfl⟩
  dsimp only
  obtain ⟨f, hwrite⟩ | ⟨place, hplace, hfile, hwrite⟩ := Tree.write_cases t p bytes
  · exact .inl ⟨onFault f, by rw [hwrite]; rfl⟩
  · refine .inr ⟨place, hplace, hfile, ?_⟩
    rw [hwrite]
    cases t.fits place bytes <;> rfl

end Source.Disk

namespace Project

open Disk

def Paths.headerFiles (ps : Paths) : List Path :=
  [ps.headers.child assemblyHeaderName, ps.headers.child cHeaderName]

theorem writeHeaders_writesOnly (ps : Paths) (constants sprites : List Machine.Constant) :
    WritesOnly ps.headerFiles (writeHeaders ps.headers constants sprites) :=
  .bind (.ensureDirectories _ _) fun _ =>
  .bind (.look _) fun _ =>
  .bind (.writeText _ (by simp [Paths.headerFiles]) _) fun _ =>
  .bind (.look _) fun _ =>
  .bind (.writeText _ (by simp [Paths.headerFiles]) _) fun _ => .pure _

theorem assembleProject_keepsFiles (root : Path) (config : Option Machine.Config) (t : Tree) :
    t.KeepsFiles (Paths.ofRoot t root).headerFiles (assembleProject root config t).2 := by
  refine keepsFiles_bind (.refl _ t) fun ps t hlook => ?_
  obtain ⟨hps, rfl⟩ := look_eq_ok.mp hlook
  obtain ⟨rfl, -⟩ := Paths.find_eq_ok.mp hps
  -- A configuration that is given and one that is read go on in the same way.
  have hrest (config : Machine.Config) :
      WritesOnly (Paths.ofRoot t root).headerFiles
        (look (fun _ => failWith .machine config.layout) >>= fun layout =>
          writeHeaders (Paths.ofRoot t root).headers layout.system layout.sprites >>= fun _ =>
          look (fun t' => collect t' (Paths.ofRoot t root) layout.constants) >>= fun unit =>
          look (fun t' => assembleMerged t' root layout.memory.ram unit) >>= fun image =>
          look (fun _ => originMap image.lineMap unit.origins) >>= fun origins =>
          pure (⟨unit, image, layout.memory.ram.toNat, origins⟩ : Artifacts)) :=
    .bind (.look _) fun _ =>
    .bind (writeHeaders_writesOnly _ _ _) fun _ =>
    .bind (.look _) fun _ =>
    .bind (.look _) fun _ =>
    .bind (.look _) fun _ => .pure _
  cases config with
  | some config => exact keepsFiles_bind (WritesOnly.pure config t) fun config t₁ _ => hrest config t₁
  | none => exact keepsFiles_bind (WritesOnly.look _ t) fun config t₁ _ => hrest config t₁

/-- What the last step of a build can do. A program for which there is not enough room leaves its
first bytes. -/
theorem writeProgram_cases {onFault : FileFault → Failure} {target : Path} {a : Artifacts}
    {t t' : Tree} {result : Except Failure Artifacts}
    (h : (do
      ensureDirectories onFault target.parent
      writeBytes onFault target a.program
      return a : Disk Artifacts) t = (result, t')) :
    (∃ e, result = .error e ∧ t.KeepsFiles [] t') ∨
      (∃ place size, result = .error (onFault .noSpace) ∧ t.KeepsFiles [target] t' ∧
        t'.place target = .ok place ∧ t.room place = some size ∧ size < a.program.length ∧
        t'.read target = .ok (a.program.take size)) ∨
      (result = .ok a ∧ t.KeepsFiles [target] t' ∧ t'.read target = .ok a.program) := by
  have hdirectories : t.KeepsFiles [] (ensureDirectories onFault target.parent t).2 :=
    WritesOnly.ensureDirectories onFault target.parent t
  rw [bind_apply] at h
  split at h
  case h_2 e t₁ hfailed =>
    obtain ⟨rfl, rfl⟩ := Prod.mk.inj h
    rw [hfailed] at hdirectories
    exact .inl ⟨e, rfl, hdirectories⟩
  case h_1 t₁ hmade =>
  rw [hmade] at hdirectories
  have hbefore := hdirectories.mono (List.nil_subset [target])
  rw [bind_apply] at h
  obtain ⟨e, hwrite⟩ | ⟨place, hplace, hfile, hwrite⟩ :=
    writeBytes_cases onFault target a.program t₁
  · rw [hwrite] at h
    obtain ⟨rfl, rfl⟩ := Prod.mk.inj h
    exact .inl ⟨e, rfl, hdirectories⟩
  -- The file is open, and from here on the old program is gone, whether or not the new one fits.
  obtain ⟨hkeeps, hread⟩ := Tree.keepsFiles_put hplace hfile (t₁.taken place a.program)
  rw [hwrite] at h
  cases hfits : t₁.fits place a.program with
  | true =>
    rw [hfits] at h
    obtain ⟨rfl, rfl⟩ := Prod.mk.inj h
    rw [Tree.taken_of_fits hfits] at hread hkeeps ⊢
    exact .inr (.inr ⟨rfl, hbefore.trans hkeeps, hread⟩)
  | false =>
    rw [hfits] at h
    obtain ⟨rfl, rfl⟩ := Prod.mk.inj h
    obtain ⟨size, hroom, hsize, htaken⟩ := Tree.exists_room_of_not_fits hfits
    rw [htaken] at hread hkeeps ⊢
    exact .inr (.inl ⟨place, size, rfl, hbefore.trans hkeeps, hkeeps.place hplace,
      hdirectories.room ▸ hroom, hsize, hread⟩)

/-- The program is written by the last step, and only if all steps before it succeed. A build that
fails leaves every file but the headers as it was, unless there is less room for the program than it
needs: then the file that held the old one holds the first bytes of the new one. -/
theorem buildProject_failure_keeps_files {root : Path} {output : Option Path}
    {config : Option Machine.Config} {t t' : Tree} {result : Except Failure Artifacts}
    (h : buildProject root output config t = (result, t')) :
    let ps := Paths.ofRoot t root
    let target := output.getD ps.program
    (∀ e, result = .error e →
      (∀ place, (∀ p ∈ ps.headerFiles, t'.place p ≠ .ok place) → t'.file? place = t.file? place) ∨
      ∃ a place size, (assembleProject root config t).1 = .ok a ∧
        e = .project (.cannotWrite target .noSpace) ∧ t'.place target = .ok place ∧
        t.room place = some size ∧ size < a.program.length ∧
        t'.read target = .ok (a.program.take size) ∧
        ∀ other, (∀ p ∈ target :: ps.headerFiles, t'.place p ≠ .ok other) →
          t'.file? other = t.file? other) ∧
    (∀ artifacts, result = .ok artifacts → t'.read target = .ok artifacts.program ∧
      ∀ place, (∀ p ∈ target :: ps.headerFiles, t'.place p ≠ .ok place) →
        t'.file? place = t.file? place) := by
  intro ps target
  have hassembled := assembleProject_keepsFiles root config t
  have hbefore := hassembled.mono (List.subset_cons_self target ps.headerFiles)
  have honly : [target] ⊆ target :: ps.headerFiles := by simp
  rw [buildProject, bind_apply] at h
  split at h
  case h_2 e t₁ hfailed =>
    obtain ⟨rfl, rfl⟩ := Prod.mk.inj h
    obtain rfl : t = t₁ := congrArg Prod.snd hfailed
    exact ⟨fun _ _ => .inl fun _ _ => rfl, fun _ hok => by cases hok⟩
  case h_1 found t₁ hlook =>
  obtain ⟨hfound, rfl⟩ := look_eq_ok.mp hlook
  obtain ⟨rfl, -⟩ := Paths.find_eq_ok.mp hfound
  rw [bind_apply] at h
  split at h
  case h_2 e t₂ hfailed =>
    rw [hfailed] at hassembled
    obtain ⟨rfl, rfl⟩ := Prod.mk.inj h
    exact ⟨fun _ _ => .inl hassembled.files, fun _ hok => by cases hok⟩
  case h_1 artifacts t₂ hok =>
  rw [hok] at hassembled hbefore
  rcases writeProgram_cases h with ⟨e, rfl, hkeeps⟩ |
    ⟨place, size, rfl, hkeeps, hplace, hroom, hsize, hread⟩ | ⟨rfl, hkeeps, hread⟩
  · have hall := hassembled.trans (hkeeps.mono (List.nil_subset _))
    exact ⟨fun _ _ => .inl hall.files, fun _ hok => by cases hok⟩
  · refine ⟨fun _ hfailed => .inr ?_, fun _ hok => by cases hok⟩
    obtain rfl := Except.error.inj hfailed
    exact ⟨artifacts, place, size, congrArg Prod.fst hok, rfl, hplace, hassembled.room ▸ hroom,
      hsize, hread, (hbefore.trans (hkeeps.mono honly)).files⟩
  · refine ⟨fun _ hfailed => (by cases hfailed), fun _ hsame => ?_⟩
    obtain rfl := Except.ok.inj hsame
    exact ⟨hread, (hbefore.trans (hkeeps.mono honly)).files⟩

/-- A project with the program of an earlier build, and a source that cannot be assembled. -/
def brokenProject : Tree where
  entries := [(["w"], .directory), (["w", "src"], .directory), (["w", "build"], .directory),
    (["w", "src", "main.asm"], .file (Text.encodeUtf8 "Start: JMP Lost\n".toList)),
    (["w", "build", "program.bin"], .file [0xEA, 0x60])]
  current := ["w"]

theorem brokenProject_keeps_program :
    ∃ e t', buildProject (Path.ofText ".") none (some {}) brokenProject = (.error e, t') ∧
      t'.file? ["w", "src", "include", "chipcade.h"] ≠ none ∧
      t'.file? ["w", "build", "program.bin"] = some [0xEA, 0x60] := by
  have hends : let r := buildProject (Path.ofText ".") none (some {}) brokenProject
      r.1.toOption.isNone ∧ r.2.file? ["w", "src", "include", "chipcade.h"] ≠ none ∧
        ∀ p ∈ (Paths.ofRoot brokenProject (Path.ofText ".")).headerFiles,
          r.2.place p ≠ .ok ["w", "build", "program.bin"] := by decide +kernel
  obtain ⟨⟨result, t'⟩, hrun⟩ : ∃ r, buildProject (Path.ofText ".") none (some {}) brokenProject = r :=
    ⟨_, rfl⟩
  rw [hrun] at hends
  obtain ⟨hfailed, hheader, hother⟩ := hends
  obtain ⟨e, he⟩ := exists_eq_error_of_isNone hfailed
  have hkept := (buildProject_failure_keeps_files hrun).1 e he
  refine ⟨e, t', hrun.trans (congrArg (·, t') he), hheader, ?_⟩
  rcases hkept with hkept | ⟨_, _, _, -, -, -, hroom, -⟩
  · exact (hkept _ hother).trans (by decide)
  · simp [brokenProject] at hroom

/-- The same project with a source that can be assembled, and no room for the new program. -/
def fullProject : Tree where
  entries := [(["w"], .directory), (["w", "src"], .directory), (["w", "build"], .directory),
    (["w", "src", "main.asm"], .file (Text.encodeUtf8 "Start: RTS\n".toList)),
    (["w", "build", "program.bin"], .file [0xEA, 0x60])]
  current := ["w"]
  room place := if place = ["w", "build", "program.bin"] then some 0 else none

theorem fullProject_loses_program :
    fullProject.file? ["w", "build", "program.bin"] = some [0xEA, 0x60] ∧
    ∃ e t', buildProject (Path.ofText ".") none (some {}) fullProject = (.error e, t') ∧
      t'.file? ["w", "build", "program.bin"] = some [] := by
  have hends : let r := buildProject (Path.ofText ".") none (some {}) fullProject
      r.1.toOption.isNone ∧ r.2.file? ["w", "build", "program.bin"] = some [] := by decide +kernel
  obtain ⟨⟨result, t'⟩, hrun⟩ : ∃ r, buildProject (Path.ofText ".") none (some {}) fullProject = r :=
    ⟨_, rfl⟩
  rw [hrun] at hends
  obtain ⟨e, he⟩ := exists_eq_error_of_isNone hends.1
  exact ⟨by decide, e, t', hrun.trans (congrArg (·, t') he), hends.2⟩

end Project

end Toolchain6502
