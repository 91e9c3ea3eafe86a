import SmaliBuild.Proofs.Conversion.Course
/-!
# What a run changes by itself

Between the calls of its tools a run changes nothing.  Before the first call it may replace the
manifest, and after the last, if the tools all did their work, the sweep removes entries at and below
the artifacts.
-/
namespace SmaliBuild.Conversion
open Host FileSystem

/-- What the listing of the sources makes of the files `a`: nothing, or a new manifest.  If no new one
can be made, the old one may be gone, and then this is what the run reports. -/
inductive Relisted (dir : Location) (t : Input) (a b : FileSystem) (visits : List Visit)
    (answer : Except Failure Conversion) : Prop
  | same : b = a → Relisted dir t a b visits answer
  | replaced : t.isDirectory = true → Manifest.Replaces dir t.workspace.manifest a b →
      Relisted dir t a b visits answer
  | dropped {e} : t.isDirectory = true → Manifest.Drops dir t.workspace.manifest a b →
      visits = [] → answer = .error (.manifestCreation t.workspace.manifest e) →
      Relisted dir t a b visits answer

/-- A location is at or below where one of the artifacts is, a final link not followed. -/
def AtArtifact (fs : FileSystem) (dir : Location) (t : Input) (l : Location) : Prop :=
  ∃ q ∈ t.workspace.artifacts t.compiled, ∃ r, fs.locate dir false q = .ok r ∧ r <:+ l

variable {tools : Toolchain} {optimize : Bool} {t : Input} {h : Host}

theorem directory_begun (t : Input) (h : Host) : (begun t h).directory = h.directory := rfl

theorem steady_listing (t : Input) (h : Host) :
    (begun t h).Steady ((begun t h).run (listing t)).2 := by
  cases t with
  | sourceFile p => exact .refl _
  | sourceDirectory d =>
    rw [run_listing_directory]
    exact (Manifest.build_replaces _ _ _).1

/-- Whatever comes of the listing, the files are those that were there, with another manifest, or at
most without one. -/
theorem listing_cases (t : Input) (h : Host) :
    ((begun t h).run (listing t)).2.files = h.files ∨ t.isDirectory = true ∧
      (Manifest.Replaces h.directory t.workspace.manifest h.files
          ((begun t h).run (listing t)).2.files ∨
        Manifest.Drops h.directory t.workspace.manifest h.files
          ((begun t h).run (listing t)).2.files) := by
  cases t with
  | sourceFile p => exact Or.inl rfl
  | sourceDirectory d =>
    rw [run_listing_directory]
    have hbuild := (Manifest.build_replaces d (Input.sourceDirectory d).workspace.manifest
      (begun (.sourceDirectory d) h)).2
    cases hm : ((begun (.sourceDirectory d) h).run
        (Manifest.build d (Input.sourceDirectory d).workspace.manifest)).1 with
    | ok m =>
      rw [hm] at hbuild
      exact Or.inr ⟨rfl, Or.inl hbuild.2⟩
    | error e =>
      rw [hm] at hbuild
      exact hbuild.imp_right fun hdrops => ⟨rfl, Or.inr hdrops.1⟩

theorem replaces_of_ok {m : Option Manifest} (hm : ((begun t h).run (listing t)).1 = .ok m)
    (hd : t.isDirectory = true) : Manifest.Replaces h.directory t.workspace.manifest h.files
      ((begun t h).run (listing t)).2.files := by
  cases t with
  | sourceFile p => cases hd
  | sourceDirectory d =>
    rw [run_listing_directory] at hm ⊢
    have hbuild := (Manifest.build_replaces d (Input.sourceDirectory d).workspace.manifest
      (begun (.sourceDirectory d) h)).2
    generalize (begun (.sourceDirectory d) h).run
      (Manifest.build d (Input.sourceDirectory d).workspace.manifest) = out at hm hbuild ⊢
    obtain ⟨answer', h'⟩ := out
    cases answer' with
    | ok m => exact hbuild.2
    | error e => cases hm

theorem relisted_of_ok {m : Option Manifest} (hm : ((begun t h).run (listing t)).1 = .ok m)
    (visits : List Visit) (answer : Except Failure Conversion) :
    Relisted h.directory t h.files ((begun t h).run (listing t)).2.files visits answer := by
  cases t with
  | sourceFile p => exact .same rfl
  | sourceDirectory d => exact .replaced rfl (replaces_of_ok hm rfl)

theorem relisted_of_error {f : Failure} (hf : ((begun t h).run (listing t)).1 = .error f) :
    Relisted h.directory t h.files ((begun t h).run (listing t)).2.files [] (.error f) := by
  cases t with
  | sourceFile p => cases hf
  | sourceDirectory d =>
    rw [run_listing_directory] at hf ⊢
    have hbuild := (Manifest.build_replaces d (Input.sourceDirectory d).workspace.manifest
      (begun (.sourceDirectory d) h)).2
    generalize (begun (.sourceDirectory d) h).run
      (Manifest.build d (Input.sourceDirectory d).workspace.manifest) = out at hf hbuild ⊢
    obtain ⟨answer', h'⟩ := out
    cases answer' with
    | ok m => cases hf
    | error e =>
      obtain rfl := Except.error.inj hf
      rcases hbuild with hsame | ⟨hdrops, e, rfl⟩
      · exact .same hsame
      · exact .dropped rfl hdrops rfl rfl

/-- All that a run changes outside of its tools: the manifest before them, and after them, if none
of them failed, entries at or below the artifacts. -/
theorem run_frame (tools : Toolchain) (optimize : Bool) (t : Input) (h : Host) :
    let out := h.run (run tools optimize t)
    ∃ listed visits left,
      out.2.journal.calls = h.journal.calls ++ visits.map Visit.record ∧
      Relisted h.directory t h.files listed visits out.1.1 ∧
      tools.Linked listed visits left ∧
      match out.1.1 with
      | .error _ => out.2.files = left
      | .ok _ => visits.map (·.request) = t.requests optimize ∧
        (∀ v ∈ visits, tools.refusal t v.request v.found = none) ∧
        Trims (AtArtifact left h.directory t) left out.2.files := by
  have hcourse := run_course tools optimize t h
  have hcalls := calls_listing (t := t) h
  dsimp only at hcourse ⊢
  cases hl : ((begun t h).run (listing t)).1 with
  | error e =>
    rw [hl] at hcourse
    obtain ⟨hout, -, hvisit⟩ := hcourse
    rw [hout]
    refine ⟨((begun t h).run (listing t)).2.files, [], _, ?_, relisted_of_error hl, .nil, hvisit.files⟩
    rw [hvisit.calls, hcalls]
  | ok m =>
    rw [hl] at hcourse
    obtain ⟨h₁, hvisit, hstop⟩ := hcourse
    have hsteady := steady_listing t h
    have hrelisted := relisted_of_ok hl (h := h)
    refine ⟨((begun t h).run (listing t)).2.files,
      (tools.course t (t.requests optimize) ((begun t h).run (listing t)).2.files).visits,
      (tools.course t (t.requests optimize) ((begun t h).run (listing t)).2.files).files,
      calls_run hl tools optimize, hrelisted _ _,
      Toolchain.course_linked tools t (t.requests optimize) _, ?_⟩
    · cases hs : (tools.course t (t.requests optimize)
          ((begun t h).run (listing t)).2.files).stop with
      | some e =>
        rw [hs] at hstop
        rw [hstop.1]
        exact hstop.2.2.files.trans hvisit.files
      | none =>
        rw [hs] at hstop
        obtain ⟨log, -, hout, hfinal⟩ := hstop
        obtain ⟨hrequests, hmet⟩ := Toolchain.course_of_stop_none hs
        have hgoes := Sweep.run_goes t.workspace t.compiled h₁
        rw [hout]
        refine ⟨hrequests, hmet, ?_⟩
        rw [hfinal.files, ← hvisit.files]
        refine hgoes.trims.mono fun m ⟨q, hq, hm⟩ => ?_
        obtain ⟨r, hr, hsuffix⟩ := hm.located
        rw [hvisit.directory, hsteady.directory] at hr
        exact ⟨q, hq, r, hr, hsuffix⟩

/-! ## A manifest that the path to it runs through -/

/-- A toolchain none of whose programs is there. -/
def absentTools : Toolchain where
  compile _ fs := ⟨.error (.toolchainMissing .compiler "javac"), fs, []⟩
  package _ fs := ⟨.error (.toolchainMissing .packager "dx"), fs, []⟩
  disassemble _ fs := ⟨.error (.toolchainMissing .disassembler "baksmali"), fs, []⟩

def manifestEntry : Name := ⟨OsString.ofString manifestName, by decide⟩

def libraryEntry : Name := ⟨.ofString "lib", by decide⟩

def sourceEntry : Name := ⟨.ofString "src", by decide⟩

/-- Two directories, and a link to one of them under the name of a manifest. -/
def linkedFiles : FileSystem :=
  .flat [(libraryEntry, .directory), (sourceEntry, .directory),
    (manifestEntry, .link (.ofString "lib"))] (by decide)

def linkedInput : Path := .ofString "/FilesList.txt/../src"

def linkedManifest : Path := .ofString "/FilesList.txt/../FilesList.txt"

/-- Clearing the path of a manifest may cut that path off, and then no new manifest takes the place of
what was removed. -/
theorem run_unlinks_manifest :
    let h := Host.sound linkedFiles []
    let t := Input.sourceDirectory linkedInput
    let out := h.run (run absentTools false t)
    (h.run (Input.resolve linkedInput)).1 = .ok t ∧
      out.1.1 = .error (.manifestCreation t.workspace.manifest (.os Errno.noEntry)) ∧
      out.2.journal.calls = [] ∧
      h.files.get? [manifestEntry] = some (.link (.ofString "lib")) ∧
      out.2.files.get? [manifestEntry] = none ∧
      ¬ Manifest.Replaces h.directory t.workspace.manifest h.files out.2.files := by
  have hresolve : ((Host.sound linkedFiles []).run (Input.resolve linkedInput)).1 =
      .ok (.sourceDirectory linkedInput) := by cbv
  have hmanifest : (Input.sourceDirectory linkedInput).workspace.manifest = linkedManifest := by cbv
  have hsite : linkedFiles.site? [] linkedManifest = some [manifestEntry] := by cbv
  have hlink : linkedFiles.get? [manifestEntry] = some (.link (.ofString "lib")) := by cbv
  have hslash : linkedManifest.endsWithSlash = false := by cbv
  have hunlink : linkedFiles.unlink [] linkedManifest = .ok (linkedFiles.prune [manifestEntry]) :=
    unlink_eq_ok_iff.2 ⟨_, _, hsite, hlink, by simp, hslash, rfl⟩
  have hcreate : (linkedFiles.prune [manifestEntry]).createFile [] linkedManifest =
      .error (.os Errno.noEntry) := by cbv
  have hgone : (linkedFiles.prune [manifestEntry]).get? [manifestEntry] = none := by cbv
  dsimp only
  have hbuild := Manifest.build_cut linkedInput linkedManifest
    (begun (.sourceDirectory linkedInput) (Host.sound linkedFiles [])) (fun _ => rfl) rfl hunlink
    hcreate
  have hcourse := run_course absentTools false (.sourceDirectory linkedInput)
    (Host.sound linkedFiles [])
  have hcalls := calls_listing (t := .sourceDirectory linkedInput) (Host.sound linkedFiles [])
  dsimp only at hcourse
  rw [run_listing_directory, hmanifest] at hcourse hcalls
  rw [hbuild.1] at hcourse
  obtain ⟨hout, -, hvisit⟩ := hcourse
  rw [hbuild.2] at hvisit
  refine ⟨hresolve, ?_, ?_, hlink, ?_, ?_⟩
  · rw [hout, hmanifest]
  · rw [hvisit.calls, hcalls]
    rfl
  · rw [hvisit.files, hgone]
  · rintro ⟨l, hl, -, ⟨content, x, hfile⟩, -⟩
    rw [hmanifest] at hl
    obtain rfl := Option.some.inj (hl.symm.trans hsite)
    rw [hvisit.files, hgone] at hfile
    cases hfile

end SmaliBuild.Conversion
