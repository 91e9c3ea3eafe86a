import SmaliBuild.Proofs.Conversion.Frame
import SmaliBuild.Proofs.Input.Places
import SmaliBuild.Proofs.Sweep.Removal
/-!
# What is left after a clean-up

Tools that only add to the artifacts and to the output leave nothing behind but the output, once the
artifacts were swept without an error.  The sweep goes by paths, and the paths name the same places
however much is added, so what it removes is what was added.
-/
namespace SmaliBuild
open FileSystem

variable {fs a b c : FileSystem} {dir l : Location} {t : Input}

namespace Input

/-- A location is at or below one of the entries that a sweep of the artifacts removes. -/
def AtTarget (fs : FileSystem) (dir : Location) (t : Input) (l : Location) : Prop :=
  ∃ q ∈ t.workspace.artifacts t.compiled, AtSite fs dir q l

/-- A location is where the tools put what they make: the classes, the bundle and the output. -/
def OfTools (fs : FileSystem) (dir : Location) (t : Input) (l : Location) : Prop :=
  AtSite fs dir t.compiled l ∨ AtSite fs dir t.workspace.bundle l ∨
    AtSite fs dir t.workspace.output l

/-- A location is one that a conversion may use. -/
def InUse (fs : FileSystem) (dir : Location) (t : Input) (l : Location) : Prop :=
  AtTarget fs dir t l ∨ AtSite fs dir t.workspace.output l

theorem inUse_of_manifest (hl : AtSite fs dir t.workspace.manifest l) : InUse fs dir t l :=
  Or.inl ⟨_, by simp [Workspace.artifacts], hl⟩

theorem inUse_of_tools (hl : OfTools fs dir t l) : InUse fs dir t l := by
  rcases hl with hl | hl | hl
  · exact Or.inl ⟨_, by simp [Workspace.artifacts], hl⟩
  · exact Or.inl ⟨_, by simp [Workspace.artifacts], hl⟩
  · exact Or.inr hl

/-- Nothing stands under the paths of the artifacts. -/
def Unswept (fs : FileSystem) (dir : Location) (t : Input) : Prop :=
  ∀ q ∈ t.workspace.artifacts t.compiled, ∀ e, fs.lstat dir q ≠ .ok e

section
variable (hs : t.Stands fs dir) (hfree : Unswept fs dir t)
include hs hfree

theorem Stands.get?_atTarget (hl : AtTarget fs dir t l) : fs.get? l = none := by
  obtain ⟨q, hq, r, hr, hrl⟩ := hl
  obtain ⟨d, -, hartifacts⟩ := hs.names_artifacts
  obtain ⟨d', s, -, hn, -⟩ := hartifacts q hq
  exact get?_eq_none_of_suffix hrl (hn.get?_eq_none (hfree q hq) hr)

theorem Stands.atTarget_of_reaches (hw : fs.Within a) {q : Path}
    (hq : q ∈ t.workspace.artifacts t.compiled) (hl : Sweep.Reaches a dir q l) :
    AtTarget fs dir t l := by
  obtain ⟨r, hr, hrl⟩ := hl.located
  obtain ⟨d, -, hartifacts⟩ := hs.names_artifacts
  obtain ⟨d', s, -, hn, -⟩ := hartifacts q hq
  exact ⟨q, hq, r, hn.site?_of_locate (hfree q hq) hw hr, hrl⟩

theorem Stands.not_atTarget (hl : AtSite fs dir t.workspace.output l) : ¬ AtTarget fs dir t l := by
  rintro ⟨q, hq, r, hr, hrl⟩
  obtain ⟨o, ho, hol⟩ := hl
  obtain ⟨d, houtput, hartifacts⟩ := hs.names_artifacts
  obtain ⟨d', s, hd', hn, hne⟩ := hartifacts q hq
  have hnone := hn.get?_eq_none (hfree q hq) hr
  obtain ⟨-, n, hname, -, rfl⟩ := houtput.site?_eq_some_iff.1 ho
  obtain ⟨-, k, rfl, -, rfl⟩ := hn.site?_eq_some_iff.1 hr
  have hdiffer : k :: d' ≠ n :: d := by
    intro heq
    obtain ⟨rfl, -⟩ := List.cons.inj heq
    exact hne hname.symm
  rcases List.suffix_or_suffix_of_suffix hrl hol with hsuffix | hsuffix
  · rcases List.suffix_cons_iff.1 hsuffix with heq | hbelow
    · exact hdiffer heq
    · -- an artifact around the directory of the output would stand there already
      have hdir := get?_eq_none_of_suffix hbelow hnone
      rw [houtput.enclosing] at hdir
      cases hdir
  · have hlength := hsuffix.length_le
    rcases List.suffix_cons_iff.1 hsuffix with heq | hbelow
    · exact hdiffer heq.symm
    · have hshort := (hbelow.trans hd').length_le
      simp only [List.length_cons] at hshort
      omega

end

end Input

namespace Conversion
open Host Input
variable {tools : Toolchain} {optimize : Bool} {h : Host} {Elsewhere : Location → Prop}

/-- Where nothing stands under its path, the manifest is made anew and nothing is lost. -/
theorem listing_grows (hs : t.Stands h.files h.directory) (hfree : Unswept h.files h.directory t) :
    Grows (AtSite h.files h.directory t.workspace.manifest) h.files
      ((begun t h).run (listing t)).2.files := by
  have habsent {l : Location} (hl : h.files.site? h.directory t.workspace.manifest = some l) :
      h.files.get? l = none :=
    hs.get?_atTarget hfree ⟨_, List.mem_cons_self, l, hl, List.suffix_refl l⟩
  rcases listing_cases t h with hsame | ⟨-, hreplaces | hdrops⟩
  · rw [hsame]
    exact .refl _
  · obtain ⟨l, hl, -, -, hothers⟩ := hreplaces
    refine ⟨fun m e he => ?_, fun m hm => hothers m ?_⟩
    · have hne : m ≠ l := by
        rintro rfl
        cases ((habsent hl).symm.trans he)
      rw [hothers m hne, he, Option.map_some]
    · rintro rfl
      exact hm ⟨m, hl, List.suffix_refl m⟩
  · have hsame (m : Location) : ((begun t h).run (listing t)).2.files.get? m = h.files.get? m := by
      rcases hdrops m with hsame | ⟨hl, -, hnone⟩
      · exact hsame
      · rw [hnone, habsent hl]
    exact ⟨fun m e he => by rw [hsame, he, Option.map_some], fun m _ => hsame m⟩

/-- What was there before the artifacts outlasts a sweep, which takes only what is at or below them. -/
theorem sweep_trims (h₁ : Host) (hs : t.Stands fs h₁.directory) (hfree : Unswept fs h₁.directory t)
    (hw : fs.Within h₁.files) :
    Trims (AtTarget fs h₁.directory t) h₁.files
        (h₁.run (Sweep.run t.workspace t.compiled)).2.files ∧
      fs.Within (h₁.run (Sweep.run t.workspace t.compiled)).2.files := by
  have htrims := (Sweep.run_goes t.workspace t.compiled h₁).trims.mono fun m ⟨q, hq, hm⟩ =>
    hs.atTarget_of_reaches hfree hw hq hm
  exact ⟨htrims, hw.trims htrims fun m hm => hs.get?_atTarget hfree hm⟩

/-- After a run in which the tools only added, all that was there before is there, and all that they
made is where they left it or gone from among the artifacts. -/
theorem run_grows (hs : t.Stands h.files h.directory) (hfree : Unswept h.files h.directory t)
    (htools : ∀ v ∈ (courseOf tools optimize t h).visits,
      Grows (fun l => OfTools h.files h.directory t l ∨ Elsewhere l) v.found
        (tools.leaves v.request v.found)) :
    let course := courseOf tools optimize t h
    let out := (h.run (run tools optimize t)).2
    out.directory = h.directory ∧ out.faults = h.faults ∧
      out.journal.calls = h.journal.calls ++ course.visits.map Visit.record ∧
      Grows (fun l => InUse h.files h.directory t l ∨ Elsewhere l) h.files course.files ∧
      Trims (AtTarget h.files h.directory t) course.files out.files ∧ h.files.Within out.files := by
  have hlisted : Grows (fun l => InUse h.files h.directory t l ∨ Elsewhere l) h.files
      ((begun t h).run (listing t)).2.files :=
    (listing_grows hs hfree).mono fun _ hl => Or.inl (inUse_of_manifest hl)
  have hcourse := (courseOf_linked tools optimize t h).induct (fun _ => .refl _) .trans
    fun v hv => (htools v hv).mono fun _ hl => hl.imp_left inUse_of_tools
  have hgrows := hlisted.trans hcourse
  obtain ⟨h₁, hvisit, hstop⟩ := run_courseOf tools optimize t h
  have hsteady := steady_listing t h
  have hdir : h₁.directory = h.directory := hvisit.directory.trans hsteady.directory
  have hfaults : h₁.faults = h.faults := hvisit.faults.trans hsteady.faults
  have hcalls : h₁.journal.calls =
      h.journal.calls ++ (courseOf tools optimize t h).visits.map Visit.record := by
    rw [hvisit.calls, calls_listing]
  dsimp only at hstop ⊢
  cases hs' : (courseOf tools optimize t h).stop with
  | some e =>
    rw [hs'] at hstop
    obtain ⟨-, hfinal⟩ := hstop
    have hfiles := hfinal.files.trans hvisit.files
    refine ⟨hfinal.directory.trans hdir, hfinal.faults.trans hfaults, ?_, hgrows, ?_, ?_⟩
    · simpa [hcalls] using hfinal.calls
    · rw [hfiles]
      exact .refl _
    · rw [hfiles]
      exact hgrows.within
  | none =>
    rw [hs'] at hstop
    obtain ⟨-, hfinal⟩ := hstop
    have hswept := sweep_trims h₁ (hdir ▸ hs) (hdir ▸ hfree) (hvisit.files ▸ hgrows.within)
    have hgoes := (Sweep.run_goes t.workspace t.compiled h₁).steady
    rw [hvisit.files, hdir] at hswept
    refine ⟨hfinal.directory.trans (hgoes.directory.trans hdir),
      hfinal.faults.trans (hgoes.faults.trans hfaults), ?_, hgrows, ?_, ?_⟩
    · simpa [hgoes.calls, hcalls] using hfinal.calls
    · rw [hfinal.files]
      exact hswept.1
    · rw [hfinal.files]
      exact hswept.2

theorem warnings_perform (t : Input) (h : Host) : (h.run (CleanReport.perform t false)).1.warnings =
    (h.run (Sweep.run t.workspace t.compiled)).1.errors.map (·.sweepWarning) := rfl

/-- On a machine without trouble a clean-up after a run warns of nothing, if the run leaves no directory
under the paths of the artifacts. -/
theorem warnings_after_run (hs : t.Stands h.files h.directory)
    (hfree : Unswept h.files h.directory t)
    (htools : ∀ v ∈ (courseOf tools optimize t h).visits,
      Grows (fun l => OfTools h.files h.directory t l ∨ Elsewhere l) v.found
        (tools.leaves v.request v.found))
    (hsound : ∀ n, h.faults n = none)
    (hleaves : ∀ q ∈ t.workspace.artifacts t.compiled, ∃ l, h.files.site? h.directory q = some l ∧
      q.endsWithSlash = false ∧ (h.run (run tools optimize t)).2.files.get? l ≠ some .directory) :
    ((h.run (run tools optimize t)).2.run (CleanReport.perform t false)).1.warnings = [] := by
  obtain ⟨hdir, hfaults, -, -, -, hwithin⟩ := run_grows hs hfree htools
  rw [warnings_perform, List.map_eq_nil_iff]
  refine Sweep.removeTargets_quiet (fun n => hfaults ▸ hsound n) hwithin ?_ ?_
  · rw [hdir]
    exact fun q hq m hm => hs.get?_atTarget hfree (hs.atTarget_of_reaches hfree hwithin hq hm)
  · rw [hdir]
    exact hleaves

/-- Tools that only add to the classes, the bundle and the output leave nothing behind but the output:
after a run, whether it failed or not, and a sweep on demand that reports no error, all else is as it
was before the run, and the output is as the tools left it.  So is what they added elsewhere, through a
link that stands for the output perhaps. -/
theorem clean_after_run {typed : Path} {h₀ : Host} (hok : h₀.run (Input.resolve typed) = (.ok t, h))
    (hfree : Unswept h.files h.directory t)
    (htools : ∀ v ∈ (courseOf tools optimize t h).visits,
      Grows (fun l => OfTools h.files h.directory t l ∨ Elsewhere l) v.found
        (tools.leaves v.request v.found))
    (hclean : ((h.run (run tools optimize t)).2.run (CleanReport.perform t false)).1.warnings = []) :
    let course := courseOf tools optimize t h
    let out := (h.run (run tools optimize t)).2
    let final := (out.run (CleanReport.perform t false)).2.files
    out.journal.calls = h.journal.calls ++ course.visits.map Visit.record ∧
      (∀ l, ¬ AtSite h.files h.directory t.workspace.output l → ¬ Elsewhere l →
        final.get? l = h.files.get? l) ∧
      (∀ l, AtSite h.files h.directory t.workspace.output l →
        final.get? l = course.files.get? l) ∧
      ∀ l, Elsewhere l → ¬ AtTarget h.files h.directory t l →
        final.get? l = course.files.get? l := by
  obtain ⟨rfl, hs, -⟩ := resolve_ok hok
  have hs : t.Stands h₀.counted.files h₀.counted.directory := hs
  obtain ⟨hdir, -, hcalls, hgrows, htrims, hwithin⟩ := run_grows hs hfree htools
  generalize (h₀.counted.run (run tools optimize t)).2 = out at hclean hdir hcalls htrims hwithin ⊢
  have herrors : (out.run (Sweep.run t.workspace t.compiled)).1.errors = [] :=
    List.map_eq_nil_iff.1 (warnings_perform t out ▸ hclean)
  rw [← hdir] at hs hfree
  have hswept := htrims.trans (hdir ▸ (sweep_trims out hs hfree hwithin).1)
  have hgone {l : Location} (hl : AtTarget h₀.counted.files out.directory t l) :
      (out.run (Sweep.run t.workspace t.compiled)).2.files.get? l = none := by
    obtain ⟨q, hq, r, hr, hrl⟩ := hl
    obtain ⟨d, -, hartifacts⟩ := hs.names_artifacts
    obtain ⟨d', s, -, hn, -⟩ := hartifacts q hq
    exact get?_eq_none_of_suffix hrl (Sweep.removeTargets_gone hwithin
      (fun k hk m hm => hs.get?_atTarget hfree (hs.atTarget_of_reaches hfree hwithin hk hm))
      herrors hq hr hn.noSlash)
  rw [hdir] at hs hfree hgone
  have hleft {l : Location} (hl : ¬ AtTarget h₀.counted.files h₀.counted.directory t l) :
      (out.run (Sweep.run t.workspace t.compiled)).2.files.get? l =
        (courseOf tools optimize t h₀.counted).files.get? l :=
    (hswept l).resolve_right fun h => hl h.1
  refine ⟨hcalls, fun l hl helse => ?_, fun l hl => hleft (hs.not_atTarget hfree hl),
    fun l _ => hleft⟩
  by_cases htarget : AtTarget h₀.counted.files h₀.counted.directory t l
  · exact (hgone htarget).trans (hs.get?_atTarget hfree htarget).symm
  · refine (hleft htarget).trans (hgrows.others l ?_)
    rintro ((h | h) | h)
    · exact htarget h
    · exact hl h
    · exact helse h

/-! ## A run that fails late -/

def sourceFileEntry : Name := ⟨.ofString "A.java", by decide⟩

def classFileEntry : Name := ⟨.ofString "A.class", by decide⟩

def bundleEntry : Name := ⟨OsString.ofString bundleName, by decide⟩

def outputEntry : Name := ⟨OsString.ofString outputName, by decide⟩

def plainInput : Path := .ofString "/A.java"

def plainFiles : FileSystem := .flat [(sourceFileEntry, .file [] false)] (by decide)

/-- The source file with all that can be made of it. -/
def packedFiles : FileSystem :=
  .flat [(sourceFileEntry, .file [] false), (classFileEntry, .file [] false),
    (bundleEntry, .file [] false), (outputEntry, .directory)] (by decide)

/-- Tools that do all their work, but the last of which says that it failed. -/
def latelyFailingTools : Toolchain where
  compile _ _ := ⟨.ok .empty, packedFiles, []⟩
  package _ fs := ⟨.ok (), fs, []⟩
  disassemble _ fs := ⟨.error (.toolchainMissing .disassembler "baksmali"), fs, []⟩

theorem resolve_plainInput : (Host.sound plainFiles []).run (Input.resolve plainInput) =
    (.ok (.sourceFile plainInput), (Host.sound plainFiles []).counted) := by
  have hclass : plainInput.compiledFile = .ofString "/A.class" := by cbv
  have hstat : ((Host.sound plainFiles []).run (Host.stat plainInput)).1 = .ok (.file [] false) := by
    cbv
  exact run_resolve_file (by cbv) (by cbv) hstat (hclass ▸ by decide)

/-- The artifacts of the plain input, and where they are as long as nothing but entries of the root is
added or removed. -/
theorem artifacts_plainInput {q : Path}
    (hq : q ∈ (Input.sourceFile plainInput).workspace.artifacts (Input.sourceFile plainInput).compiled) :
    ∃ n ∈ [manifestEntry, classFileEntry, bundleEntry], plainFiles.site? [] q = some [n] ∧
      q.endsWithSlash = false := by
  simp only [Workspace.artifacts, List.mem_cons, List.not_mem_nil, or_false] at hq
  rcases hq with rfl | rfl | rfl
  · exact ⟨manifestEntry, by simp, by cbv, by cbv⟩
  · exact ⟨bundleEntry, by simp, by cbv, by cbv⟩
  · exact ⟨classFileEntry, by simp, by cbv, by cbv⟩

theorem courseOf_plainInput : courseOf latelyFailingTools false (.sourceFile plainInput)
      (Host.sound plainFiles []).counted =
    ⟨[⟨.compile (Input.sourceFile plainInput).compileRequest, plainFiles⟩,
        ⟨.package ((Input.sourceFile plainInput).packageRequest false), packedFiles⟩,
        ⟨.disassemble (Input.sourceFile plainInput).disassembleRequest, packedFiles⟩],
      packedFiles, some (.toolchainMissing .disassembler "baksmali")⟩ := by
  have hverdict : ¬ CompilerLog.empty.verdict = .failed := by decide
  have hmet (fs : FileSystem) : latelyFailingTools.refusal (.sourceFile plainInput)
      (.compile (Input.sourceFile plainInput).compileRequest) fs = none := by
    simp only [Toolchain.refusal, latelyFailingTools, if_neg hverdict]
  change latelyFailingTools.course _ (Input.requests _ _) plainFiles = _
  rw [Input.requests, Toolchain.course, hmet]
  rfl

theorem files_after_failure : ((Host.sound plainFiles []).counted.run
    (run latelyFailingTools false (.sourceFile plainInput))).2.files = packedFiles := by
  obtain ⟨h₁, hvisit, hstop⟩ := run_courseOf latelyFailingTools false (.sourceFile plainInput)
    (Host.sound plainFiles []).counted
  rw [courseOf_plainInput] at hvisit hstop
  exact hstop.2.files.trans hvisit.files

theorem unswept_plainInput : Unswept plainFiles [] (.sourceFile plainInput) := by
  intro q hq e
  obtain ⟨n, hn, hsite, hslash⟩ := artifacts_plainInput hq
  have hnone : plainFiles.get? [n] = none := by
    simp only [List.mem_cons, List.not_mem_nil, or_false] at hn
    rcases hn with rfl | rfl | rfl <;> decide
  rw [lstat_of_site hsite hslash, hnone]
  intro hok
  cases hok

theorem site?_plainOutput :
    plainFiles.site? [] (Input.sourceFile plainInput).workspace.output = some [outputEntry] := by
  cbv

theorem grows_packedFiles : Grows (OfTools plainFiles [] (.sourceFile plainInput)) plainFiles
    packedFiles := by
  have hclasses : plainFiles.site? [] (Input.sourceFile plainInput).compiled =
      some [classFileEntry] := by cbv
  have hbundle : plainFiles.site? [] (Input.sourceFile plainInput).workspace.bundle =
      some [bundleEntry] := by cbv
  refine grows_flat (by decide) fun x hx => ?_
  simp only [List.mem_cons, List.not_mem_nil, or_false] at hx
  rcases hx with rfl | rfl | rfl | rfl
  · exact Or.inl (by simp)
  · exact Or.inr (Or.inl ⟨_, hclasses, List.suffix_refl _⟩)
  · exact Or.inr (Or.inr (Or.inl ⟨_, hbundle, List.suffix_refl _⟩))
  · exact Or.inr (Or.inr (Or.inr ⟨_, site?_plainOutput, List.suffix_refl _⟩))

/-- After a run that failed in its last stage, a clean-up takes the class file and the bundle and keeps
the output. -/
theorem clean_after_failure :
    let h := (Host.sound plainFiles []).counted
    let t := Input.sourceFile plainInput
    let out := (h.run (run latelyFailingTools false t)).2
    let final := (out.run (CleanReport.perform t false)).2.files
    out.files.get? [classFileEntry] = some (.file [] false) ∧
      final.get? [sourceFileEntry] = some (.file [] false) ∧
      final.get? [classFileEntry] = none ∧
      final.get? [bundleEntry] = none ∧
      final.get? [outputEntry] = some .directory := by
  have htools : ∀ v ∈ (courseOf latelyFailingTools false (.sourceFile plainInput)
      (Host.sound plainFiles []).counted).visits,
      Grows (fun l => OfTools plainFiles [] (.sourceFile plainInput) l ∨ False) v.found
        (latelyFailingTools.leaves v.request v.found) := by
    rw [courseOf_plainInput]
    intro v hv
    simp only [List.mem_cons, List.not_mem_nil, or_false] at hv
    rcases hv with rfl | rfl | rfl
    · exact grows_packedFiles.mono fun _ => Or.inl
    · exact .refl _
    · exact .refl _
  have hclean := warnings_after_run (h := (Host.sound plainFiles []).counted)
    (resolve_ok resolve_plainInput).2.1 unswept_plainInput htools (fun _ => rfl) fun q hq => by
      obtain ⟨n, hn, hsite, hslash⟩ := artifacts_plainInput hq
      refine ⟨[n], hsite, hslash, ?_⟩
      rw [files_after_failure]
      simp only [List.mem_cons, List.not_mem_nil, or_false] at hn
      rcases hn with rfl | rfl | rfl <;> decide
  obtain ⟨-, houtside, houtput, -⟩ :=
    clean_after_run resolve_plainInput unswept_plainInput htools hclean
  have hnot {n : Name} (hn : n ≠ outputEntry) :
      ¬ AtSite plainFiles [] (Input.sourceFile plainInput).workspace.output [n] := by
    rintro ⟨r, hr, hrn⟩
    obtain rfl := Option.some.inj (site?_plainOutput.symm.trans hr)
    exact hn (List.singleton_inj.1 (hrn.eq_of_length rfl)).symm
  refine ⟨?_, ?_, ?_, ?_, ?_⟩
  · rw [files_after_failure]
    decide
  · rw [houtside _ (hnot (by decide)) id]
    decide
  · rw [houtside _ (hnot (by decide)) id]
    decide
  · rw [houtside _ (hnot (by decide)) id]
    decide
  · rw [houtput _ ⟨_, site?_plainOutput, List.suffix_refl _⟩, courseOf_plainInput]
    decide

end Conversion
end SmaliBuild
