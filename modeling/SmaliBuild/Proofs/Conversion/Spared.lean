import SmaliBuild.Proofs.Conversion.Residue
import SmaliBuild.Proofs.Input.Apart
/-!
# Whether the input and the output are spared

Neither a run nor a sweep means to touch the input, and what the tools left as output is to be kept.
`Spares` says so for whatever trouble the machine meets and for all tools that leave the input alone.
This is the case exactly if the input is `Apart`: what is out of reach is spared
(`spares_of_apart`), and each leaf within reach is taken by some run on some machine
(`apart_of_spares`).  A source file may be called like the bundle, and then a sweep removes it.
-/
namespace SmaliBuild.Conversion
open Host Input FileSystem
variable {fs b : FileSystem} {dir m : Location} {t : Input} {tools : Toolchain} {optimize : Bool}
variable {h : Host}

/-- A sweep and a run leave the input as it was, and the output as it was when the sweep started. -/
structure Spares (fs : FileSystem) (dir : Location) (t : Input) : Prop where
  clean : ∀ h : Host, h.files = fs → h.directory = dir →
    SameAt (fun l => AtInput fs dir t l ∨ AtSite fs dir t.workspace.output l) fs
      (h.run (CleanReport.perform t false)).2.files
  run : ∀ (h : Host) (tools : Toolchain) (optimize : Bool), h.files = fs → h.directory = dir →
    (∀ v ∈ (courseOf tools optimize t h).visits,
      SameAt (AtInput fs dir t) v.found (tools.leaves v.request v.found)) →
    let left := (courseOf tools optimize t h).files
    let final := (h.run (run tools optimize t)).2.files
    SameAt (AtInput fs dir t) fs final ∧ SameAt (AtSite left dir t.workspace.output) left final

/-! ## What is out of reach is spared -/

theorem sweep_spares (h₁ : Host) (hsame : SameAt (AtInput fs h₁.directory t) fs h₁.files)
    (hclear : Clear fs h₁.directory t h₁.files) :
    SameAt (fun l => AtInput fs h₁.directory t l ∨ AtSite h₁.files h₁.directory t.workspace.output l)
      h₁.files (h₁.run (Sweep.run t.workspace t.compiled)).2.files := by
  refine Sweep.removeTargets_spares (fun l m e hl hlm he => ?_) fun q hq m hm hleaf hl => ?_
  · rcases hl with hl | hl
    · exact Or.inl (hl.below hlm hsame he)
    · exact Or.inr (hl.below hlm)
  · obtain ⟨hinput, houtput⟩ := hclear q hq m hm hleaf
    rcases hl with hl | hl
    · exact hinput hl
    · exact houtput hl

theorem listing_spares (hs : t.Stands h.files h.directory) (hapart : Apart h.files h.directory t) :
    SameAt (AtInput h.files h.directory t) h.files ((begun t h).run (listing t)).2.files := by
  have hmanifest {l : Location} {e : Entry} (hsite : h.files.site? h.directory t.workspace.manifest = some l)
      (he : h.files.get? l = some e) (hdir : e ≠ .directory) : ¬ AtInput h.files h.directory t l := by
    obtain ⟨d, hnames, -⟩ := hs.names
    have hlocate := locate_of_site hsite hnames.noSlash
    rw [he, Option.isSome_some, if_pos rfl] at hlocate
    have hleaf : h.files.IsLeaf l := ⟨e, he, fun hd => absurd hd hdir⟩
    exact (hapart.now _ (by simp [Workspace.artifacts]) l (.here hsite hlocate) hleaf).1
  intro l hl
  rcases listing_cases t h with hsame | ⟨hd, ⟨r, hsite, hdir, -, hothers⟩ | hdrops⟩
  · rw [hsame]
  · refine hothers l ?_
    rintro rfl
    cases he : h.files.get? l with
    | none => exact hapart.listed hd l hsite hl he
    | some e => exact hmanifest hsite he (by simpa [he] using hdir) hl
  · rcases hdrops l with hsame | ⟨hsite, hdir, -⟩
    · exact hsame
    · cases he : h.files.get? l with
      | none => exact absurd he (hapart.listed hd l hsite hl)
      | some e => exact absurd hl (hmanifest hsite he (by simpa [he] using hdir))

theorem listable_of_ok {m : Option Manifest} (hm : ((begun t h).run (listing t)).1 = .ok m) :
    Listable h.files h.directory t := by
  cases t with
  | sourceFile p =>
    intro hd
    cases hd
  | sourceDirectory p =>
    intro _
    obtain ⟨m', hbuild⟩ := listing_ok_iff.1 ⟨m, hm⟩ p rfl
    exact Manifest.replaceable_of_build (h := begun (.sourceDirectory p) h) hbuild

theorem exists_listing_of_stop (hstop : (courseOf tools optimize t h).stop = none) :
    ∃ m, ((begun t h).run (listing t)).1 = .ok m := by
  unfold courseOf at hstop
  generalize (begun t h).run (listing t) = listed at hstop ⊢
  obtain ⟨answer, hl⟩ := listed
  cases answer with
  | error e => cases hstop
  | ok m => exact ⟨m, rfl⟩

theorem spares_of_apart (hs : t.Stands fs dir) (hapart : Apart fs dir t) : Spares fs dir t where
  clean := by
    rintro h rfl rfl
    exact sweep_spares h (.refl _) hapart.now
  run := by
    rintro h tools optimize rfl rfl htools
    have hleft : SameAt (AtInput h.files h.directory t) h.files (courseOf tools optimize t h).files :=
      (listing_spares hs hapart).trans
        ((courseOf_linked tools optimize t h).induct (fun _ => .refl _) .trans htools)
    obtain ⟨h₁, hvisit, hstop⟩ := run_courseOf tools optimize t h
    have hdir : h₁.directory = h.directory := hvisit.directory.trans (steady_listing t h).directory
    dsimp only at hstop ⊢
    cases hs' : (courseOf tools optimize t h).stop with
    | some e =>
      rw [hs'] at hstop
      rw [hstop.2.files, hvisit.files]
      exact ⟨hleft, .refl _⟩
    | none =>
      rw [hs'] at hstop
      obtain ⟨m, hm⟩ := exists_listing_of_stop hs'
      have hclear := hapart.later (listable_of_ok hm) _ hleft
      rw [← hdir, ← hvisit.files] at hclear hleft
      have hswept := sweep_spares h₁ hleft hclear
      rw [hstop.2.files, ← hvisit.files, ← hdir]
      exact ⟨hleft.trans (hswept.mono fun _ => Or.inl), hswept.mono fun _ => Or.inr⟩

/-! ## What is within reach is not -/

/-- Tools that are content with everything and leave the files `b`. -/
def settingTools (b : FileSystem) : Toolchain where
  compile _ _ := ⟨.ok .empty, b, []⟩
  package _ fs := ⟨.ok (), fs, []⟩
  disassemble _ fs := ⟨.ok (), fs, []⟩

theorem courseOf_absentTools (optimize : Bool) (t : Input) (h : Host) :
    (∀ v ∈ (courseOf absentTools optimize t h).visits, absentTools.leaves v.request v.found = v.found) ∧
      (courseOf absentTools optimize t h).files = ((begun t h).run (listing t)).2.files ∧
      (courseOf absentTools optimize t h).stop ≠ none := by
  have hleaves (r : ToolRequest) (fs : FileSystem) : absentTools.leaves r fs = fs := by
    cases r <;> rfl
  refine ⟨fun v _ => hleaves v.request v.found, ?_⟩
  unfold courseOf
  generalize (begun t h).run (listing t) = listed
  obtain ⟨answer, hl⟩ := listed
  cases answer with
  | error e => exact ⟨rfl, by simp⟩
  | ok m => exact ⟨rfl, by simp [Toolchain.course, Input.requests, Toolchain.refusal, absentTools]⟩

theorem courseOf_settingTools (optimize : Bool) {m : Option Manifest}
    (hm : ((begun t h).run (listing t)).1 = .ok m) :
    (∀ v ∈ (courseOf (settingTools b) optimize t h).visits,
        (v.found = ((begun t h).run (listing t)).2.files ∨ v.found = b) ∧
          (settingTools b).leaves v.request v.found = b) ∧
      (courseOf (settingTools b) optimize t h).files = b ∧
      (courseOf (settingTools b) optimize t h).stop = none := by
  have hmet (fs : FileSystem) : (settingTools b).refusal t (.compile t.compileRequest) fs = none := by
    have hverdict : ¬ CompilerLog.empty.verdict = .failed := by decide
    simp only [Toolchain.refusal, settingTools, if_neg hverdict]
  have hcourse : courseOf (settingTools b) optimize t h =
      (settingTools b).course t (t.requests optimize) ((begun t h).run (listing t)).2.files := by
    unfold courseOf
    generalize (begun t h).run (listing t) = listed at hm ⊢
    obtain ⟨answer, hl⟩ := listed
    obtain rfl := hm
    rfl
  rw [hcourse, Input.requests, Toolchain.course, hmet]
  refine ⟨fun v hv => ?_, rfl, rfl⟩
  have hvisits : v ∈ ([⟨.compile t.compileRequest, ((begun t h).run (listing t)).2.files⟩,
      ⟨.package (t.packageRequest optimize), b⟩, ⟨.disassemble t.disassembleRequest, b⟩] : List Visit) :=
    hv
  simp only [List.mem_cons, List.not_mem_nil, or_false] at hvisits
  rcases hvisits with rfl | rfl | rfl
  · exact ⟨Or.inl rfl, rfl⟩
  · exact ⟨Or.inr rfl, rfl⟩
  · exact ⟨Or.inr rfl, rfl⟩

/-- Sources that can be listed are listed if no more calls than needed get through. -/
theorem exists_faults_listing (hs : t.Stands fs dir) (hlist : Listable fs dir t) :
    ∃ (made : Nat) (faults : Nat → Option Fault), ∀ h : Host, h.files = fs → h.directory = dir →
      h.made = 0 → (∀ i < made, h.faults i = faults i) →
      (∃ m, ((begun t h).run (listing t)).1 = .ok m) ∧ ((begun t h).run (listing t)).2.made = made := by
  cases t with
  | sourceFile p =>
    refine ⟨0, fun _ => none, ?_⟩
    rintro h - - hmade -
    exact ⟨⟨none, rfl⟩, hmade⟩
  | sourceDirectory p =>
    refine ⟨3, fun i => if i = 2 then some stall else none, ?_⟩
    rintro h rfl rfl hmade hf
    have hfaults (i : Nat) (hi : i < 3) : (begun (.sourceDirectory p) h).faults
        ((begun (.sourceDirectory p) h).made + i) = if i = 2 then some stall else none := by
      change h.faults (h.made + i) = _
      rw [hmade, Nat.zero_add, hf i hi]
    obtain ⟨d, hnames, -⟩ := hs.names
    have habsolute : p.isAbsolute = true := hs.regular.isAbsolute
    obtain ⟨hok, hmade'⟩ := Manifest.exists_build (h := begun (.sourceDirectory p) h) habsolute
      hnames.noSlash (hlist rfl) (hfaults 0 (by simp)) (hfaults 1 (by simp))
      (hfaults 2 (by simp))
    refine ⟨listing_ok_iff.2 fun q hq => ?_, ?_⟩
    · obtain rfl := Input.sourceDirectory.inj hq
      exact hok
    · rw [run_listing_directory, hmade', show (begun (.sourceDirectory p) h).made = h.made from rfl,
        hmade]

/-- With trouble at the right calls a run takes any leaf that is within reach once the tools are done. -/
theorem exists_faults_run (hs : t.Stands fs dir) (hlist : Listable fs dir t) {q : Path}
    (hq : q ∈ t.workspace.artifacts t.compiled) (hm : Sweep.Reaches b dir q m) (hleaf : b.IsLeaf m) :
    ∃ faults : Nat → Option Fault,
      (∃ listed, ((begun t (facing fs dir faults)).run (listing t)).1 = .ok listed) ∧
        ((facing fs dir faults).run (run (settingTools b) false t)).2.files.get? m = none := by
  obtain ⟨made, first, hlisting⟩ := exists_faults_listing hs hlist
  obtain ⟨rest, hsweep⟩ := Sweep.exists_faults_removeTargets hq hm hleaf made
  refine ⟨fun i => if i < made then first i else rest i, ?_⟩
  have hafter (i : Nat) (hi : made ≤ i) :
      (facing fs dir fun i => if i < made then first i else rest i).faults i = rest i :=
    if_neg (Nat.not_lt.2 hi)
  obtain ⟨⟨listed, hok⟩, hmade⟩ := hlisting (facing fs dir fun i => if i < made then first i else rest i)
    rfl rfl rfl fun i hi => if_pos hi
  generalize hh : facing fs dir (fun i => if i < made then first i else rest i) = h at hok hmade hafter ⊢
  refine ⟨⟨listed, hok⟩, ?_⟩
  obtain ⟨-, hfiles, hstop⟩ := courseOf_settingTools false hok (b := b)
  obtain ⟨h₁, hvisit, hswept⟩ := run_courseOf (settingTools b) false t h
  have hsteady := steady_listing t h
  rw [hstop] at hswept
  rw [hswept.2.files]
  refine hsweep h₁ Sweep.empty (hvisit.files.trans hfiles) ?_ (hvisit.made.trans hmade) fun i hi => ?_
  · rw [hvisit.directory, hsteady.directory, directory_begun, ← hh]
    rfl
  · rw [hvisit.faults, hsteady.faults]
    exact hafter i hi

theorem Spares.listing (hspares : Spares h.files h.directory t) :
    SameAt (AtInput h.files h.directory t) h.files ((begun t h).run (listing t)).2.files := by
  obtain ⟨hvisits, hfiles, hstop⟩ := courseOf_absentTools false t h
  have hkept := (hspares.run h absentTools false rfl rfl fun v hv => by
    rw [hvisits v hv]
    exact .refl _).1
  obtain ⟨h₁, hvisit, hcourse⟩ := run_courseOf absentTools false t h
  dsimp only at hcourse hkept
  cases hs : (courseOf absentTools false t h).stop with
  | none => exact absurd hs hstop
  | some e =>
    rw [hs] at hcourse
    rwa [hcourse.2.files, hvisit.files, hfiles] at hkept

theorem apart_of_spares (hs : t.Stands fs dir) (hspares : Spares fs dir t) : Apart fs dir t where
  now := by
    intro q hq m hm hleaf
    obtain ⟨e, he, -⟩ := id hleaf
    obtain ⟨faults, hfaults⟩ := Sweep.exists_faults_removeTargets hq hm hleaf 0
    have hkept := hspares.clean (facing fs dir faults) rfl rfl m
    have hgone := hfaults (facing fs dir faults) Sweep.empty rfl rfl rfl fun _ _ => rfl
    have hlost (hl : AtInput fs dir t m ∨ AtSite fs dir t.workspace.output m) : False := by
      cases (he.symm.trans (hkept hl).symm).trans hgone
    exact ⟨fun hl => hlost (Or.inl hl), fun hl => hlost (Or.inr hl)⟩
  later := by
    intro hlist b hsame q hq m hm hleaf
    obtain ⟨e, he, -⟩ := id hleaf
    obtain ⟨faults, ⟨listed, hok⟩, hgone⟩ := exists_faults_run hs hlist hq hm hleaf
    obtain ⟨hvisits, hfiles, -⟩ := courseOf_settingTools false hok (b := b)
    have hlisted := Spares.listing (h := facing fs dir faults) hspares
    obtain ⟨hinput, houtput⟩ := hspares.run (facing fs dir faults) (settingTools b) false rfl rfl
      fun v hv l hl => by
        obtain ⟨hfound | hfound, hleaves⟩ := hvisits v hv
        · rw [hleaves, hfound, hsame l hl]
          exact (hlisted l hl).symm
        · rw [hleaves, hfound]
    rw [hfiles] at houtput
    refine ⟨fun hl => ?_, fun hl => ?_⟩
    · cases (he.symm.trans ((hsame m hl).trans (hinput m hl).symm)).trans hgone
    · cases (he.symm.trans (houtput m hl).symm).trans hgone
  listed := by
    intro hd l hsite hl hnone
    have hpruned : fs.Within (fs.prune l) := by
      intro m e he
      have hlm : ¬ l <:+ m := by
        intro hlm
        cases (get?_eq_none_of_suffix hlm hnone).symm.trans he
      rw [get?_prune (site?_ne_nil hsite), if_neg hlm, he, Option.map_some]
    have hlist : Listable fs dir t := fun _ =>
      ⟨l, hsite, by simp [hnone], site?_mono hpruned hsite⟩
    obtain ⟨made, faults, hlisting⟩ := exists_faults_listing hs hlist
    obtain ⟨⟨m, hok⟩, -⟩ := hlisting (facing fs dir faults) rfl rfl rfl fun _ _ => rfl
    obtain ⟨l', hsite', -, ⟨content, x, hfile⟩, -⟩ := replaces_of_ok hok hd
    obtain rfl := Option.some.inj (hsite.symm.trans hsite')
    have hkept := Spares.listing (h := facing fs dir faults) hspares l hl
    cases (hfile.symm.trans hkept).trans hnone

/-- The input and the output are spared exactly if they are out of reach. -/
theorem spares_iff_apart {typed : Path} {h₀ : Host} (hok : h₀.run (Input.resolve typed) = (.ok t, h)) :
    Spares h.files h.directory t ↔ Apart h.files h.directory t := by
  obtain ⟨rfl, hs, -⟩ := resolve_ok hok
  exact ⟨apart_of_spares hs, spares_of_apart hs⟩

/-! ## A source file called like the bundle -/

def bundleInput : Path := .ofString "/classes.dex"

def bundleFiles : FileSystem := .flat [(bundleEntry, .file [] false)] (by decide)

theorem spares_plainInput :
    (Host.sound plainFiles []).run (Input.resolve plainInput) =
        (.ok (.sourceFile plainInput), (Host.sound plainFiles []).counted) ∧
      Spares plainFiles [] (.sourceFile plainInput) := by
  have hplain : Plain plainFiles (.sourceFile plainInput) sourceFileEntry [] :=
    ⟨by cbv, .file [] false, by cbv, by simp⟩
  have hdistinct : Distinct (.sourceFile plainInput) := by
    have hpath : plainInput.fileName = some (.ofString "A.java") := by cbv
    have hnames : (Input.sourceFile plainInput).workspace.manifest.fileName = some (.ofString manifestName) ∧
        (Input.sourceFile plainInput).workspace.bundle.fileName = some (.ofString bundleName) ∧
        (Input.sourceFile plainInput).compiled.fileName = some (.ofString "A.class") :=
      ⟨by cbv, by cbv, by cbv⟩
    intro q hq
    simp only [Workspace.artifacts, List.mem_cons, List.not_mem_nil, or_false] at hq
    rcases hq with rfl | rfl | rfl
    · rw [hnames.1, show (Input.sourceFile plainInput).path.fileName = _ from hpath]
      decide
    · rw [hnames.2.1, show (Input.sourceFile plainInput).path.fileName = _ from hpath]
      decide
    · rw [hnames.2.2, show (Input.sourceFile plainInput).path.fileName = _ from hpath]
      decide
  obtain ⟨-, hs, -⟩ := resolve_ok resolve_plainInput
  exact ⟨resolve_plainInput, (spares_iff_apart resolve_plainInput).2 (apart_of_plain hs hplain hdistinct)⟩

theorem resolve_bundleInput : (Host.sound bundleFiles []).run (Input.resolve bundleInput) =
    (.ok (.sourceFile bundleInput), (Host.sound bundleFiles []).counted) := by
  have hquote : bundleInput.withoutTrailingQuote = bundleInput := by cbv
  have habsolute : ((Host.sound bundleFiles []).run (Host.absolute bundleInput)).1 = .ok bundleInput := by
    cbv
  have hstat : ((Host.sound bundleFiles []).run (Host.stat bundleInput)).1 = .ok (.file [] false) := by
    cbv
  have hne : bundleInput.compiledFile ≠ bundleInput := by
    rw [show bundleInput.compiledFile = .ofString "/classes.class" by cbv]
    decide
  exact run_resolve_file hquote habsolute hstat hne

/-- A source file under the name of a bundle is accepted, and a sweep on a machine without trouble
removes it. -/
theorem clean_removes_input :
    let h := (Host.sound bundleFiles []).counted
    let t := Input.sourceFile bundleInput
    (Host.sound bundleFiles []).run (Input.resolve bundleInput) = (.ok t, h) ∧
      h.files.get? [bundleEntry] = some (.file [] false) ∧
      (h.run (CleanReport.perform t false)).2.files.get? [bundleEntry] = none ∧
      ¬ Spares h.files h.directory t := by
  have hget : bundleFiles.get? [bundleEntry] = some (.file [] false) := by cbv
  have hgone : ((Host.sound bundleFiles []).counted.run
      (CleanReport.perform (.sourceFile bundleInput) false)).2.files.get? [bundleEntry] = none := by
    cbv
  have hsite : bundleFiles.site? [] bundleInput = some [bundleEntry] := by cbv
  refine ⟨resolve_bundleInput, hget, hgone, fun hspares => ?_⟩
  have hkept := hspares.clean (Host.sound bundleFiles []).counted rfl rfl [bundleEntry]
    (Or.inl (Or.inl hsite))
  cases hget.symm.trans (hkept.symm.trans hgone)

end SmaliBuild.Conversion
