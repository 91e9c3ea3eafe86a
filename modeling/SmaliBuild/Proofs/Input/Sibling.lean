import SmaliBuild.Proofs.Input.Apart
/-!
# Classes beside the input

The compiled classes of an input are meant to stand next to it, under a name of their own.  Then they
are neither around the input nor in it, and a sweep that removes them leaves the input alone
(`Sibling`).  For an input that was accepted this is a matter of the last name of its path
(`sibling_iff_named`): a source directory must have one, and that of a source file must not lose all
but two dots with its extension.
-/
namespace SmaliBuild
open FileSystem

/-- Two paths have the same parts; repeated slashes and a slash at the end make no difference. -/
def Path.Same (p q : Path) : Prop := p.isAbsolute = q.isAbsolute ∧ p.parts = q.parts

theorem Path.same_of_words {p q : Path} (habs : p.isAbsolute = q.isAbsolute)
    (hw : p.words = q.words) (hplain : [dot] ∉ p.words) : p.Same q :=
  ⟨habs, by rw [parts_eq_words hplain, parts_eq_words (hw ▸ hplain), hw]⟩

namespace Input
variable {fs b : FileSystem} {dir l c : Location} {t : Input} {p : Path} {h h' : Host}

/-- The place of the input: that of the entry that its path names and, unless this is a link, the one
that its path leads to. -/
def Home (fs : FileSystem) (dir : Location) (t : Input) (l : Location) : Prop :=
  fs.site? dir t.path = some l ∨ fs.locate dir true t.path = .ok l ∧
    ∀ k target, fs.site? dir t.path = some k → fs.get? k ≠ some (.link target)

/-- The compiled classes have a name in the directory of the input that the input does not have, and
their place is neither at or above that of the input nor below it. -/
structure Sibling (fs : FileSystem) (dir : Location) (t : Input) : Prop where
  joined : ∃ name : Name, t.compiled.Same (t.directory.join ⟨name.bytes⟩) ∧
    t.path.fileName ≠ some name.bytes
  apart : ∀ c l, fs.site? dir t.compiled = some c ∨ fs.locate dir false t.compiled = .ok c →
    Home fs dir t l → ¬ c <:+ l ∧ ¬ l <:+ c

/-- The path of the input ends in a name, and that of a source file is more than two dots and an
extension. -/
def Named : Input → Prop
  | .sourceFile p => ∀ ext, p.fileName = some (dot :: dot :: ext) → dot ∈ ext
  | .sourceDirectory p => p.fileName ≠ none

/-! ## Named inputs -/

theorem nul_notMem_path (hs : t.Stands fs dir) : 0 ∉ t.path.text := by
  obtain ⟨l, e, hl, -⟩ := hs.found
  have hc := check_of_locate hl
  intro hnul
  rw [Path.check, if_pos hnul] at hc
  cases hc

theorem isProperName_of_word {s : Path.Segment} (hs : s ∈ p.words) (hdot : s ≠ [dot])
    (hup : s ≠ Path.up) (hnul : 0 ∉ s) : isProperName s = true := by
  obtain ⟨hmem, hempty⟩ := List.mem_filter.1 hs
  have hslash : slash ∉ s := Path.slash_notMem_of_mem_segments hmem
  have hempty : s ≠ [] := by simpa using hempty
  simp only [isProperName, Bool.and_eq_true, bne_iff_ne, ne_eq, Bool.not_eq_true',
    List.contains_eq_mem, decide_eq_false_iff_not]
  exact ⟨⟨⟨⟨hempty, hdot⟩, hup⟩, hslash⟩, hnul⟩

theorem nul_notMem_last {before : List Path.Segment} {s : Path.Segment} (hs : t.Stands fs dir)
    (hw : t.path.words = before ++ [s]) : 0 ∉ s := by
  have hmem : s ∈ Path.segments t.path.text := (List.mem_filter.1 (hw ▸ List.mem_concat_self)).1
  exact fun hc => nul_notMem_path hs (Path.mem_of_mem_segments hmem hc)

theorem exists_name_of_file (hs : (sourceFile p).Stands fs dir) (hne : p.compiledFile ≠ p)
    (hnamed : (sourceFile p).Named) : ∃ before s, ∃ name : Name, p.words = before ++ [s] ∧
      s ≠ Path.up ∧ p.compiledFile.words = before ++ [name.bytes] ∧ name.bytes ≠ s := by
  have hregular : p.Regular := hs.regular
  obtain ⟨hslash, before, s, hw, hup⟩ := hs.last_of_file rfl
  obtain ⟨hwords, -, -, hsame⟩ := Path.compiledFile_spec hregular hslash hw hup
  have hdot : s ≠ [dot] := fun h => hregular.plain (hw ▸ h ▸ List.mem_concat_self)
  have hfileName : p.fileName = some s := by rw [Path.fileName_eq hregular.plain hw, if_neg hup]
  have hproper : isProperName (Path.className s) = true := by
    refine isProperName_of_word (p := p.compiledFile) (hwords ▸ List.mem_concat_self) ?_ ?_ ?_
    · intro hsingle
      rcases Path.className_cases s with h | ⟨stem, h⟩ <;> rw [h] at hsingle <;>
        have hlength := congrArg List.length hsingle <;> simp [Path.up] at hlength
    · intro hdegenerate
      obtain ⟨ext, rfl, hext⟩ := (Path.className_eq_up_iff hdot).1 hdegenerate
      exact hext (hnamed ext hfileName)
    · intro hnul
      rcases Path.mem_of_mem_className hnul with h | h | h
      · exact nul_notMem_last hs hw h
      · cases h
      · exact absurd h (by decide)
  exact ⟨before, s, ⟨_, hproper⟩, hw, hup, hwords, fun h => hne (hsame h)⟩

theorem exists_name_of_directory (hs : (sourceDirectory p).Stands fs dir)
    (hnamed : (sourceDirectory p).Named) : ∃ before s, ∃ name : Name, p.words = before ++ [s] ∧
      s ≠ Path.up ∧ p.compiledDirectory.words = before ++ [name.bytes] ∧ name.bytes ≠ s := by
  have hregular : p.Regular := hs.regular
  rcases List.eq_nil_or_concat p.words with hw | ⟨before, s, hw⟩
  · exact absurd (Path.fileName_eq_none hregular.plain hw) hnamed
  rw [List.concat_eq_append] at hw
  have hup : s ≠ Path.up := by
    rintro rfl
    exact hnamed (by rw [Path.fileName_eq hregular.plain hw, if_pos rfl])
  obtain ⟨hwords, -⟩ := Path.compiledDirectory_of_words hregular hw hup
  have hlong : 2 < (s ++ OsString.ofString compiledSuffix).length := by
    simp
  have hproper : isProperName (s ++ OsString.ofString compiledSuffix) = true := by
    refine isProperName_of_word (p := p.compiledDirectory) (hwords ▸ List.mem_concat_self) ?_ ?_ ?_
    · intro h
      simp [h] at hlong
    · intro h
      simp [h, Path.up] at hlong
    · rw [List.mem_append, not_or]
      exact ⟨nul_notMem_last hs hw, by decide⟩
  refine ⟨before, s, ⟨_, hproper⟩, hw, hup, hwords, fun h => ?_⟩
  have hlength := congrArg List.length h
  simp at hlength

theorem exists_name_of_named (hs : t.Stands fs dir) (hne : t.isDirectory = false → t.compiled ≠ t.path)
    (hnamed : t.Named) : ∃ before s, ∃ name : Name, t.path.words = before ++ [s] ∧ s ≠ Path.up ∧
      t.compiled.words = before ++ [name.bytes] ∧ name.bytes ≠ s := by
  cases t with
  | sourceFile p => exact exists_name_of_file hs (hne rfl) hnamed
  | sourceDirectory p => exact exists_name_of_directory hs hnamed

/-- The place of an input whose path ends in a name is in the directory that the words before lead
to. -/
theorem home_eq {before : List Path.Segment} {s : Path.Segment} {d : Location} (hs : t.Stands fs dir)
    (hw : t.path.words = before ++ [s]) (hup : s ≠ Path.up)
    (hleads : fs.Leads true linkLimit [] before d) (hd : fs.get? d = some .directory)
    (hl : Home fs dir t l) : ∃ n : Name, s = n.bytes ∧ l = n :: d := by
  have hsite {k : Location} (hk : fs.site? dir t.path = some k) : ∃ n : Name, s = n.bytes ∧ k = n :: d := by
    obtain ⟨-, before', d', n, rfl, hw', -, hleads', -⟩ := site?_eq_some_iff.1 hk
    obtain ⟨rfl, hlast⟩ := List.append_inj' (hw.symm.trans hw') rfl
    rw [hs.start] at hleads'
    exact ⟨n, List.singleton_inj.1 hlast, by rw [hleads.unique hleads']⟩
  rcases hl with hsite' | ⟨hlocate, hlink⟩
  · exact hsite hsite'
  · obtain ⟨hc, hleads'⟩ := locate_eq_ok_iff.1 hlocate
    rw [hs.start, Path.steps_eq, hw, List.append_assoc, List.singleton_append] at hleads'
    obtain ⟨left, -, heq⟩ := hleads.append (by simp [hd])
    have hwalk := hleads'.walk_eq
    rw [heq _ _ (by simp)] at hwalk
    obtain ⟨-, rfl | hup' | ⟨n, rfl, hfits⟩⟩ := cases_of_walk hwalk
    · exact absurd (hw ▸ List.mem_concat_self) hs.regular.plain
    · exact absurd hup' hup
    · have hk : fs.site? dir t.path = some (n :: d) :=
        site?_eq_some_iff.2 ⟨hc, before, d, n, rfl, hw, hfits, by rwa [hs.start], hd⟩
      exact ⟨n, rfl, eq_site_of_locate hk (hlink _ · hk) hlocate⟩

theorem sibling_of_named (hs : t.Stands fs dir) (hne : t.isDirectory = false → t.compiled ≠ t.path)
    (hnamed : t.Named) : Sibling fs dir t := by
  obtain ⟨before, s, name, hw, hup, hwords, hother⟩ := exists_name_of_named hs hne hnamed
  obtain ⟨habs, hslash, -⟩ := hs.words_compiled
  obtain ⟨hdirectory, habs'⟩ := hs.directory_words hw
  constructor
  · refine ⟨name, Path.same_of_words ?_ ?_ ?_, ?_⟩
    · rw [habs, Path.isAbsolute_join habs' name.slash_notMem_bytes]
    · rw [hwords, Path.words_join name.slash_notMem_bytes name.bytes_ne_nil, hdirectory]
    · rw [hwords, List.mem_append, List.mem_singleton, not_or]
      refine ⟨fun hdot => hs.regular.plain ?_, name.bytes_ne_dot.symm⟩
      rw [hw]
      exact List.mem_append_left _ hdot
    · rw [Path.fileName_eq hs.regular.plain hw, if_neg hup]
      exact fun h => hother (Option.some.inj h).symm
  · intro c l hc hl
    obtain ⟨d, hleads, hd⟩ := hs.leads_before hw
    obtain ⟨n, rfl, rfl⟩ := home_eq hs hw hup hleads hd hl
    have hnames : Names fs t.compiled d name.bytes := ⟨habs, hslash, ⟨before, hwords, hleads⟩, hd⟩
    have hplace : c = name :: d := by
      rcases hc with hc | hc
      · obtain ⟨-, n', hn', -, rfl⟩ := hnames.site?_eq_some_iff.1 hc
        rw [Name.eq_of_bytes hn']
      · rcases hnames.cases_of_locate hc with ⟨h, -⟩ | ⟨h, -⟩ | ⟨n', hn', -, rfl⟩
        · exact absurd h name.bytes_ne_dot
        · exact absurd h name.bytes_ne_up
        · rw [Name.eq_of_bytes hn']
    rw [hplace]
    refine ⟨fun h => hother ?_, fun h => hother ?_⟩
    · rw [eq_of_suffix h (List.suffix_refl _)]
    · rw [eq_of_suffix (List.suffix_refl _) h]

/-! ## Inputs without a name -/

theorem plain_directory (hs : t.Stands fs dir) : [dot] ∉ t.directory.words := by
  rcases List.eq_nil_or_concat t.path.words with hw | ⟨before, s, hw⟩
  · rw [(hs.directory_words_nil hw).1]
    exact List.not_mem_nil
  · rw [List.concat_eq_append] at hw
    rw [(hs.directory_words hw).1]
    exact fun hdot => hs.regular.plain (hw ▸ List.mem_append_left _ hdot)

theorem plain_compiled (hs : t.Stands fs dir) : [dot] ∉ t.compiled.words := by
  obtain ⟨-, -, before, s, hw, hname, hbefore⟩ := hs.words_compiled
  have hdot : s ≠ [dot] := hname.ne (by decide) (by decide) (by decide)
  rw [hw, List.mem_append, List.mem_singleton, not_or]
  refine ⟨?_, hdot.symm⟩
  rcases hbefore with hdirectory | ⟨rfl, -⟩
  · exact hdirectory ▸ plain_directory hs
  · exact hs.regular.plain

theorem Sibling.words (hsibling : Sibling fs dir t) (hs : t.Stands fs dir) :
    ∃ name : Name, t.compiled.words = t.directory.words ++ [name.bytes] := by
  obtain ⟨name, ⟨-, hparts⟩, -⟩ := hsibling.joined
  have hjoin := Path.words_join (p := t.directory) name.slash_notMem_bytes name.bytes_ne_nil
  have hplain : [dot] ∉ (t.directory.join ⟨name.bytes⟩).words := by
    rw [hjoin, List.mem_append, List.mem_singleton, not_or]
    exact ⟨plain_directory hs, name.bytes_ne_dot.symm⟩
  rw [Path.parts_eq_words (plain_compiled hs), Path.parts_eq_words hplain, hjoin] at hparts
  exact ⟨name, hparts⟩

/-- If the name of a source file degenerates, the path of its class file leads upwards. -/
theorem named_of_sibling_file (hs : (sourceFile p).Stands fs dir)
    (hsibling : Sibling fs dir (sourceFile p)) : (sourceFile p).Named := by
  intro ext hext
  refine Classical.byContradiction fun hdot => ?_
  have hregular : p.Regular := hs.regular
  obtain ⟨hslash, before, s, hw, hup⟩ := hs.last_of_file rfl
  have hname := Path.fileName_eq hregular.plain hw
  rw [if_neg hup, hext] at hname
  obtain rfl := Option.some.inj hname
  have hdegenerate : Path.className (dot :: dot :: ext) = Path.up :=
    (Path.className_eq_up_iff (by simp)).2 ⟨ext, rfl, hdot⟩
  obtain ⟨hwords, -⟩ := Path.compiledFile_spec hregular hslash hw hup
  obtain ⟨name, hsame⟩ := hsibling.words hs
  rw [(hs.directory_words hw).1] at hsame
  obtain ⟨-, hlast⟩ := List.append_inj' (hwords.symm.trans hsame) rfl
  exact name.bytes_ne_up ((List.singleton_inj.1 hlast).symm.trans hdegenerate)

theorem not_sibling_root (hs : (sourceDirectory p).Stands fs dir) (hp : p.Canonical)
    (hw : p.words = []) : ¬ Sibling fs dir (sourceDirectory p) := by
  intro hsibling
  have hregular : p.Regular := hs.regular
  obtain ⟨hwords, hslash, habs⟩ :=
    Path.compiledDirectory_of_unnamed hregular (Path.fileName_eq_none hregular.plain hw)
  have hcheck : p.compiledDirectory.check = .ok () := by
    rcases hp.text_of_words_nil hw with htext | htext
    · obtain rfl : p = ⟨[slash]⟩ := congrArg Path.mk htext
      cbv
    · obtain rfl : p = ⟨[slash, slash]⟩ := congrArg Path.mk htext
      cbv
  have hnames : Names fs p.compiledDirectory [] (OsString.ofString compiledSuffix) :=
    ⟨habs, hslash, ⟨[], by rw [hwords, hw], .done⟩, get?_nil fs⟩
  have hsite : fs.site? dir p.compiledDirectory = some [⟨OsString.ofString compiledSuffix, by decide⟩] :=
    hnames.site?_eq_some_iff.2 ⟨hcheck, _, rfl, by unfold Fits; decide, rfl⟩
  obtain ⟨l, e, hl, -⟩ : ∃ l e, fs.locate dir true p = .ok l ∧ _ := hs.found
  have hlink (k : Location) (target : Path) (hk : fs.site? dir p = some k) :
      fs.get? k ≠ some (.link target) := by
    obtain ⟨-, before, d, n, -, hw', -⟩ := site?_eq_some_iff.1 hk
    rw [hw] at hw'
    cases (List.append_eq_nil_iff.1 hw'.symm).2
  have hroot : l = [] := by
    obtain ⟨-, hleads⟩ := locate_eq_ok_iff.1 hl
    rw [Path.start, if_pos hregular.isAbsolute, Path.steps_eq, hw, List.nil_append] at hleads
    have hwalk := hleads.walk_eq
    split at hwalk
    · rw [walk_dot (get?_nil fs), walk_nil] at hwalk
      exact (Except.ok.inj hwalk).symm
    · rw [walk_nil] at hwalk
      exact (Except.ok.inj hwalk).symm
  exact (hsibling.apart _ l (Or.inl hsite) (Or.inr ⟨hl, hlink⟩)).2 (hroot ▸ List.nil_suffix)

/-- The class directory of a source directory without a name is in that directory. -/
theorem named_of_sibling_directory (hs : (sourceDirectory p).Stands fs dir) (hp : p.Canonical)
    (hsibling : Sibling fs dir (sourceDirectory p)) : (sourceDirectory p).Named := by
  intro hnone
  have hregular : p.Regular := hs.regular
  rcases List.eq_nil_or_concat p.words with hw | ⟨above, s, hw⟩
  · exact not_sibling_root hs hp hw hsibling
  · rw [List.concat_eq_append] at hw
    obtain ⟨hwords, -⟩ := Path.compiledDirectory_of_unnamed hregular hnone
    obtain ⟨name, hsame⟩ := hsibling.words hs
    rw [(hs.directory_words hw).1] at hsame
    have hlength := congrArg List.length (hwords.symm.trans hsame)
    rw [hw] at hlength
    simp at hlength

/-- The classes of an input that was accepted are its siblings exactly if it is named, whatever becomes
of the files around it. -/
theorem sibling_iff_named {typed : Path} (hok : h.run (resolve typed) = (.ok t, h')) :
    t.Stands h'.files h'.directory ∧
      ∀ fs dir, t.Stands fs dir → (Sibling fs dir t ↔ t.Named) := by
  obtain ⟨rfl, hstands, hne⟩ := resolve_ok hok
  refine ⟨hstands, fun fs dir hs => ⟨fun hsibling => ?_, sibling_of_named hs hne⟩⟩
  obtain ⟨p, e, hp, -, hentry, -⟩ := resolve_eq_ok hok
  obtain ⟨rfl, -, -⟩ := ofEntry_eq_ok hentry
  have hcanonical := canonical_of_run_absolute hp
  cases t with
  | sourceFile p => exact named_of_sibling_file hs hsibling
  | sourceDirectory p => exact named_of_sibling_directory hs hcanonical hsibling

/-! ## A name that degenerates -/

def plainEntry : Name := ⟨.ofString "Foo.java", by decide⟩

def dotsEntry : Name := ⟨.ofString "..java", by decide⟩

def dottedInput : Path := .ofString "/..java"

/-- A source file under a plain name and one whose name is two dots and an extension. -/
def dottedFiles : FileSystem :=
  .flat [(plainEntry, .file [] false), (dotsEntry, .file [] false)] (by decide)

theorem sibling_plain :
    (Host.sound dottedFiles []).run (resolve (.ofString "/Foo.java")) =
        (.ok (.sourceFile (.ofString "/Foo.java")), (Host.sound dottedFiles []).counted) ∧
      Sibling dottedFiles [] (.sourceFile (.ofString "/Foo.java")) := by
  have hclass : (.ofString "/Foo.java" : Path).compiledFile = .ofString "/Foo.class" := by cbv
  have hstat : ((Host.sound dottedFiles []).run (Host.stat (.ofString "/Foo.java"))).1 =
      .ok (.file [] false) := by cbv
  have hok := run_resolve_file (p := .ofString "/Foo.java") (by cbv) (by cbv) hstat
    (hclass ▸ by decide)
  obtain ⟨hstands, hiff⟩ := sibling_iff_named hok
  refine ⟨hok, (hiff dottedFiles [] hstands).2 fun ext hext => ?_⟩
  have hname : (.ofString "/Foo.java" : Path).fileName = some (.ofString "Foo.java") := by cbv
  rw [hname] at hext
  cases hext

/-- The class file of `..java` is looked for at `..`, around the source file. -/
theorem classes_above_input :
    let h := (Host.sound dottedFiles []).counted
    let t := Input.sourceFile dottedInput
    (Host.sound dottedFiles []).run (resolve dottedInput) = (.ok t, h) ∧
      t.compiled = .ofString "/.." ∧ h.files.locate h.directory false t.compiled = .ok [] ∧
      h.files.site? h.directory t.path = some [dotsEntry] ∧ ¬ Sibling h.files h.directory t := by
  have hclass : dottedInput.compiledFile = .ofString "/.." := by cbv
  have hstat : ((Host.sound dottedFiles []).run (Host.stat dottedInput)).1 = .ok (.file [] false) := by
    cbv
  have hok := run_resolve_file (p := dottedInput) (by cbv) (by cbv) hstat (hclass ▸ by decide)
  have hplace : dottedFiles.locate [] false dottedInput.compiledFile = .ok [] := by
    rw [hclass]
    cbv
  have hsite : dottedFiles.site? [] dottedInput = some [dotsEntry] := by cbv
  refine ⟨hok, hclass, hplace, hsite, fun hsibling => ?_⟩
  exact (hsibling.apart [] [dotsEntry] (Or.inr hplace) (Or.inl hsite)).1 List.nil_suffix

end Input
end SmaliBuild
