import SmaliBuild.Proofs.Files.Prune
import SmaliBuild.Proofs.Host.Pairs
import SmaliBuild.Proofs.Manifest.Account
/-!
# Writing a manifest anew

A new manifest owes nothing to the file or link that it replaces: it does not matter which one that
was, or whether there was any (`build_renews`).  Once the path is cleared two machines that differ in
it are twins, and a walk goes on alike wherever its calls do (`addDirectory_alike`).
-/
namespace SmaliBuild.Manifest
open FileSystem Host
variable {l : Location} {h h₁ h₂ : Host} {m : Manifest} {p path root : Path}

/-! ## Two walks side by side -/

/-- The calls of a walk are alike on machines related by `R`, as far as the walk enters the directories
`D` and looks at the paths `Q`. -/
structure Paired (l : Location) (R : Host → Host → Prop) (Q D : Path → Prop) : Prop where
  noting : ∀ h₁ h₂ j₁ j₂, R h₁ h₂ → R (h₁.noting j₁) (h₂.noting j₂)
  append : ∀ bytes, Alike R (Host.append l bytes)
  list : ∀ d, D d → Alike R (Host.list d)
  isDirectory : ∀ p, Q p → Alike R (Host.isDirectory p)
  entry : ∀ d (n : Name), D d → Q (d.entry n.bytes)
  enter : ∀ h₁ h₂ p, R h₁ h₂ → Q p → (h₁.run (Host.isDirectory p)).1 = true → D p

section
variable {R : Host → Host → Prop} {Q D : Path → Prop}

theorem skip_alike (hR : Paired l R Q D) (m : Manifest) (p : Path) (e : IoError) :
    Alike R (m.skip p e) :=
  (log_alike hR.noting _ _ _).bind fun _ => .pure _

theorem write_alike (hR : Paired l R Q D) (p : Path) (m : Manifest) : Alike R (write l p m) :=
  (hR.append _).bind fun answer => by
    cases answer with
    | ok => exact .pure _
    | error e => exact skip_alike hR m p e

mutual

theorem addDirectory_alike (hR : Paired l R Q D) (d : Path) (hd : D d) (m : Manifest) :
    Alike R (addDirectory l d m) := by
  rw [addDirectory]
  refine (hR.list d hd).bind fun answer => ?_
  cases answer with
  | error e => exact skip_alike hR m d e
  | ok listing =>
    refine (addEntries_alike hR d hd listing.short listing.names m).bind fun m' => ?_
    cases listing.broken with
    | none => exact .pure m'
    | some e => exact skip_alike hR m' d e
termination_by (pathLimit - d.byteLength, 1, 0)

theorem addEntries_alike (hR : Paired l R Q D) (d : Path) (hd : D d)
    (short : d.byteLength < pathLimit) (names : List Name) (m : Manifest) :
    Alike R (addEntries l d short names m) := by
  match names with
  | [] =>
    rw [addEntries]
    exact .pure m
  | n :: names =>
    have hentry := hR.entry d n hd
    have hbelow (hn : D (d.entry n.bytes)) : Alike R (addDirectory l (d.entry n.bytes) m) :=
      addDirectory_alike hR (d.entry n.bytes) hn m
    have hrest (m' : Manifest) : Alike R (addEntries l d short names m') :=
      addEntries_alike hR d hd short names m'
    rw [addEntries]
    intro h₁ h₂ h
    obtain ⟨hanswer, hafter⟩ := hR.isDirectory _ hentry h₁ h₂ h
    rw [run_bind, run_bind, hanswer]
    cases henter : (h₁.run (Host.isDirectory (d.entry n.bytes))).1 with
    | true => exact ((hbelow (hR.enter h₁ h₂ _ h hentry henter)).bind hrest) _ _ hafter
    | false => exact ((write_alike hR _ m).bind hrest) _ _ hafter
termination_by (pathLimit - d.byteLength, 0, names.length)
decreasing_by
  · have := Path.byteLength_lt_entry d n.bytes_ne_nil
    exact Prod.Lex.left _ _ (by omega)
  · exact Prod.Lex.right _ (Prod.Lex.right _ (by simp))

end

end

theorem paired_twin (l : Location) : Paired l Twin (fun _ => True) (fun _ => True) where
  noting _ _ j₁ j₂ ht := ht.noting j₁ j₂
  append bytes := append_twin l bytes
  list d _ := list_twin d
  isDirectory p _ := isDirectory_twin p
  entry _ _ _ := trivial
  enter _ _ _ _ _ _ := trivial

theorem create_twin (root path : Path) : Alike Twin (create root path) :=
  (createFile_twin path).bind fun answer => by
    cases answer with
    | error e => exact .pure _
    | ok l =>
      have hpaired := paired_twin l
      exact (addDirectory_alike hpaired root trivial _).bind fun m =>
        (log_alike hpaired.noting _ _ _).bind fun _ => .pure _

/-! ## The same manifest -/

/-- Nothing tells the two file systems apart but a file or link at `l`. -/
structure SameBut (l : Location) (a b : FileSystem) : Prop where
  first : a.get? l ≠ some .directory
  second : b.get? l ≠ some .directory
  rest : b.prune l = a.prune l

theorem SameBut.get?_directory_iff {a b : FileSystem} (hs : SameBut l a b) (hl : l ≠ [])
    (k : Location) : b.get? k = some .directory ↔ a.get? k = some .directory := by
  by_cases hk : l <:+ k
  · have hnot {c : FileSystem} (hc : c.get? l ≠ some .directory) : c.get? k ≠ some .directory := by
      by_cases heq : l = k
      · exact heq ▸ hc
      · rw [get?_eq_none_below hk heq hc]
        simp
    exact iff_of_false (hnot hs.second) (hnot hs.first)
  · have hb : (b.prune l).get? k = _ := get?_prune hl
    have ha : (a.prune l).get? k = _ := get?_prune hl
    rw [if_neg hk] at ha hb
    rw [← ha, ← hb, hs.rest]

theorem run_create_slash (hsite : h.files.site? h.directory path = some l)
    (hslash : path.endsWithSlash = true) (root : Path) :
    h.run (create root path) = (.error (.manifestCreation path
      (match h.faults h.made with | some f => f.error | none => .os .isDirectory)), h.counted) := by
  exact run_create_failed (run_createFile_error (createFile_of_slash hsite hslash))

/-- Machines that differ only in what stands under the path write the same manifest, and then they do
not differ any more; under a path that no file can have, or without a root, neither does anything. -/
theorem build_sameBut (root : Path) (ha : Abreast h₁ h₂) (hs : SameBut l h₁.files h₂.files)
    (hsite₁ : h₁.files.site? h₁.directory path = some l)
    (hsite₂ : h₂.files.site? h₂.directory path = some l) (hf : h₁.faults h₁.made = none) :
    (h₂.run (build root path)).1 = (h₁.run (build root path)).1 ∧
      ((h₂.run (build root path)).2.files = (h₁.run (build root path)).2.files ∨
        (path.endsWithSlash = true ∨ ∃ e, (h₁.run (Host.absolute root)).1 = .error e) ∧
          (∃ e, (h₁.run (build root path)).1 = .error e) ∧
          (h₁.run (build root path)).2.files = h₁.files ∧
          (h₂.run (build root path)).2.files = h₂.files) := by
  have hroot := run_absolute_congr (p := root) ha.directory
    (hs.get?_directory_iff (site?_ne_nil hsite₁) h₁.directory)
  cases hfirst : (h₁.run (Host.absolute root)).1 with
  | error e =>
    rw [run_build_rootless path hfirst, run_build_rootless path (hroot.trans hfirst)]
    exact ⟨rfl, Or.inr ⟨Or.inr ⟨e, rfl⟩, ⟨_, rfl⟩, rfl, rfl⟩⟩
  | ok r =>
    obtain ⟨j₁, hrun₁⟩ := run_build_cleared path hfirst
    obtain ⟨j₂, hrun₂⟩ := run_build_cleared path (hroot.trans hfirst)
    rw [hrun₁, hrun₂]
    cases hslash : path.endsWithSlash with
    | false =>
      rw [run_unlink_snd hsite₁ hs.first hslash hf, run_unlink_snd hsite₂ hs.second hslash (ha.now ▸ hf)]
      have htwin : Twin ((h₁.counted.withFiles (h₁.files.prune l)).noting j₁)
          ((h₂.counted.withFiles (h₂.files.prune l)).noting j₂) :=
        ⟨(ha.counted.withFiles _ _).noting j₁ j₂, hs.rest⟩
      obtain ⟨hanswer, hafter⟩ := create_twin r path _ _ htwin
      exact ⟨hanswer, Or.inl hafter.files⟩
    | true =>
      rw [run_unlink_slash hslash, run_unlink_slash hslash,
        run_create_slash (h := h₁.counted.noting j₁) hsite₁ hslash,
        run_create_slash (h := h₂.counted.noting j₂) hsite₂ hslash]
      have hnow := (ha.counted.noting j₁ j₂).now
      rw [hnow]
      exact ⟨rfl, Or.inr ⟨Or.inl rfl, ⟨_, rfl⟩, rfl, rfl⟩⟩

/-! ## The old and the new file -/

/-- What the walk does to the files goes with the file it writes to. -/
theorem steps_prune (l : Location) :
    Steps l fun a b => b.2.files.prune l = a.2.files.prune l where
  refl _ := rfl
  trans _ _ _ hx hy := hy.trans hx
  look _ _ := rfl
  skip _ _ _ _ := rfl
  write m p h := by
    obtain ⟨written, journal, hrun⟩ := run_write_snd l p m h
    rw [hrun]
    exact prune_append

theorem recreated_prune
    (hsite : (recreated path h).files.site? (recreated path h).directory path = some l) :
    h.files.site? h.directory path = some l ∧
      (recreated path h).files.prune l = h.files.prune l := by
  obtain ⟨hsteady, hdrops⟩ := clear_drops path h
  have hcleared : (h.run (clear path)).2.files.site? h.directory path = some l ∧
      (recreated path h).files.prune l = (h.run (clear path)).2.files.prune l := by
    unfold recreated at hsite ⊢
    rw [← hsteady.directory]
    rcases run_createFile_cases (h := (h.run (clear path)).2) (p := path) with
      ⟨e, hrun, -⟩ | ⟨made, k, hmade, hrun⟩
    · rw [hrun] at hsite ⊢
      exact ⟨hsite, rfl⟩
    · rw [hrun] at hsite ⊢
      obtain ⟨hk, hfree, hget⟩ := createFile_eq_ok hmade
      obtain rfl := Option.some.inj ((site?_mono (within_of_free hfree hget) hk).symm.trans hsite)
      exact ⟨hk, prune_createFile hmade⟩
  have hal := site?_mono hdrops.within hcleared.1
  refine ⟨hal, hcleared.2.trans ?_⟩
  obtain ⟨journal, hclear, -⟩ := run_clear_snd path h
  rw [hclear]
  rcases run_unlink_cases (h := h) (p := path) with ⟨e, hrun⟩ | ⟨k, -, hk, -, -, hrun⟩
  · rw [hrun]
    rfl
  · obtain rfl := Option.some.inj (hal.symm.trans hk)
    rw [hrun]
    exact without_prune (List.mem_singleton.2 rfl)

theorem sameBut_of_build {h' : Host} (hbuild : h.run (build root path) = (.ok m, h')) :
    ∃ l, h.files.site? h.directory path = some l ∧ h'.files.site? h'.directory path = some l ∧
      SameBut l h.files h'.files := by
  obtain ⟨-, hreplaces⟩ := build_replaces root path h
  rw [hbuild] at hreplaces
  obtain ⟨-, l, hl, hdir, ⟨content, x, hfile⟩, -⟩ := hreplaces
  obtain ⟨r, k, event, -, hsite, -, -, -, rfl⟩ := build_eq_ok hbuild
  obtain ⟨hk, hmade⟩ := recreated_prune hsite
  obtain rfl := Option.some.inj (hl.symm.trans hk)
  have hfills := (addDirectory_ensures l r ⟨path, [], []⟩ (recreated path h)).1
  have hwalk := addDirectory_steps (steps_prune l) r ⟨path, [], []⟩ (recreated path h)
  refine ⟨l, hl, ?_, hdir, ?_, hwalk.trans hmade⟩
  · have hlater := site?_mono hfills.within hsite
    rw [← hfills.steady.directory] at hlater
    exact hlater
  · rw [hfile]
    simp

/-! ## All there is to a new manifest -/

/-- How writing a manifest of `root` at `path` depends on what stands there, and what it leaves. -/
structure Renews (root path : Path) (h : Host) : Prop where
  /-- Without trouble a manifest is written where nothing stands. -/
  fresh : (∀ i, h.faults i = none) → ∀ l r, h.files.site? h.directory path = some l →
    h.files.get? l = none → path.endsWithSlash = false → (h.run (Host.absolute root)).1 = .ok r →
    ∃ m, (h.run (build root path)).1 = .ok m
  /-- If the old entry can be taken away, it makes no difference which one it was; it stays only under a
  path that no file can have, or without a root. -/
  alike : ∀ l h₂, Abreast h h₂ → SameBut l h.files h₂.files →
    h.files.site? h.directory path = some l → h₂.files.site? h₂.directory path = some l →
    h.faults h.made = none →
    (h₂.run (build root path)).1 = (h.run (build root path)).1 ∧
      SameAt (· ≠ l) h.files (h.run (build root path)).2.files ∧
      ((h₂.run (build root path)).2.files = (h.run (build root path)).2.files ∨
        (path.endsWithSlash = true ∨ ∃ e, (h.run (Host.absolute root)).1 = .error e) ∧
          (∃ e, (h.run (build root path)).1 = .error e) ∧
          (h.run (build root path)).2.files = h.files ∧
          (h₂.run (build root path)).2.files = h₂.files)
  /-- Without trouble a second time gives the same manifest as the first. -/
  again : (∀ i, h.faults i = none) → ∀ m h', h.run (build root path) = (.ok m, h') →
    (h'.run (build root path)).1 = .ok m ∧ (h'.run (build root path)).2.files = h'.files
  /-- If it fails it changes nothing, as long as a file can be made where one was taken away. -/
  atomic : ∀ e, (h.run (build root path)).1 = .error e →
    ((h.run (Host.unlink path)).1 = .ok () →
      ∃ l, ((h.run (clear path)).2.run (Host.createFile path)).1 = .ok l) →
    (h.run (build root path)).2.files = h.files
  /-- It fails where a directory stands. -/
  occupied : ∀ l, h.files.site? h.directory path = some l → h.files.get? l = some .directory →
    (∃ e, (h.run (build root path)).1 = .error e) ∧ (h.run (build root path)).2.files = h.files

theorem build_others (root : Path) (hsite : h.files.site? h.directory path = some l) :
    SameAt (· ≠ l) h.files (h.run (build root path)).2.files := by
  obtain ⟨-, hreplaces⟩ := build_replaces root path h
  generalize h.run (build root path) = out at hreplaces ⊢
  obtain ⟨answer, h'⟩ := out
  cases answer with
  | ok m =>
    obtain ⟨-, k, hk, -, -, hothers⟩ := hreplaces
    obtain rfl := Option.some.inj (hsite.symm.trans hk)
    exact hothers
  | error e =>
    rcases hreplaces with hsame | ⟨hdrops, -⟩
    · exact hsame ▸ .refl _
    · intro k hk
      rcases hdrops k with hsame | ⟨hk', -⟩
      · exact hsame
      · exact absurd (Option.some.inj (hk'.symm.trans hsite)) hk

theorem build_again {h' : Host} (hsound : ∀ i, h.faults i = none)
    (hbuild : h.run (build root path) = (.ok m, h')) :
    (h'.run (build root path)).1 = .ok m ∧ (h'.run (build root path)).2.files = h'.files := by
  obtain ⟨l, hsite, hsite', hs⟩ := sameBut_of_build hbuild
  have hsteady := (build_replaces root path h).1
  rw [hbuild] at hsteady
  have ha : Abreast h h' := ⟨hsteady.directory, fun i => by
    rw [hsteady.faults, hsound, hsound]⟩
  obtain ⟨hanswer, hfiles⟩ := build_sameBut root ha hs hsite hsite' (hsound _)
  rw [hbuild] at hanswer hfiles
  refine ⟨hanswer, hfiles.resolve_right ?_⟩
  rintro ⟨-, ⟨e, he⟩, -⟩
  cases he

theorem build_atomic {e : Failure} (he : (h.run (build root path)).1 = .error e)
    (hmade : (h.run (Host.unlink path)).1 = .ok () →
      ∃ l, ((h.run (clear path)).2.run (Host.createFile path)).1 = .ok l) :
    (h.run (build root path)).2.files = h.files := by
  cases hroot : (h.run (Host.absolute root)).1 with
  | error e => rw [run_build_rootless path hroot]
  | ok r =>
    rw [run_build_rooted path hroot] at he ⊢
    rcases run_createFile_cases (h := (h.run (clear path)).2) (p := path) with
      ⟨x, hfailed, -⟩ | ⟨made, l, -, hdone⟩
    · obtain ⟨journal, hclear, -⟩ := run_clear_snd path h
      rw [run_create_failed hfailed, files_counted, hclear]
      rcases run_unlink_cases (h := h) (p := path) with ⟨x', hrun⟩ | ⟨k, -, -, -, -, hrun⟩
      · rw [hrun]
        rfl
      · obtain ⟨l, hl⟩ := hmade (by rw [hrun])
        rw [hfailed] at hl
        cases hl
    · rw [create, run_bind, hdone] at he
      cases he

theorem build_occupied (root : Path) (hsite : h.files.site? h.directory path = some l)
    (hdir : h.files.get? l = some .directory) :
    (∃ e, (h.run (build root path)).1 = .error e) ∧
      (h.run (build root path)).2.files = h.files := by
  have hfails : ∃ e, (h.run (build root path)).1 = .error e := by
    obtain ⟨-, hreplaces⟩ := build_replaces root path h
    generalize h.run (build root path) = out at hreplaces ⊢
    obtain ⟨answer, h'⟩ := out
    cases answer with
    | error e => exact ⟨e, rfl⟩
    | ok m =>
      obtain ⟨-, k, hk, hnot, -⟩ := hreplaces
      obtain rfl := Option.some.inj (hsite.symm.trans hk)
      exact absurd hdir hnot
  obtain ⟨e, he⟩ := hfails
  refine ⟨⟨e, he⟩, build_atomic he fun hok => ?_⟩
  rcases run_unlink_cases (h := h) (p := path) with ⟨x, hrun⟩ | ⟨k, -, hk, -, hnot, -⟩
  · rw [hrun] at hok
    cases hok
  · obtain rfl := Option.some.inj (hsite.symm.trans hk)
    exact absurd hdir hnot

theorem build_renews (root path : Path) (h : Host) : Renews root path h where
  fresh hsound _ _ hsite hfree hslash hroot :=
    let ⟨_, hbuild⟩ := run_build hroot (recreated_of_free hsound hsite hfree hslash).1
    ⟨_, congrArg Prod.fst hbuild⟩
  alike _ _ ha hs hsite hsite₂ hf :=
    let ⟨hanswer, hfiles⟩ := build_sameBut root ha hs hsite hsite₂ hf
    ⟨hanswer, build_others root hsite, hfiles⟩
  again hsound _ _ hbuild := build_again hsound hbuild
  atomic _ he hmade := build_atomic he hmade
  occupied _ hsite hdir := build_occupied root hsite hdir

/-! ## A manifest in the directory that it lists -/

/-- A directory with a source file. -/
def freshFiles : FileSystem := .flat [(sharedFile, .file [] false)] (by decide)

/-- The same with an entry where the manifest is to be. -/
def staleFiles (e : Entry) : FileSystem :=
  .flat [(sharingEntry, e), (sharedFile, .file [] false)] (by
    have hnames : [sharingEntry, sharedFile].Nodup := by decide
    exact hnames)

def renewedRoot : Path := .ofString "/"

def renewedPath : Path := .ofString "/FilesList.txt"

theorem site?_renewedPath (fs : FileSystem) : fs.site? [] renewedPath = some [sharingEntry] :=
  site?_at_root fs (by cbv) (by cbv) (by unfold Fits; decide)

theorem sameBut_staleFiles {e : Entry} (he : e ≠ .directory) :
    SameBut [sharingEntry] freshFiles (staleFiles e) where
  first := by decide
  second := by
    have hget : (staleFiles e).get? [sharingEntry] = some e :=
      get?_flat_eq_some_iff.2 (Or.inr ⟨sharingEntry, by simp, rfl⟩)
    simpa [hget] using he
  rest := eq_of_entries rfl

/-- Whatever file or link is there before, the manifest is the one that is written without it. -/
theorem build_renews_stale : ∃ m h', (Host.sound freshFiles []).run (build renewedRoot renewedPath) =
      (.ok m, h') ∧ (h'.run (build renewedRoot renewedPath)).1 = .ok m ∧
    ∀ e ≠ Entry.directory,
      ((Host.sound (staleFiles e) []).run (build renewedRoot renewedPath)).1 = .ok m ∧
      ((Host.sound (staleFiles e) []).run (build renewedRoot renewedPath)).2.files = h'.files := by
  have hroot : ((Host.sound freshFiles []).run (Host.absolute renewedRoot)).1 = .ok renewedRoot := by
    cbv
  obtain ⟨m, h', hbuild, -, -⟩ := exists_build_whole (fun _ => rfl) (site?_renewedPath freshFiles)
    (by decide) (by cbv) hroot (by cbv)
  have hrenews := build_renews renewedRoot renewedPath (Host.sound freshFiles [])
  refine ⟨m, h', hbuild, (hrenews.again (fun _ => rfl) m h' hbuild).1, fun e he => ?_⟩
  obtain ⟨hanswer, -, hfiles⟩ := hrenews.alike _ (Host.sound (staleFiles e) []) ⟨rfl, fun _ => rfl⟩
    (sameBut_staleFiles he) (site?_renewedPath _) (site?_renewedPath _) rfl
  rw [hbuild] at hanswer hfiles
  refine ⟨hanswer, hfiles.resolve_right ?_⟩
  rintro ⟨-, ⟨f, hf⟩, -⟩
  cases hf

/-- The machine refuses the first call. -/
def balking (files : FileSystem) : Host := facing files [] fun i => if i = 0 then some stall else none

theorem createFile_balking :
    (((balking freshFiles).run (clear renewedPath)).2.run (Host.createFile renewedPath)).1 =
      .ok [sharingEntry] := by
  obtain ⟨journal, hclear, -⟩ := run_clear_snd renewedPath (balking freshFiles)
  have hunlink : ((balking freshFiles).run (Host.unlink renewedPath)).2 =
      (balking freshFiles).counted := by
    rw [Host.unlink, run_change]
    rfl
  have hfree : freshFiles.get? [sharingEntry] = none := by decide
  rw [hclear, hunlink]
  obtain ⟨made, -, hrun⟩ := run_createFile_free (h := (balking freshFiles).counted.noting journal)
    (site?_renewedPath freshFiles) hfree (by cbv)
  rw [hrun]
  rfl

/-- What was there before does make a difference if the path ends in a dot, or if the old entry cannot
be taken away; and if there is no root, it stays. -/
theorem build_not_renewed :
    let old := Entry.file [] false
    let dotted : Path := .ofString "/FilesList.txt/."
    (dotted.fileName = some sharingEntry.bytes ∧ dotted.parent = some renewedRoot ∧
      ((Host.sound (staleFiles old) []).run (build renewedRoot dotted)).1 ≠
        ((Host.sound freshFiles []).run (build renewedRoot dotted)).1) ∧
    ((balking (staleFiles old)).run (build renewedRoot renewedPath)).1 ≠
      ((balking freshFiles).run (build renewedRoot renewedPath)).1 ∧
    ((Host.sound (staleFiles old) []).run (build ⟨[]⟩ renewedPath)).2.files.get? [sharingEntry] ≠
      ((Host.sound freshFiles []).run (build ⟨[]⟩ renewedPath)).2.files.get? [sharingEntry] := by
  refine ⟨⟨by cbv, by cbv, ?_⟩, ?_, ?_⟩
  · have hstale : ((Host.sound (staleFiles (.file [] false)) []).run
        (build renewedRoot (.ofString "/FilesList.txt/."))).1 =
          .error (.manifestCreation (.ofString "/FilesList.txt/.") (.os .notDirectory)) := by cbv
    have hfresh : ((Host.sound freshFiles []).run
        (build renewedRoot (.ofString "/FilesList.txt/."))).1 =
          .error (.manifestCreation (.ofString "/FilesList.txt/.") (.os .noEntry)) := by cbv
    rw [hstale, hfresh]
    decide
  · have hstale : ((balking (staleFiles (.file [] false))).run (build renewedRoot renewedPath)).1 =
        .error (.manifestCreation renewedPath (.os .alreadyThere)) := by cbv
    have hroot : ((balking freshFiles).run (Host.absolute renewedRoot)).1 = .ok renewedRoot := by cbv
    obtain ⟨event, hfresh⟩ := run_build hroot createFile_balking
    rw [hstale, hfresh]
    simp
  · have hstale : ((Host.sound (staleFiles (.file [] false)) []).run
        (build ⟨[]⟩ renewedPath)).2.files.get? [sharingEntry] = some (.file [] false) := by cbv
    have hfresh : ((Host.sound freshFiles []).run
        (build ⟨[]⟩ renewedPath)).2.files.get? [sharingEntry] = none := by cbv
    rw [hstale, hfresh]
    simp

end SmaliBuild.Manifest
