import SmaliBuild.Proofs.Host.Steps
import SmaliBuild.Manifest
/-!
# What writing a manifest can change

The walk that fills a manifest looks at whatever it meets and writes to the one file it was given
(`addDirectory_ensures`).  With the removal and the creation before it, a manifest changes nothing but
the entry at the site of its path (`build_replaces`).
-/
namespace SmaliBuild.Manifest
open FileSystem Host

/-- Nothing but the content of the file at `l` has changed. -/
structure Fills (l : Location) (h h' : Host) : Prop where
  steady : h.Steady h'
  others : SameAt (· ≠ l) h.files h'.files
  within : h.files.Within h'.files

variable {l : Location} {h h' h'' : Host} {p : Path}

theorem Fills.of_steady (hs : h.Steady h') (hf : h'.files = h.files) : Fills l h h' :=
  ⟨hs, hf ▸ .refl _, hf ▸ .refl _⟩

instance : Std.Refl (Fills l) := ⟨fun h => .of_steady (.refl h) rfl⟩

instance : IsTrans Host (Fills l) :=
  ⟨fun _ _ _ hx hy => ⟨hx.steady.trans hy.steady, hx.others.trans hy.others,
    hx.within.trans hy.within⟩⟩

/-! ## The parts of a manifest -/

/-- A path is skipped, and some of its line may stand in the file then, or it has a line. -/
theorem run_write_cases (l : Location) (p : Path) (m : Manifest) (h : Host) :
    (∃ e written, h.run (write l p m) =
        (h.counted.withFiles (h.files.append l written)).run (m.skip p e)) ∨
      h.run (write l p m) = ({ m with entries := m.entries ++ [p] },
        h.counted.withFiles (h.files.append l (line p))) := by
  rw [write, run_bind]
  rcases run_append_cases (h := h) l (line p) with ⟨e, written, hrun⟩ | hrun
  · rw [hrun]
    exact Or.inl ⟨e, written, rfl⟩
  · rw [hrun]
    exact Or.inr rfl

theorem run_write_snd (l : Location) (p : Path) (m : Manifest) (h : Host) :
    ∃ written journal, (h.run (write l p m)).2 =
      (h.counted.withFiles (h.files.append l written)).noting journal := by
  rcases run_write_cases l p m h with ⟨e, written, hrun⟩ | hrun
  · exact ⟨written, [.log _], by rw [hrun]; rfl⟩
  · exact ⟨line p, [], by rw [hrun, noting_nil]⟩

/-- Clearing a path does to the files what taking the entry away does. -/
theorem run_clear_snd (path : Path) (h : Host) :
    ∃ journal, (h.run (clear path)).2 = (h.run (Host.unlink path)).2.noting journal ∧
      journal.calls = [] := by
  rw [clear, run_bind]
  generalize h.run (Host.unlink path) = out
  obtain ⟨answer, h'⟩ := out
  cases answer with
  | ok => exact ⟨_, rfl, rfl⟩
  | error e =>
    dsimp only
    split
    · exact ⟨[], (noting_nil h').symm, rfl⟩
    · exact ⟨_, rfl, rfl⟩

theorem run_create_failed {root path : Path} {e : IoError}
    (hfailed : h.run (createFile path) = (.error e, h')) :
    h.run (create root path) = (.error (.manifestCreation path e), h') := by
  rw [create, run_bind, hfailed]
  rfl

theorem run_build_rootless {root : Path} {e : IoError} (path : Path)
    (hroot : (h.run (absolute root)).1 = .error e) :
    h.run (build root path) = (.error (.io root e), h) := by
  rw [build, run_bind, run_absolute_snd, hroot]
  rfl

theorem run_build_rooted {root r : Path} (path : Path) (hroot : (h.run (absolute root)).1 = .ok r) :
    h.run (build root path) = (h.run (clear path)).2.run (create r path) := by
  rw [build, run_bind, run_absolute_snd, hroot]
  rfl

theorem run_build_cleared {root r : Path} (path : Path) (hroot : (h.run (absolute root)).1 = .ok r) :
    ∃ journal, h.run (build root path) =
      ((h.run (Host.unlink path)).2.noting journal).run (create r path) := by
  obtain ⟨journal, hclear, -⟩ := run_clear_snd path h
  exact ⟨journal, hclear ▸ run_build_rooted path hroot⟩

/-! ## The walk -/

theorem skip_ensures (m : Manifest) (p : Path) (e : IoError) :
    Ensures (Fills l) (·.path = m.path) (m.skip p e) := fun h =>
  ⟨.of_steady (h.steady_log _) rfl, rfl⟩

theorem append_ensures (l : Location) (bytes : Bytes) :
    Ensures (Fills l) (fun _ => True) (append l bytes) := by
  intro h
  obtain ⟨written, hw⟩ := run_append_snd (h := h) l bytes
  rw [hw]
  refine ⟨⟨h.steady_counted.trans (steady_withFiles _ _), fun m hm => ?_, fun m e he => ?_⟩, trivial⟩
  · change (h.files.append l written).get? m = _
    rw [get?_append]
    simp only [if_neg hm]
    split <;> simp_all
  · change ((h.files.append l written).get? m).map _ = _
    rw [get?_append, he]
    cases e with
    | file content x =>
      dsimp only
      split <;> rfl
    | directory => rfl
    | link target => rfl

theorem write_ensures (m : Manifest) :
    Ensures (Fills l) (·.path = m.path) (write l p m) := by
  refine (append_ensures l _).bind fun answer _ => ?_
  cases answer with
  | ok => exact .pure rfl
  | error e => exact skip_ensures m p e

theorem isDirectory_ensures : Ensures (Fills l) (fun _ => True) (Host.isDirectory p) := fun h => by
  rw [run_isDirectory_snd]
  exact ⟨.of_steady h.steady_counted rfl, trivial⟩

theorem list_ensures : Ensures (Fills l) (fun _ => True) (Host.list p) := fun h => by
  rw [run_list_snd]
  exact ⟨.of_steady h.steady_counted rfl, trivial⟩

mutual

theorem addDirectory_ensures (l : Location) (d : Path) (m : Manifest) :
    Ensures (Fills l) (·.path = m.path) (addDirectory l d m) := by
  rw [addDirectory]
  refine list_ensures.bind fun answer _ => ?_
  cases answer with
  | error e => exact skip_ensures m d e
  | ok listing =>
    refine (addEntries_ensures l d listing.short listing.names m).bind fun m' hm => ?_
    cases listing.broken with
    | none => exact .pure hm
    | some e => exact hm ▸ skip_ensures m' d e
termination_by (pathLimit - d.byteLength, 1, 0)

theorem addEntries_ensures (l : Location) (d : Path) (short : d.byteLength < pathLimit)
    (names : List Name) (m : Manifest) :
    Ensures (Fills l) (·.path = m.path) (addEntries l d short names m) := by
  match names with
  | [] =>
    rw [addEntries]
    exact .pure rfl
  | n :: names =>
    rw [addEntries]
    have hbelow := addDirectory_ensures l (d.entry n.bytes) m
    have hrest (m' : Manifest) (hm : m'.path = m.path) :
        Ensures (Fills l) (·.path = m.path) (addEntries l d short names m') :=
      hm ▸ addEntries_ensures l d short names m'
    refine isDirectory_ensures.bind fun enter _ => ?_
    split
    · exact hbelow.bind hrest
    · exact (write_ensures m).bind hrest
termination_by (pathLimit - d.byteLength, 0, names.length)
decreasing_by
  · have := Path.byteLength_lt_entry d n.bytes_ne_nil
    exact Prod.Lex.left _ _ (by omega)
  · exact Prod.Lex.right _ (Prod.Lex.right _ (by simp))

end

/-! ## Replacing the file -/

/-- `b` is `a` with a file of its own under `p`, where no directory was. -/
def Replaces (dir : Location) (p : Path) (a b : FileSystem) : Prop :=
  ∃ l, a.site? dir p = some l ∧ a.get? l ≠ some .directory ∧
    (∃ content x, b.get? l = some (.file content x)) ∧ SameAt (· ≠ l) a b

/-- `b` is `a`, perhaps without the entry under `p`, which is no directory then. -/
def Drops (dir : Location) (p : Path) (a b : FileSystem) : Prop :=
  ∀ l, b.get? l = a.get? l ∨ a.site? dir p = some l ∧ a.get? l ≠ some .directory ∧ b.get? l = none

theorem Drops.within {dir : Location} {a b : FileSystem} (hdrops : Drops dir p a b) :
    b.Within a := by
  have htrims : Trims (fun _ => True) a b := fun m => (hdrops m).imp_right fun h => ⟨trivial, h.2.2⟩
  exact htrims.within

theorem clear_drops (path : Path) (h : Host) : h.Steady (h.run (clear path)).2 ∧
    Drops h.directory path h.files (h.run (clear path)).2.files := by
  obtain ⟨journal, hclear, hcalls⟩ := run_clear_snd path h
  rw [hclear]
  rcases run_unlink_cases (h := h) (p := path) with ⟨e, hrun⟩ | ⟨l, hloc, hsite, _, hdir, hrun⟩
  · rw [hrun]
    exact ⟨h.steady_counted.trans (steady_noting _ hcalls), fun l => Or.inl rfl⟩
  · rw [hrun]
    refine ⟨(h.steady_counted.trans (steady_withFiles _ _)).trans (steady_noting _ hcalls),
      fun m => ?_⟩
    have hleaf := trims_prune (P := (· = l)) (site?_ne_nil hsite) (absurd · hdir) rfl m
    exact hleaf.imp_right fun ⟨hm, hnone⟩ => ⟨hm ▸ hsite, hm ▸ hdir, hnone⟩

/-- A file made after its path was cleared, and then filled, replaces what was under the path. -/
theorem replaces_of_drops {dir : Location} {a b made c : FileSystem}
    (hdrops : Drops dir p a b) (hmade : b.createFile dir p = .ok (made, l))
    (hothers : SameAt (· ≠ l) made c) (hwithin : made.Within c) : Replaces dir p a c := by
  obtain ⟨hsite, hnone, hget⟩ := createFile_eq_ok hmade
  have hal := site?_mono hdrops.within hsite
  refine ⟨l, hal, ?_, ?_, fun m hm => ?_⟩
  · rcases hdrops l with hsame | ⟨_, hdir, _⟩
    · rw [← hsame, hnone]
      intro hdir
      cases hdir
    · exact hdir
  · exact hwithin.file (by rw [hget, if_pos rfl])
  · rw [hothers m hm, hget, if_neg hm]
    rcases hdrops m with hsame | ⟨hsite', _, _⟩
    · exact hsame
    · exact absurd (Option.some.inj (hsite'.symm.trans hal)) hm

theorem create_replaces {a : FileSystem} (root path : Path) (h : Host)
    (hdrops : Drops h.directory path a h.files) :
    h.Steady (h.run (create root path)).2 ∧
      match (h.run (create root path)).1 with
      | .ok m => m.path = path ∧ Replaces h.directory path a (h.run (create root path)).2.files
      | .error f => Drops h.directory path a (h.run (create root path)).2.files ∧
        ∃ e, f = .manifestCreation path e := by
  rcases run_createFile_cases (h := h) (p := path) with ⟨e, hrun, _⟩ | ⟨made, l, hmade, hrun⟩
  · rw [run_create_failed hrun]
    exact ⟨h.steady_counted, hdrops, e, rfl⟩
  · rw [create, run_bind, hrun]
    dsimp only
    rw [run_bind]
    have hwalk := addDirectory_ensures l root ⟨path, [], []⟩ (h.counted.withFiles made)
    exact ⟨((h.steady_counted.trans (steady_withFiles _ _)).trans hwalk.1.steady).trans
        (steady_log _ _), hwalk.2,
      replaces_of_drops hdrops hmade hwalk.1.others hwalk.1.within⟩

/-- Writing a manifest puts a file under its path, in the place of a file or link that was there.
If it fails, nothing has changed, or the file could not be made and at most the old one is gone. -/
theorem build_replaces (root path : Path) (h : Host) :
    h.Steady (h.run (build root path)).2 ∧
      match (h.run (build root path)).1 with
      | .ok m => m.path = path ∧
        Replaces h.directory path h.files (h.run (build root path)).2.files
      | .error f => (h.run (build root path)).2.files = h.files ∨
        Drops h.directory path h.files (h.run (build root path)).2.files ∧
          ∃ e, f = .manifestCreation path e := by
  cases hroot : (h.run (absolute root)).1 with
  | error e =>
    rw [run_build_rootless path hroot]
    exact ⟨.refl h, Or.inl rfl⟩
  | ok r =>
    rw [run_build_rooted path hroot]
    have hclear := clear_drops path h
    have hcreate := create_replaces r path (h.run (clear path)).2
      (hclear.1.directory.symm ▸ hclear.2)
    rw [hclear.1.directory] at hcreate
    refine ⟨hclear.1.trans hcreate.1, ?_⟩
    generalize (h.run (clear path)).2.run (create r path) = out at hcreate ⊢
    obtain ⟨answer, h'⟩ := out
    cases answer with
    | ok m => exact hcreate.2
    | error f => exact Or.inr hcreate.2

/-! ## Success -/

/-- A file can be put under `p` once what stands there, which is no directory, is gone. -/
def Replaceable (dir : Location) (p : Path) (a : FileSystem) : Prop :=
  ∃ l, a.site? dir p = some l ∧ a.get? l ≠ some .directory ∧ (a.prune l).site? dir p = some l

theorem replaceable_of_drops {dir : Location} {a b made : FileSystem} (hdrops : Drops dir p a b)
    (hmade : b.createFile dir p = .ok (made, l)) : Replaceable dir p a := by
  obtain ⟨hsite, hnone, -⟩ := createFile_eq_ok hmade
  have hal := site?_mono hdrops.within hsite
  have hpruned : b.Within (a.prune l) := by
    intro m e he
    have hm : ¬ l <:+ m := by
      intro hlm
      cases (get?_eq_none_of_suffix hlm hnone).symm.trans he
    rw [get?_prune (site?_ne_nil hsite), if_neg hm]
    exact hdrops.within m e he
  refine ⟨l, hal, ?_, site?_mono hpruned hsite⟩
  rcases hdrops l with hsame | ⟨-, hdir, -⟩
  · rw [← hsame, hnone]
    simp
  · exact hdir

theorem replaceable_of_build {root path : Path} {m : Manifest} {h : Host}
    (hm : (h.run (build root path)).1 = .ok m) : Replaceable h.directory path h.files := by
  cases hroot : (h.run (absolute root)).1 with
  | error e =>
    rw [run_build_rootless path hroot] at hm
    cases hm
  | ok r =>
    rw [run_build_rooted path hroot] at hm
    obtain ⟨hsteady, hdrops⟩ := clear_drops path h
    rcases run_createFile_cases (h := (h.run (clear path)).2) (p := path) with
      ⟨e, hrun, -⟩ | ⟨made, l, hmade, -⟩
    · rw [run_create_failed hrun] at hm
      cases hm
    · rw [hsteady.directory] at hmade
      exact replaceable_of_drops hdrops hmade

/-- On a host that lets the calls through up to the listing of `root` the manifest is written. -/
theorem exists_build {root path : Path} {h : Host} (hroot : root.isAbsolute = true)
    (hslash : path.endsWithSlash = false) (hreplaceable : Replaceable h.directory path h.files)
    (hunlink : h.faults h.made = none) (hcreate : h.faults (h.made + 1) = none)
    (hlist : h.faults (h.made + 2) = some stall) :
    (∃ m, (h.run (build root path)).1 = .ok m) ∧
      (h.run (build root path)).2.made = h.made + 3 := by
  obtain ⟨root', hroot'⟩ := run_absolute_fst (h := h) hroot
  obtain ⟨l, hsite, hdir, hagain⟩ := hreplaceable
  obtain ⟨journal, hbuild⟩ := run_build_cleared path hroot'
  rw [run_unlink_snd hsite hdir hslash hunlink] at hbuild
  obtain ⟨files, -, hcreated⟩ := run_createFile_free (l := l) (p := path)
    (h := (h.counted.withFiles (h.files.prune l)).noting journal) hagain
    (get?_prune_self (site?_ne_nil hsite)) hslash
  have hmakes : ((h.counted.withFiles (h.files.prune l)).noting journal).faults
      ((h.counted.withFiles (h.files.prune l)).noting journal).made = none := hcreate
  rw [hmakes] at hcreated
  generalize hcleared : (h.counted.withFiles (h.files.prune l)).noting journal = h₁
    at hbuild hcreated
  have hmade : h₁.made = h.made + 1 := hcleared ▸ rfl
  have hstalled : (h₁.counted.withFiles files).faults (h₁.counted.withFiles files).made = some stall := by
    subst hcleared
    exact hlist
  obtain ⟨e, hrefused⟩ := run_list_refused (p := root') hstalled rfl
  have hwalk : ((h₁.counted.withFiles files).run
      (addDirectory l root' ⟨path, [], []⟩)).2.made = h.made + 3 := by
    rw [addDirectory, run_bind, run_list_snd, hrefused]
    exact congrArg (· + 2) hmade
  rw [hbuild, create, run_bind, hcreated]
  dsimp only
  rw [run_bind]
  exact ⟨⟨_, rfl⟩, hwalk⟩

/-- Where clearing a path makes it impossible to put a file there, the old entry is gone for good. -/
theorem build_cut (root path : Path) (h : Host) {root' : Path} {fs : FileSystem} {e : IoError}
    (hsound : ∀ n, h.faults n = none) (hroot : (h.run (absolute root)).1 = .ok root')
    (hunlink : h.files.unlink h.directory path = .ok fs)
    (hcreate : fs.createFile h.directory path = .error e) :
    (h.run (build root path)).1 = .error (.manifestCreation path e) ∧
      (h.run (build root path)).2.files = fs := by
  have hgone : h.run (Host.unlink path) = (.ok (), h.counted.withFiles fs) :=
    run_change_ok (hsound _) hunlink
  obtain ⟨journal, hbuild⟩ := run_build_cleared path hroot
  rw [hgone] at hbuild
  have hfailed := run_createFile_error (h := (h.counted.withFiles fs).noting journal) (p := path) hcreate
  have hsettled : ((h.counted.withFiles fs).noting journal).faults
      ((h.counted.withFiles fs).noting journal).made = none := hsound _
  rw [hsettled] at hfailed
  rw [hbuild, run_create_failed hfailed]
  exact ⟨rfl, rfl⟩

end SmaliBuild.Manifest
