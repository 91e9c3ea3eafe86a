import SmaliBuild.Proofs.Manifest.Frame
import SmaliBuild.Proofs.Manifest.Lines
/-!
# What a manifest lists

A walk makes moves: it leaves a path out or tries to write its line (`Manifest.Walks`).  Paths below
different entries of a directory are different, so no path is met twice (`addDirectory_walks`).
`Manifest.Adds` says what a part of the walk does to the manifest and to the open file: both get the
same paths at their end, as long as nothing had to be skipped.  Without trouble the walk lists what
`Below` derives: the paths that lead through directories to something that is none
(`addDirectory_exact`).  All this is relative to the files at the start of the walk; what is written
while it goes on changes the content of one file, which no look-up depends on.
-/
namespace SmaliBuild.Manifest
open FileSystem Host
variable {l : Location} {h h' h'' : Host} {m m' m'' : Manifest} {p d : Path} {n : Name}
variable {new new' : List Path}

/-! ## Moves -/

/-- What a walk does about a path: it leaves it out, or tries to write its line. -/
inductive Move where
  | skip (p : Path) (e : IoError)
  | write (p : Path)

namespace Move

def path : Move → Path
  | skip p _ | write p => p

def make (l : Location) : Move → Manifest → Host.Action Manifest
  | skip p e, m => m.skip p e
  | write p, m => Manifest.write l p m

end Move

/-- A walk comes from one manifest and host to another by these moves.  In between it looks. -/
inductive Walks (l : Location) : List Move → Manifest × Host → Manifest × Host → Prop
  | done {a : Manifest × Host} : Walks l [] a a
  | look {moves : List Move} {m : Manifest} {h : Host} {b : Manifest × Host} :
      Walks l moves (m, h.counted) b → Walks l moves (m, h) b
  | move {v : Move} {moves : List Move} {m : Manifest} {h : Host} {b : Manifest × Host} :
      Walks l moves (h.run (v.make l m)) b → Walks l (v :: moves) (m, h) b

section
variable {moves moves' : List Move} {a b c : Manifest × Host}

theorem Walks.trans (hx : Walks l moves a b) (hy : Walks l moves' b c) :
    Walks l (moves ++ moves') a c := by
  induction hx with
  | done => exact hy
  | look _ ih => exact .look (ih hy)
  | move _ ih => exact .move (ih hy)

end

theorem name_eq_of_below {k : Name} {ns ks : List Name}
    (heq : (d.entry n.bytes).below ns = (d.entry k.bytes).below ks) : n = k := by
  have hwords := congrArg Path.words heq
  rw [Path.words_below, Path.words_below, Path.words_entry, Path.words_entry, List.append_assoc,
    List.append_assoc] at hwords
  exact Name.eq_of_bytes (List.cons.inj (List.append_cancel_left hwords)).1

theorem below_entry_ne (d : Path) (n : Name) (ns : List Name) : (d.entry n.bytes).below ns ≠ d := by
  intro heq
  have hwords := congrArg (fun p : Path => p.words.length) heq
  simp [Path.words_below, Path.words_entry] at hwords

mutual

/-- The walk below a directory is a number of moves about different paths.  Each path goes on behind
that of the directory, unless the directory itself is left out. -/
theorem addDirectory_walks (l : Location) (d : Path) (m : Manifest) (h : Host) :
    ∃ moves, Walks l moves (m, h) (h.run (addDirectory l d m)) ∧ (moves.map Move.path).Nodup ∧
      ∀ v ∈ moves, (∃ e, v = .skip d e) ∨
        ∃ (n : Name) (ns : List Name), v.path = (d.entry n.bytes).below ns := by
  rw [addDirectory, run_bind, run_list_snd]
  cases hlist : (h.run (Host.list d)).1 with
  | error e =>
    refine ⟨[.skip d e], .look (.move .done), List.nodup_singleton _, fun v hv => ?_⟩
    exact Or.inl ⟨e, List.mem_singleton.1 hv⟩
  | ok listing =>
    obtain ⟨r, -, -, hnames, -⟩ := run_list.2 listing hlist
    dsimp only
    rw [run_bind]
    obtain ⟨moves, hwalk, hnodup, hbelow⟩ :=
      addEntries_walks l d listing.short listing.names m h.counted
    have hnodup := hnodup ((nodup_names h.files r).sublist hnames.sublist)
    have hinside : ∀ v ∈ moves, ∃ (n : Name) (ns : List Name), v.path = (d.entry n.bytes).below ns := by
      intro v hv
      obtain ⟨n, -, hn⟩ := hbelow v hv
      exact ⟨n, hn⟩
    cases listing.broken with
    | none => exact ⟨moves, .look hwalk, hnodup, fun v hv => Or.inr (hinside v hv)⟩
    | some e =>
      refine ⟨moves ++ [.skip d e], .look (hwalk.trans (.move .done)), ?_, fun v hv => ?_⟩
      · rw [List.map_append, List.map_singleton, List.nodup_append]
        refine ⟨hnodup, List.nodup_singleton _, fun p hp q hq heq => ?_⟩
        obtain ⟨v, hv, rfl⟩ := List.mem_map.1 hp
        obtain ⟨n, ns, hn⟩ := hinside v hv
        exact below_entry_ne d n ns ((hn.symm.trans heq).trans (List.mem_singleton.1 hq))
      · rcases List.mem_append.1 hv with hv | hv
        · exact Or.inr (hinside v hv)
        · exact Or.inl ⟨e, List.mem_singleton.1 hv⟩
termination_by (pathLimit - d.byteLength, 1, 0)

theorem addEntries_walks (l : Location) (d : Path) (short : d.byteLength < pathLimit)
    (names : List Name) (m : Manifest) (h : Host) :
    ∃ moves, Walks l moves (m, h) (h.run (addEntries l d short names m)) ∧
      (names.Nodup → (moves.map Move.path).Nodup) ∧
      ∀ v ∈ moves, ∃ n ∈ names, ∃ ns, v.path = (d.entry n.bytes).below ns := by
  match names with
  | [] =>
    rw [addEntries]
    exact ⟨[], .done, fun _ => List.nodup_nil, fun v hv => absurd hv List.not_mem_nil⟩
  | n :: names =>
    -- what comes of the first entry, before the others are looked at
    have hrest {first : List Move} {out : Manifest × Host} (hfirst : Walks l first (m, h.counted) out)
        (hnodup : (first.map Move.path).Nodup)
        (hbelow : ∀ v ∈ first, ∃ ns, v.path = (d.entry n.bytes).below ns) :
        ∃ moves, Walks l moves (m, h) (out.2.run (addEntries l d short names out.1)) ∧
          ((n :: names).Nodup → (moves.map Move.path).Nodup) ∧
          ∀ v ∈ moves, ∃ k ∈ n :: names, ∃ ns, v.path = (d.entry k.bytes).below ns := by
      obtain ⟨moves, hwalk, hnodup', hbelow'⟩ := addEntries_walks l d short names out.1 out.2
      refine ⟨first ++ moves, .look (hfirst.trans hwalk), fun hnames => ?_, fun v hv => ?_⟩
      · obtain ⟨hn, hnames⟩ := List.nodup_cons.1 hnames
        rw [List.map_append, List.nodup_append]
        refine ⟨hnodup, hnodup' hnames, fun p hp q hq heq => hn ?_⟩
        obtain ⟨v, hv, rfl⟩ := List.mem_map.1 hp
        obtain ⟨u, hu, rfl⟩ := List.mem_map.1 hq
        obtain ⟨ns, hns⟩ := hbelow v hv
        obtain ⟨k, hk, ks, hks⟩ := hbelow' u hu
        exact name_eq_of_below ((hns.symm.trans heq).trans hks) ▸ hk
      · rcases List.mem_append.1 hv with hv | hv
        · exact ⟨n, List.mem_cons_self, hbelow v hv⟩
        · obtain ⟨k, hk, hkv⟩ := hbelow' v hv
          exact ⟨k, List.mem_cons_of_mem n hk, hkv⟩
    rw [addEntries, run_bind, run_isDirectory_snd]
    split
    · rw [run_bind]
      obtain ⟨moves, hwalk, hnodup, hbelow⟩ := addDirectory_walks l (d.entry n.bytes) m h.counted
      refine hrest hwalk hnodup fun v hv => ?_
      rcases hbelow v hv with ⟨e, rfl⟩ | ⟨k, ks, hks⟩
      · exact ⟨[], rfl⟩
      · exact ⟨ks ++ [k], hks.trans (Path.below_concat _ _ _).symm⟩
    · rw [run_bind]
      have hwrite : Walks l [.write (d.entry n.bytes)] (m, h.counted)
          (h.counted.run (write l (d.entry n.bytes) m)) := .move .done
      refine hrest hwrite (List.nodup_singleton _) fun v hv => ?_
      exact ⟨[], congrArg Move.path (List.mem_singleton.1 hv)⟩
termination_by (pathLimit - d.byteLength, 0, names.length)
decreasing_by
  · exact Prod.Lex.right _ (Prod.Lex.right _ (by simp))
  · have := Path.byteLength_lt_entry d n.bytes_ne_nil
    exact Prod.Lex.left _ _ (by omega)

end

/-! ## What is written -/

/-- The paths `new` went to the end of the manifest and, if nothing was skipped, their lines to the end
of the file at `l`. -/
structure Adds (l : Location) (new : List Path) (m : Manifest) (h : Host) (m' : Manifest)
    (h' : Host) : Prop where
  entries : m'.entries = m.entries ++ new
  skipped : m.skipped <+: m'.skipped
  content : m'.skipped = [] → ∀ content x, h.files.get? l = some (.file content x) →
    h'.files.get? l = some (.file (content ++ new.flatMap line) x)

theorem Adds.of_files (hfiles : h'.files = h.files) : Adds l [] m h m h' :=
  ⟨(List.append_nil _).symm, List.prefix_refl _, fun _ content x hx => by simpa [hfiles] using hx⟩

theorem Adds.trans (hx : Adds l new m h m' h') (hy : Adds l new' m' h' m'' h'') :
    Adds l (new ++ new') m h m'' h'' := by
  refine ⟨?_, hx.skipped.trans hy.skipped, fun hall content x hfile => ?_⟩
  · rw [hy.entries, hx.entries, List.append_assoc]
  · have hfirst := hx.content (List.prefix_nil.1 (hall ▸ hy.skipped)) content x hfile
    rw [hy.content hall _ _ hfirst, List.flatMap_append, List.append_assoc]

theorem skipped_skip (m : Manifest) (p : Path) (e : IoError) (h : Host) :
    (h.run (m.skip p e)).1.skipped ≠ [] := by
  have hskipped : (h.run (m.skip p e)).1.skipped = m.skipped ++ [⟨p, e⟩] := rfl
  simp [hskipped]

theorem skip_adds (m : Manifest) (p : Path) (e : IoError) (h : Host) :
    Adds l [] m h (h.run (m.skip p e)).1 (h.run (m.skip p e)).2 where
  entries := (List.append_nil _).symm
  skipped := List.prefix_append _ _
  content hall := absurd hall (skipped_skip m p e h)

theorem write_adds (l : Location) (p : Path) (m : Manifest) (h : Host) :
    ∃ new, new.Sublist [p] ∧ Adds l new m h (h.run (write l p m)).1 (h.run (write l p m)).2 := by
  rcases run_write_cases l p m h with ⟨e, written, hrun⟩ | hrun
  · rw [hrun]
    have hskip := skip_adds (l := l) m p e (h.counted.withFiles (h.files.append l written))
    exact ⟨[], List.nil_sublist _, hskip.entries, hskip.skipped, fun hall =>
      absurd hall (skipped_skip m p e _)⟩
  · rw [hrun]
    refine ⟨[p], List.Sublist.refl _, rfl, List.prefix_refl _, fun _ content x hfile => ?_⟩
    change (h.files.append l (line p)).get? l = _
    rw [get?_append, hfile]
    simp

theorem Walks.adds {moves : List Move} {a b : Manifest × Host} (hw : Walks l moves a b) :
    ∃ new, new.Sublist (moves.map Move.path) ∧ (∀ p ∈ new, .write p ∈ moves) ∧
      Adds l new a.1 a.2 b.1 b.2 := by
  induction hw with
  | done => exact ⟨[], List.Sublist.refl _, fun p hp => absurd hp List.not_mem_nil, .of_files rfl⟩
  | @look _ m h _ _ ih =>
    obtain ⟨new, hsub, hmem, hadds⟩ := ih
    have hlooked : Adds l [] m h m h.counted := .of_files rfl
    exact ⟨new, hsub, hmem, hlooked.trans hadds⟩
  | @move v moves m h b _ ih =>
    obtain ⟨new, hsub, hmem, hadds⟩ := ih
    have hlater (p : Path) (hp : p ∈ new) : Move.write p ∈ v :: moves :=
      List.mem_cons_of_mem v (hmem p hp)
    cases v with
    | skip p e => exact ⟨new, hsub.cons p, hlater, (skip_adds m p e h).trans hadds⟩
    | write p =>
      obtain ⟨written, hp, hwritten⟩ := write_adds l p m h
      refine ⟨written ++ new, hp.append hsub, fun q hq => ?_, hwritten.trans hadds⟩
      cases List.mem_append.1 hq with
      | inl hq => exact List.mem_singleton.1 (hp.subset hq) ▸ List.mem_cons_self
      | inr hq => exact hlater q hq

theorem addDirectory_adds (l : Location) (d : Path) (m : Manifest) (h : Host) :
    ∃ new, Adds l new m h (h.run (addDirectory l d m)).1 (h.run (addDirectory l d m)).2 ∧
      new.Nodup ∧ ∀ p ∈ new, ∃ (n : Name) (ns : List Name), p = (d.entry n.bytes).below ns := by
  obtain ⟨moves, hwalk, hnodup, hbelow⟩ := addDirectory_walks l d m h
  obtain ⟨new, hsub, hmem, hadds⟩ := hwalk.adds
  refine ⟨new, hadds, hnodup.sublist hsub, fun p hp => ?_⟩
  rcases hbelow _ (hmem p hp) with ⟨e, hskip⟩ | hentry
  · cases hskip
  · exact hentry

/-! ## What is listed -/

/-- The path `p` is `d` with one or more names behind it: each is that of an entry of the directory that
the path before it leads to. -/
inductive Below (fs : FileSystem) (dir : Location) : Path → Path → Prop
  | entry {d : Path} {r : Location} {n : Name} : fs.locate dir true d = .ok r →
      fs.get? r = some .directory → (fs.get? (n :: r)).isSome → Below fs dir d (d.entry n.bytes)
  | inside {d : Path} {r : Location} {n : Name} {p : Path} : fs.locate dir true d = .ok r →
      fs.get? r = some .directory → (fs.get? (n :: r)).isSome → Below fs dir (d.entry n.bytes) p →
      Below fs dir d p

section
variable {fs : FileSystem} {dir r : Location}

theorem Below.isDirectory (hp : Below fs dir d p) : fs.isDirectory dir d = true := by
  cases hp with
  | entry hr hd _ => exact isDirectory_iff.2 ⟨_, hr, hd⟩
  | inside hr hd _ _ => exact isDirectory_iff.2 ⟨_, hr, hd⟩

theorem Below.mono {a b : FileSystem} (hab : a.Within b)
    (hp : Below a dir d p) : Below b dir d p := by
  induction hp with
  | entry hr hd hn => exact .entry (locate_mono hab hr) (hab.directory hd) (hab.isSome hn)
  | inside hr hd hn _ ih => exact .inside (locate_mono hab hr) (hab.directory hd) (hab.isSome hn) ih

theorem below_iff (hr : fs.locate dir true d = .ok r) (hd : fs.get? r = some .directory) :
    Below fs dir d p ↔ ∃ n ∈ fs.names r, p = d.entry n.bytes ∨ Below fs dir (d.entry n.bytes) p := by
  constructor
  · intro hp
    cases hp with
    | @entry _ r' n hr' _ hn =>
      obtain rfl := Except.ok.inj (hr.symm.trans hr')
      exact ⟨n, mem_names.2 hn, Or.inl rfl⟩
    | @inside _ r' n _ hr' _ hn hp =>
      obtain rfl := Except.ok.inj (hr.symm.trans hr')
      exact ⟨n, mem_names.2 hn, Or.inr hp⟩
  · rintro ⟨n, hn, rfl | hp⟩
    · exact .entry hr hd (mem_names.1 hn)
    · exact .inside hr hd (mem_names.1 hn) hp

theorem listed_iff_of_directory (hd : fs.isDirectory dir d = true) :
    (p = d ∨ Below fs dir d p) ∧ fs.isDirectory dir p = false ↔
      Below fs dir d p ∧ fs.isDirectory dir p = false := by
  refine and_congr_left fun hp => or_iff_right ?_
  rintro rfl
  cases hp.symm.trans hd

theorem listed_iff_of_leaf (hd : fs.isDirectory dir d = false) :
    (p = d ∨ Below fs dir d p) ∧ fs.isDirectory dir p = false ↔ p = d := by
  constructor
  · rintro ⟨heq | hp, -⟩
    · exact heq
    · cases hp.isDirectory.symm.trans hd
  · rintro rfl
    exact ⟨Or.inl rfl, hd⟩

theorem below_iff_of_flat (hr : fs.locate dir true d = .ok r) (hd : fs.get? r = some .directory)
    (hflat : ∀ n, (fs.get? (n :: r)).isSome → fs.isDirectory dir (d.entry n.bytes) = false) :
    Below fs dir d p ∧ fs.isDirectory dir p = false ↔
      ∃ n, (fs.get? (n :: r)).isSome ∧ p = d.entry n.bytes := by
  rw [below_iff hr hd]
  constructor
  · rintro ⟨⟨n, hn, rfl | hp⟩, -⟩
    · exact ⟨n, mem_names.1 hn, rfl⟩
    · cases hp.isDirectory.symm.trans (hflat n (mem_names.1 hn))
  · rintro ⟨n, hn, rfl⟩
    exact ⟨⟨n, mem_names.2 hn, Or.inl rfl⟩, hflat n hn⟩

end

section
variable {h₀ : Host} {content : Bytes} {x : Bool} {r : Location}

theorem Fills.within_before (hf : Fills l h₀ h) (hfile : h₀.files.get? l = some (.file content x)) :
    h.files.Within h₀.files := by
  intro k e he
  by_cases hk : k = l
  · subst hk
    obtain ⟨content', x', he'⟩ := hf.within.file hfile
    rw [he] at he'
    rw [hfile, Option.some.inj he']
    rfl
  · rw [← hf.others k hk, he]
    rfl

theorem Fills.locate_iff (hf : Fills l h₀ h) (hfile : h₀.files.get? l = some (.file content x)) :
    h.files.locate h.directory true p = .ok r ↔ h₀.files.locate h₀.directory true p = .ok r := by
  rw [hf.steady.directory]
  exact ⟨locate_mono (hf.within_before hfile), locate_mono hf.within⟩

theorem Fills.isDirectory_eq (hf : Fills l h₀ h)
    (hfile : h₀.files.get? l = some (.file content x)) :
    h.files.isDirectory h.directory p = h₀.files.isDirectory h₀.directory p := by
  rw [Bool.eq_iff_iff, isDirectory_iff, isDirectory_iff]
  constructor
  · rintro ⟨r, hr, hd⟩
    exact ⟨r, (hf.locate_iff hfile).1 hr, (hf.within_before hfile).directory hd⟩
  · rintro ⟨r, hr, hd⟩
    exact ⟨r, (hf.locate_iff hfile).2 hr, hf.within.directory hd⟩

theorem run_write (hf : h.faults h.made = none) : h.run (write l p m) =
    ({ m with entries := m.entries ++ [p] }, h.counted.withFiles (h.files.append l (line p))) := by
  rw [write, run_bind, run_append hf]
  rfl

theorem made_write (l : Location) (p : Path) (m : Manifest) (h : Host) :
    h.made < (h.run (write l p m)).2.made := by
  obtain ⟨written, journal, hrun⟩ := run_write_snd l p m h
  rw [hrun]
  exact Nat.lt_succ_self _

theorem made_addDirectory (l : Location) (d : Path) (m : Manifest) (h : Host) :
    h.made < (h.run (addDirectory l d m)).2.made := by
  rw [addDirectory, run_bind, run_list_snd]
  cases (h.run (Host.list d)).1 with
  | error e => exact Nat.lt_succ_self _
  | ok listing =>
    dsimp only
    rw [run_bind]
    have hentries := (addEntries_ensures l d listing.short listing.names m h.counted).1.steady.made
    cases listing.broken with
    | none => exact hentries
    | some e => exact hentries

mutual

/-- Without trouble the walk below a directory lists all that stands there and is no directory. -/
theorem addDirectory_exact (l : Location) (d : Path) (m : Manifest) (h : Host)
    (hfile : h₀.files.get? l = some (.file content x)) (hf : Fills l h₀ h)
    (hd : h₀.files.isDirectory h₀.directory d = true)
    (hquiet : h.Untroubled (h.run (addDirectory l d m)).2) :
    (h.run (addDirectory l d m)).1.skipped = m.skipped ∧
      ∀ p, p ∈ (h.run (addDirectory l d m)).1.entries ↔ p ∈ m.entries ∨
        Below h₀.files h₀.directory d p ∧ h₀.files.isDirectory h₀.directory p = false := by
  obtain ⟨r, hr, hdir⟩ := isDirectory_iff.1 hd
  have hlooked : Fills l h h.counted := .of_steady h.steady_counted rfl
  have hnone := hquiet h.made (Nat.le_refl _) (made_addDirectory l d m h)
  rw [addDirectory, run_bind, run_list_snd] at hquiet ⊢
  obtain ⟨listing, hlist, hnames, hwhole⟩ := run_list_fst hnone ((hf.locate_iff hfile).2 hr)
    (hf.within.directory hdir)
  rw [hlist] at hquiet ⊢
  dsimp only at hquiet ⊢
  rw [hwhole, run_bind] at hquiet ⊢
  obtain ⟨hskipped, hentries⟩ := addEntries_exact l d listing.short listing.names m h.counted hfile
    (IsTrans.trans _ _ _ hf hlooked) (hquiet.part h.steady_counted (.refl _))
  refine ⟨hskipped, fun p => ?_⟩
  have hsame : ∀ n, n ∈ listing.names ↔ n ∈ h₀.files.names r := by
    intro n
    rw [hnames, mem_names, mem_names]
    exact ⟨(hf.within_before hfile).isSome, hf.within.isSome⟩
  simp only [below_iff hr hdir, ← hsame]
  exact hentries p
termination_by (pathLimit - d.byteLength, 1, 0)

theorem addEntries_exact (l : Location) (d : Path) (short : d.byteLength < pathLimit)
    (names : List Name) (m : Manifest) (h : Host)
    (hfile : h₀.files.get? l = some (.file content x)) (hf : Fills l h₀ h)
    (hquiet : h.Untroubled (h.run (addEntries l d short names m)).2) :
    (h.run (addEntries l d short names m)).1.skipped = m.skipped ∧
      ∀ p, p ∈ (h.run (addEntries l d short names m)).1.entries ↔ p ∈ m.entries ∨
        (∃ n ∈ names, p = d.entry n.bytes ∨ Below h₀.files h₀.directory (d.entry n.bytes) p) ∧
          h₀.files.isDirectory h₀.directory p = false := by
  match names with
  | [] =>
    rw [addEntries]
    exact ⟨rfl, fun p => by simp⟩
  | n :: names =>
    have hlooked : Fills l h h.counted := .of_steady h.steady_counted rfl
    rw [addEntries, run_bind, run_isDirectory_snd] at hquiet ⊢
    cases henter : (h.run (Host.isDirectory (d.entry n.bytes))).1 with
    | true =>
      rw [henter] at hquiet
      rw [if_pos rfl, run_bind] at hquiet ⊢
      have hfirst := (addDirectory_ensures l (d.entry n.bytes) m h.counted).1
      have hbelow := addDirectory_exact l (d.entry n.bytes) m h.counted hfile
        (IsTrans.trans _ _ _ hf hlooked)
      generalize h.counted.run (addDirectory l (d.entry n.bytes) m) = out at hfirst hbelow hquiet ⊢
      obtain ⟨m₁, h₁⟩ := out
      have hafter := (addEntries_ensures l d short names m₁ h₁).1.steady
      -- the entry is what it was at the start: only the content of the open file has changed since
      have hdir : h₀.files.isDirectory h₀.directory (d.entry n.bytes) = true := by
        rw [← hf.isDirectory_eq hfile, ← henter,
          run_isDirectory_fst (hquiet.first (hfirst.steady.trans hafter))]
      obtain ⟨hskipped, hentries⟩ := hbelow hdir (hquiet.part h.steady_counted hafter)
      obtain ⟨hskipped', hentries'⟩ := addEntries_exact l d short names m₁ h₁ hfile
        (IsTrans.trans _ _ _ hf (IsTrans.trans _ _ _ hlooked hfirst))
        (hquiet.part (h.steady_counted.trans hfirst.steady) (.refl _))
      refine ⟨hskipped'.trans hskipped, fun p => ?_⟩
      rw [hentries', hentries, List.exists_mem_cons_iff, or_and_right, listed_iff_of_directory hdir,
        or_assoc]
    | false =>
      rw [henter] at hquiet
      rw [if_neg Bool.false_ne_true, run_bind] at hquiet ⊢
      have hfirst := (write_ensures (l := l) (p := d.entry n.bytes) m h.counted).1
      have hwrite := run_write (l := l) (p := d.entry n.bytes) (m := m) (h := h.counted)
      have hmade := made_write l (d.entry n.bytes) m h.counted
      generalize h.counted.run (write l (d.entry n.bytes) m) = out
        at hfirst hwrite hmade hquiet ⊢
      obtain ⟨m₁, h₁⟩ := out
      have hafter := (addEntries_ensures l d short names m₁ h₁).1.steady
      have hdir : h₀.files.isDirectory h₀.directory (d.entry n.bytes) = false := by
        rw [← hf.isDirectory_eq hfile, ← henter,
          run_isDirectory_fst (hquiet.first (hfirst.steady.trans hafter))]
      obtain ⟨hskipped', hentries'⟩ := addEntries_exact l d short names m₁ h₁ hfile
        (IsTrans.trans _ _ _ hf (IsTrans.trans _ _ _ hlooked hfirst))
        (hquiet.part (h.steady_counted.trans hfirst.steady) (.refl _))
      have hline := congrArg Prod.fst (hwrite (hquiet _ (Nat.le_succ _) (hmade.trans_le hafter.made)))
      simp only at hline
      refine ⟨hskipped'.trans (by rw [hline]), fun p => ?_⟩
      rw [hentries', hline, List.mem_append, List.mem_singleton, List.exists_mem_cons_iff,
        or_and_right, listed_iff_of_leaf hdir, or_assoc]
termination_by (pathLimit - d.byteLength, 0, names.length)
decreasing_by
  · exact Prod.Lex.right _ (Prod.Lex.right _ (by simp))
  · have := Path.byteLength_lt_entry d n.bytes_ne_nil
    exact Prod.Lex.left _ _ (by omega)
  · exact Prod.Lex.right _ (Prod.Lex.right _ (by simp))

end

end

/-! ## The whole manifest -/

section
variable {r root path : Path}

theorem isDirectory_of_skipped (hs : (h.run (addDirectory l d m)).1.skipped = []) :
    h.files.isDirectory h.directory d = true := by
  rw [addDirectory, run_bind, run_list_snd] at hs
  cases hlist : (h.run (Host.list d)).1 with
  | error e =>
    rw [hlist] at hs
    exact absurd hs (skipped_skip m d e h.counted)
  | ok listing =>
    obtain ⟨r, hr, hd, -⟩ := run_list.2 listing hlist
    exact isDirectory_iff.2 ⟨r, hr, hd⟩

/-- The host on which the file of a manifest has just been made. -/
def recreated (path : Path) (h : Host) : Host := ((h.run (clear path)).2.run (Host.createFile path)).2

theorem within_of_free {a b : FileSystem} {e : Entry} (hfree : a.get? l = none)
    (hget : ∀ k, b.get? k = if k = l then some e else a.get? k) : a.Within b := by
  intro k e' he
  rw [hget, if_neg, he, Option.map_some]
  rintro rfl
  cases he.symm.trans hfree

/-- Once the file is made, a manifest is what the walk adds to an empty one. -/
theorem run_build (hroot : (h.run (Host.absolute root)).1 = .ok r)
    (hmade : ((h.run (clear path)).2.run (Host.createFile path)).1 = .ok l) :
    ∃ event, h.run (build root path) =
      (.ok ((recreated path h).run (addDirectory l r ⟨path, [], []⟩)).1,
        ((recreated path h).run (addDirectory l r ⟨path, [], []⟩)).2.noting [.log event]) := by
  rw [run_build_rooted path hroot, create, run_bind, hmade]
  dsimp only
  rw [run_bind, ← recreated]
  exact ⟨_, rfl⟩

theorem build_eq_ok (hbuild : h.run (build root path) = (.ok m, h')) :
    ∃ r l event, (h.run (Host.absolute root)).1 = .ok r ∧
      (recreated path h).files.site? (recreated path h).directory path = some l ∧
      path.endsWithSlash = false ∧
      (recreated path h).files.get? l = some (.file [] false) ∧
      m = ((recreated path h).run (addDirectory l r ⟨path, [], []⟩)).1 ∧
      h' = ((recreated path h).run (addDirectory l r ⟨path, [], []⟩)).2.noting [.log event] := by
  cases hroot : (h.run (Host.absolute root)).1 with
  | error e =>
    cases (run_build_rootless path hroot).symm.trans hbuild
  | ok r =>
    rcases run_createFile_cases (h := (h.run (clear path)).2) (p := path) with
      ⟨e, hrun, -⟩ | ⟨made, l, hmade, hrun⟩
    · rw [run_build_rooted path hroot, run_create_failed hrun] at hbuild
      cases (Prod.mk.inj hbuild).1
    · obtain ⟨event, hwalk⟩ := run_build hroot (l := l) (by rw [hrun])
      obtain ⟨hm, rfl⟩ := Prod.mk.inj (hwalk.symm.trans hbuild)
      obtain ⟨hsite, hnone, hget⟩ := createFile_eq_ok hmade
      have hfiles : (recreated path h).files = made := by
        rw [recreated, hrun]
        rfl
      have hdirectory : (recreated path h).directory = (h.run (clear path)).2.directory := by
        rw [recreated, hrun]
        rfl
      rw [hfiles, hdirectory]
      exact ⟨r, l, event, rfl, site?_mono (within_of_free hnone hget) hsite, noSlash_of_createFile hmade,
        (hget l).trans (if_pos rfl), (Except.ok.inj hm).symm, rfl⟩

/-- A manifest that skips nothing names no path twice and only paths below the root, and its file
holds one line for each of them. -/
theorem build_written (hbuild : h.run (build root path) = (.ok m, h')) (hskipped : m.skipped = []) :
    ∃ root', (h.run (Host.absolute root)).1 = .ok root' ∧ m.entries.Nodup ∧
      (∀ p ∈ m.entries, ∃ (n : Name) (ns : List Name), p = (root'.entry n.bytes).below ns) ∧
      h'.files.read h'.directory path = .ok (m.entries.flatMap line) := by
  obtain ⟨root', l, event, hroot, hsite, hslash, hfile, rfl, rfl⟩ := build_eq_ok hbuild
  generalize recreated path h = made at hsite hfile hskipped ⊢
  obtain ⟨new, hadds, hnodup, hbelow⟩ := addDirectory_adds l root' ⟨path, [], []⟩ made
  have hfills := (addDirectory_ensures l root' ⟨path, [], []⟩ made).1
  have hentries : (made.run (addDirectory l root' ⟨path, [], []⟩)).1.entries = new := hadds.entries
  have hcontent := hadds.content hskipped [] false hfile
  have hlocate := locate_of_site_plain (site?_mono hfills.within hsite) hslash hcontent (by simp)
  rw [hentries]
  refine ⟨root', hroot, hnodup, hbelow, ?_⟩
  change (made.run (addDirectory l root' ⟨path, [], []⟩)).2.files.read
    (made.run (addDirectory l root' ⟨path, [], []⟩)).2.directory path = _
  rw [hfills.steady.directory]
  exact read_of_locate hlocate hcontent

/-- If no call meets trouble once the file is made, a manifest that skips nothing has the paths of all
that stands below the root and is no directory. -/
theorem build_listed {root' : Path} (hbuild : h.run (build root path) = (.ok m, h'))
    (hskipped : m.skipped = []) (hroot : (h.run (Host.absolute root)).1 = .ok root')
    (hquiet : (recreated path h).Untroubled h') :
    p ∈ m.entries ↔ Below (recreated path h).files (recreated path h).directory root' p ∧
      (recreated path h).files.isDirectory (recreated path h).directory p = false := by
  obtain ⟨r, l, event, hr, -, -, hfile, rfl, rfl⟩ := build_eq_ok hbuild
  obtain rfl := Except.ok.inj (hr.symm.trans hroot)
  generalize recreated path h = made at hfile hskipped hquiet ⊢
  have hexact := addDirectory_exact l r ⟨path, [], []⟩ made hfile (Std.Refl.refl made)
    (isDirectory_of_skipped hskipped) hquiet
  rw [hexact.2 p]
  simp

/-- A manifest that skips nothing names no path twice, and its file holds one line for each of its
paths.  These lines are the paths, each with a line end behind it, exactly if all paths are text.  If
no call met trouble since the file was made, the paths are those of all that stands below the root and
is no directory. -/
theorem build_exact (hbuild : h.run (build root path) = (.ok m, h')) (hskipped : m.skipped = []) :
    ∃ root', (h.run (Host.absolute root)).1 = .ok root' ∧ m.entries.Nodup ∧
      h'.files.read h'.directory path = .ok (m.entries.flatMap line) ∧
      (h'.files.read h'.directory path = .ok (m.entries.flatMap exactLine) ↔
        ∀ p ∈ m.entries, Text.isText p.text = true) ∧
      ((recreated path h).Untroubled h' → ∀ p, p ∈ m.entries ↔
        Below (recreated path h).files (recreated path h).directory root' p ∧
          (recreated path h).files.isDirectory (recreated path h).directory p = false) := by
  obtain ⟨root', hroot, hnodup, -, hread⟩ := build_written hbuild hskipped
  refine ⟨root', hroot, hnodup, hread, ?_, fun hquiet _ => build_listed hbuild hskipped hroot hquiet⟩
  rw [hread, Except.ok.injEq]
  exact lines_exact_iff

theorem recreated_of_free (hsound : ∀ i, h.faults i = none)
    (hsite : h.files.site? h.directory path = some l) (hfree : h.files.get? l = none)
    (hslash : path.endsWithSlash = false) :
    ((h.run (clear path)).2.run (Host.createFile path)).1 = .ok l ∧
      h.Steady (recreated path h) ∧
      ∀ k, (recreated path h).files.get? k =
        if k = l then some (.file [] false) else h.files.get? k := by
  obtain ⟨hsteady, hdrops⟩ := clear_drops path h
  have hsame : (h.run (clear path)).2.files.get? = h.files.get? := by
    funext k
    rcases hdrops k with heq | ⟨hk, -, hnone⟩
    · exact heq
    · obtain rfl := Option.some.inj (hk.symm.trans hsite)
      rw [hnone, hfree]
  have hwithin : h.files.Within (h.run (clear path)).2.files := fun k e he => by
    rw [hsame, he, Option.map_some]
  obtain ⟨made, hmade⟩ := createFile_of_site (site?_mono hwithin hsite)
    ((congrFun hsame l).trans hfree) hslash
  rcases run_createFile_cases (h := (h.run (clear path)).2) (p := path) with
    ⟨e, -, hfail⟩ | ⟨files, l', hok, hrun⟩
  · have herror := hfail (by rw [hsteady.faults, hsound])
    rw [hsteady.directory] at herror
    cases herror.symm.trans hmade
  · rw [hsteady.directory, hmade] at hok
    obtain ⟨rfl, rfl⟩ := Prod.mk.inj (Except.ok.inj hok)
    rw [recreated, hrun]
    refine ⟨rfl, ?_, fun k => ?_⟩
    · exact hsteady.trans ((steady_counted _).trans (steady_withFiles _ _))
    · exact ((createFile_eq_ok hmade).2.2 k).trans (by rw [hsame])

/-- A file below the root is still there when the manifest has just been made. -/
theorem below_recreated {k : Location} {content : Bytes} {x : Bool} (hsound : ∀ i, h.faults i = none)
    (hsite : h.files.site? h.directory path = some l) (hfree : h.files.get? l = none)
    (hslash : path.endsWithSlash = false) (hbelow : Below h.files h.directory r p)
    (hp : h.files.locate h.directory true p = .ok k) (hk : h.files.get? k = some (.file content x))
    (hne : k ≠ l) :
    Below (recreated path h).files (recreated path h).directory r p ∧
      (recreated path h).files.isDirectory (recreated path h).directory p = false := by
  obtain ⟨-, hsteady, hget⟩ := recreated_of_free hsound hsite hfree hslash
  have hwithin := within_of_free hfree hget
  rw [hsteady.directory]
  refine ⟨hbelow.mono hwithin, ?_⟩
  exact isDirectory_of_locate (locate_mono hwithin hp) ((hget k).trans ((if_neg hne).trans hk))

/-- On a machine without trouble the manifest of a directory is written and nothing is skipped. -/
theorem exists_build_whole (hsound : ∀ i, h.faults i = none)
    (hsite : h.files.site? h.directory path = some l) (hfree : h.files.get? l = none)
    (hslash : path.endsWithSlash = false) (hroot : (h.run (Host.absolute root)).1 = .ok r)
    (hdir : h.files.isDirectory h.directory r = true) :
    ∃ m h', h.run (build root path) = (.ok m, h') ∧ m.skipped = [] ∧
      (recreated path h).Untroubled h' := by
  obtain ⟨hmade, hsteady, hget⟩ := recreated_of_free hsound hsite hfree hslash
  obtain ⟨event, hbuild⟩ := run_build hroot hmade
  have hquiet {h' : Host} : (recreated path h).Untroubled h' := fun i _ _ => by
    rw [hsteady.faults, hsound]
  have hopen : (recreated path h).files.isDirectory (recreated path h).directory r = true := by
    obtain ⟨k, hk, hkd⟩ := isDirectory_iff.1 hdir
    have hwithin := within_of_free hfree hget
    rw [hsteady.directory]
    exact isDirectory_iff.2 ⟨k, locate_mono hwithin hk, hwithin.directory hkd⟩
  have hexact := addDirectory_exact l r ⟨path, [], []⟩ (recreated path h)
    ((hget l).trans (if_pos rfl)) (Std.Refl.refl _) hopen hquiet
  exact ⟨_, _, hbuild, hexact.1, hquiet⟩

end

/-! ## A directory that is shared -/

def sharedDirectory : Name := ⟨.ofString "common", by decide⟩

def sharedFile : Name := ⟨.ofString "B.java", by decide⟩

def sharingDirectory : Name := ⟨.ofString "app", by decide⟩

def sharingEntry : Name := ⟨.ofString "FilesList.txt", by decide⟩

def sharingLink : Name := ⟨.ofString "more", by decide⟩

/-- Two directories, the second with a link to the first. -/
def sharedFiles : FileSystem where
  entries := [([sharedDirectory], .directory), ([sharedFile, sharedDirectory], .file [] false),
    ([sharingDirectory], .directory), ([sharingLink, sharingDirectory], .link (.ofString "/common"))]
  unique := by decide
  rooted := by simp

/-- The second directory, in which the manifest is to be. -/
def sharingRoot : Path := .ofString "/app"

def sharingManifest : Path := .ofString "/app/FilesList.txt"

def rootManifest : Path := .ofString "/FilesList.txt"

/-- A source file that is reached through the link. -/
def sharingSource : Path := .ofString "/app/more/B.java"

/-- The manifest lists the source file, under the name that it has through the link. -/
theorem build_exact_shared :
    let h := Host.sound sharedFiles []
    ∃ m h', h.run (build sharingRoot sharingManifest) = (.ok m, h') ∧ m.skipped = [] ∧
      m.entries.Nodup ∧ sharingSource ∈ m.entries ∧
      h'.files.read h'.directory sharingManifest = .ok (m.entries.flatMap line) := by
  have hroot : ((Host.sound sharedFiles []).run (Host.absolute sharingRoot)).1 =
      .ok sharingRoot := by cbv
  have hstart : sharedFiles.locate [] true sharingRoot = .ok [sharingDirectory] := by cbv
  have hlink : sharedFiles.locate [] true (sharingRoot.entry sharingLink.bytes) =
      .ok [sharedDirectory] := by cbv
  have hsource : sharedFiles.locate [] true sharingSource =
      .ok [sharedFile, sharedDirectory] := by cbv
  have hinside : Below sharedFiles [] sharingRoot sharingSource := by
    rw [show sharingSource = (sharingRoot.entry sharingLink.bytes).entry sharedFile.bytes by cbv]
    exact .inside hstart rfl rfl (.entry hlink rfl rfl)
  have hsite : sharedFiles.site? [] sharingManifest =
      some [sharingEntry, sharingDirectory] := by cbv
  obtain ⟨m, h', hbuild, hskipped, hquiet⟩ := exists_build_whole (h := Host.sound sharedFiles [])
    (fun _ => rfl) hsite (by decide) (by cbv) hroot (isDirectory_iff.2 ⟨_, hstart, rfl⟩)
  obtain ⟨r, hr, hnodup, hread, -, hlist⟩ := build_exact hbuild hskipped
  obtain rfl := Except.ok.inj (hr.symm.trans hroot)
  refine ⟨m, h', hbuild, hskipped, hnodup, (hlist hquiet _).2 ?_, hread⟩
  exact below_recreated (fun _ => rfl) hsite (by decide) (by cbv) hinside hsource rfl (by decide)

/-! ## A name that is no text -/

/-- A directory with a source file whose name is no text. -/
def obscuredFiles : FileSystem where
  entries := [([sharingDirectory], .directory), ([.obscure, sharingDirectory], .file [] false)]
  unique := by decide
  rooted := by simp

/-- The source file is listed, and the file of the manifest does not hold its path. -/
theorem build_obscures :
    let h := Host.sound obscuredFiles []
    ∃ m h', h.run (build sharingRoot rootManifest) = (.ok m, h') ∧ m.skipped = [] ∧
      sharingRoot.entry Name.obscure.bytes ∈ m.entries ∧
      h'.files.read h'.directory rootManifest ≠ .ok (m.entries.flatMap exactLine) := by
  have hroot : ((Host.sound obscuredFiles []).run (Host.absolute sharingRoot)).1 =
      .ok sharingRoot := by cbv
  have hstart : obscuredFiles.locate [] true sharingRoot = .ok [sharingDirectory] := by cbv
  have hsource : obscuredFiles.locate [] true (sharingRoot.entry Name.obscure.bytes) =
      .ok [.obscure, sharingDirectory] := by cbv
  have hsite : obscuredFiles.site? [] rootManifest = some [sharingEntry] := by cbv
  obtain ⟨m, h', hbuild, hskipped, hquiet⟩ := exists_build_whole (h := Host.sound obscuredFiles [])
    (fun _ => rfl) hsite (by decide) (by cbv) hroot (isDirectory_iff.2 ⟨_, hstart, rfl⟩)
  have hlisted : sharingRoot.entry Name.obscure.bytes ∈ m.entries := by
    rw [build_listed hbuild hskipped hroot hquiet]
    exact below_recreated (fun _ => rfl) hsite (by decide) (by cbv) (.entry hstart rfl rfl) hsource
      rfl (by decide)
  obtain ⟨-, -, -, -, hread⟩ := build_written hbuild hskipped
  refine ⟨m, h', hbuild, hskipped, hlisted, ?_⟩
  rw [hread, Ne, Except.ok.injEq, lines_exact_iff]
  intro htext
  have hobscure : Text.isText (sharingRoot.entry Name.obscure.bytes).text = false := by cbv
  exact Bool.false_ne_true (hobscure.symm.trans (htext _ hlisted))

end SmaliBuild.Manifest
