import SmaliBuild.Proofs.Sweep.Account
/-!
# What a sweep does remove

A target that was swept without an error is gone, and without trouble there is no error.  With trouble
at the right calls a sweep takes any leaf that is within reach and nothing else
(`exists_faults_removeTargets`), so nothing less than being out of reach keeps an entry safe.
-/
namespace SmaliBuild.Sweep
open FileSystem
variable {fs a : FileSystem} {dir l m : Location} {p q : Path} {n : Name}

/-! ## A sweep without errors -/

theorem removeTarget_gone {s : Sweep} {h : Host} (hsite : h.files.site? h.directory p = some l)
    (hslash : p.endsWithSlash = false) (herrors : (h.run (removeTarget p s)).1.errors = []) :
    (h.run (removeTarget p s)).2.files.get? l = none := by
  rcases removeTarget_cases p s h with ⟨habsent, -⟩ | ⟨-, hfailed⟩ | ⟨-, r, hr, hgone⟩
  · refine (removeTarget_goes p s h).trims.none ?_
    rw [lstat_of_site hsite hslash] at habsent
    cases hl : h.files.get? l with
    | none => rfl
    | some e =>
      rw [hl] at habsent
      cases habsent
  · exact absurd herrors hfailed
  · rw [locate_of_site hsite hslash] at hr
    split at hr
    · exact Except.ok.inj hr ▸ hgone
    · cases hr

/-- Targets that were swept without an error are gone; `a` fixes where they are. -/
theorem removeTargets_gone {ps : List Path} {s : Sweep} {h : Host} (hwithin : a.Within h.files)
    (hfree : ∀ q ∈ ps, ∀ m, Reaches h.files h.directory q m → a.get? m = none)
    (herrors : (h.run (removeTargets ps s)).1.errors = []) (hp : p ∈ ps)
    (hsite : a.site? h.directory p = some l) (hslash : p.endsWithSlash = false) :
    (h.run (removeTargets ps s)).2.files.get? l = none := by
  obtain ⟨s₁, h₁, hbefore, hafter⟩ := exists_turn s h hp
  have hkept : a.Within h₁.files :=
    hwithin.trims hbefore.trims fun m ⟨q, hq, hm⟩ => hfree q hq m hm
  rw [← hbefore.steady.directory] at hsite
  refine hafter.trims.none (removeTarget_gone (site?_mono hkept hsite) hslash ?_)
  exact List.prefix_nil.1 (herrors ▸ hafter.errors)

theorem run_removeEntry {s : Sweep} {h : Host} {e : Entry} (hlook : h.faults h.made = none)
    (htake : h.faults (h.made + 1) = none) (hsite : h.files.site? h.directory p = some l)
    (hslash : p.endsWithSlash = false) (he : h.files.get? l = some e) (hdir : e ≠ .directory) :
    h.run (removeEntry p s) = ((true, { s with removed := s.removed + 1 }),
      h.counted.counted.withFiles (h.files.prune l)) := by
  have hlstat : (h.run (Host.lstat p)).1 = .ok e := by
    rw [Host.run_lstat_fst hlook, lstat_of_site hsite hslash, he]
  have hunlink : h.counted.run (Host.unlink p) =
      (.ok (), h.counted.counted.withFiles (h.files.prune l)) :=
    Host.run_unlink_ok (h := h.counted) htake hsite he hdir hslash
  have hleaf : ¬ e.isDirectory = true := fun hd => hdir (Entry.isDirectory_iff.1 hd)
  rw [removeEntry, Host.run_bind, Host.run_lstat_snd, hlstat]
  dsimp only
  rw [if_neg hleaf, Host.run_bind, hunlink]
  rfl

theorem removeTarget_quiet {s : Sweep} {h : Host} (hsound : ∀ n, h.faults n = none)
    (hsite : h.files.site? h.directory p = some l) (hslash : p.endsWithSlash = false)
    (hdir : h.files.get? l ≠ some .directory) :
    (h.run (removeTarget p s)).1.errors = s.errors := by
  have hlooks := (Host.run_lstat_fst (hsound h.made)).trans (lstat_of_site hsite hslash)
  cases he : h.files.get? l with
  | none =>
    rw [he] at hlooks
    obtain ⟨journal, -, hrun⟩ := run_removeTarget_missing s hlooks rfl
    rw [hrun]
  | some e =>
    rw [he] at hlooks
    have hleaf : e ≠ .directory := fun hd => hdir (he.trans (congrArg some hd))
    have hentry := run_removeEntry (s := s) (h := h.counted) (hsound _) (hsound _) hsite hslash he hleaf
    obtain ⟨journal, -, hrun⟩ := run_removeTarget_found hlooks hentry
    rw [hrun]

/-- On a machine without trouble targets that are no directories are swept without an error; `a` fixes
where they are. -/
theorem removeTargets_quiet {ps : List Path} {s : Sweep} {h : Host} (hsound : ∀ n, h.faults n = none)
    (hwithin : a.Within h.files)
    (hfree : ∀ q ∈ ps, ∀ m, Reaches h.files h.directory q m → a.get? m = none)
    (hps : ∀ q ∈ ps, ∃ l, a.site? h.directory q = some l ∧ q.endsWithSlash = false ∧
      h.files.get? l ≠ some .directory) :
    (h.run (removeTargets ps s)).1.errors = s.errors := by
  induction ps generalizing s h with
  | nil => rfl
  | cons q ps ih =>
    obtain ⟨l, hl, hslash, hdir⟩ := hps q (by simp)
    have hfirst := removeTarget_goes q s h
    rw [removeTargets, Host.run_bind, ih]
    · exact removeTarget_quiet hsound (site?_mono hwithin hl) hslash hdir
    · exact fun n => hfirst.steady.faults ▸ hsound n
    · exact hwithin.trims hfirst.trims fun m hm => hfree q (by simp) m hm
    · exact fun k hk m hm => hfree k (List.mem_cons_of_mem q hk) m (hfirst.reaches hm)
    · intro k hk
      obtain ⟨m, hm, hslash', hdir'⟩ := hps k (List.mem_cons_of_mem q hk)
      refine ⟨m, by rwa [hfirst.steady.directory], hslash', fun hd => hdir' ?_⟩
      exact hfirst.trims.eq_of_some hd

/-! ## A sweep under trouble -/

/-- Nothing but its count and its log changes on a host that stalls when an entry is looked at. -/
theorem passes_removeEntry {s : Sweep} {h : Host} (hf : h.faults h.made = some Host.stall) :
    Host.Passes 1 h (h.run (removeEntry p s)).2 := by
  have hlstat : (h.run (Host.lstat p)).1 = .error Host.stall.error := by
    rw [Host.lstat, Host.run_look, hf]
  rw [removeEntry, Host.run_bind, Host.run_lstat_snd, hlstat]
  exact ⟨rfl, rfl, rfl, rfl⟩

theorem passes_removeTarget {s : Sweep} {h : Host} (hf : h.faults h.made = some Host.stall) :
    Host.Passes 1 h (h.run (removeTarget p s)).2 := by
  have hlstat : (h.run (Host.lstat p)).1 = .error Host.stall.error := by
    rw [Host.lstat, Host.run_look, hf]
  rw [run_removeTarget_failed s hlstat (by simp [Host.stall.present])]
  exact ⟨rfl, rfl, rfl, rfl⟩

theorem run_removeEntries_append (short : p.byteLength < pathLimit) (before names : List Name)
    {s : Sweep} {h : Host} (hf : ∀ i < before.length, h.faults (h.made + i) = some Host.stall) :
    ∃ s' h', Host.Passes before.length h h' ∧
      h.run (removeEntries p short (before ++ names) s) =
        h'.run (removeEntries p short names s') := by
  induction before generalizing s h with
  | nil => exact ⟨s, h, .refl h, rfl⟩
  | cons k before ih =>
    have hfirst : Host.Passes 1 h (h.run (removeEntry (p.entry k.bytes) s)).2 :=
      passes_removeEntry (hf 0 (by simp))
    have hrest : ∀ i < before.length, (h.run (removeEntry (p.entry k.bytes) s)).2.faults
        ((h.run (removeEntry (p.entry k.bytes) s)).2.made + i) = some Host.stall := by
      intro i hi
      rw [hfirst.faults, hfirst.made, Nat.add_assoc, Nat.add_comm 1 i]
      exact hf (i + 1) (by simpa using hi)
    obtain ⟨s', h', hpasses, hrun⟩ := ih (s := (h.run (removeEntry (p.entry k.bytes) s)).1.2) hrest
    refine ⟨s', h', ?_, ?_⟩
    · rw [List.length_cons, Nat.add_comm]
      exact hfirst.trans hpasses
    · rw [List.cons_append, removeEntries, Host.run_bind]
      exact hrun

theorem run_removeTargets_append (before ps : List Path) {s : Sweep} {h : Host}
    (hf : ∀ i < before.length, h.faults (h.made + i) = some Host.stall) :
    ∃ s' h', Host.Passes before.length h h' ∧
      h.run (removeTargets (before ++ ps) s) = h'.run (removeTargets ps s') := by
  induction before generalizing s h with
  | nil => exact ⟨s, h, .refl h, rfl⟩
  | cons q before ih =>
    have hfirst : Host.Passes 1 h (h.run (removeTarget q s)).2 := passes_removeTarget (hf 0 (by simp))
    have hrest : ∀ i < before.length, (h.run (removeTarget q s)).2.faults
        ((h.run (removeTarget q s)).2.made + i) = some Host.stall := by
      intro i hi
      rw [hfirst.faults, hfirst.made, Nat.add_assoc, Nat.add_comm 1 i]
      exact hf (i + 1) (by simpa using hi)
    obtain ⟨s', h', hpasses, hrun⟩ := ih (s := (h.run (removeTarget q s)).1) hrest
    refine ⟨s', h', ?_, ?_⟩
    · rw [List.length_cons, Nat.add_comm]
      exact hfirst.trans hpasses
    · rw [List.cons_append, removeTargets, Host.run_bind]
      exact hrun

theorem run_removeEntry_directory {s : Sweep} {h : Host} (hlook : h.faults h.made = none)
    (hlist : h.faults (h.made + 1) = none) (hloc : h.files.locate h.directory false p = .ok l)
    (hdir : h.files.get? l = some .directory) :
    ∃ short, h.run (removeEntry p s) = h.counted.counted.run (do
      let s ← removeEntries p short (h.files.names l) s
      s.settle p (← Host.rmdir p)) := by
  have hlstat : (h.run (Host.lstat p)).1 = .ok .directory :=
    (Host.run_lstat_fst hlook).trans (lstat_eq_ok_iff.2 ⟨l, hloc, hdir⟩)
  obtain ⟨listing, hlisting, hnames, hwhole⟩ :=
    Host.run_list_fst (h := h.counted) hlist (locate_following hloc hdir) hdir
  refine ⟨listing.short, ?_⟩
  rw [removeEntry, Host.run_bind, Host.run_lstat_snd, hlstat]
  dsimp only
  rw [if_pos (Entry.isDirectory_iff.2 rfl), removeTree, Host.run_bind, Host.run_list_snd, hlisting]
  dsimp only
  rw [hnames, hwhole]
  rfl

theorem removeEntry_leaf {s : Sweep} {h : Host} (hf : ∀ n, h.made ≤ n → h.faults n = none)
    (hsite : h.files.site? h.directory p = some m) (hloc : h.files.locate h.directory false p = .ok m)
    (hleaf : h.files.IsLeaf m) : (h.run (removeEntry p s)).2.files.get? m = none := by
  obtain ⟨e, he, hnames⟩ := hleaf
  have hgone : (h.files.prune m).get? m = none := get?_prune_self (site?_ne_nil hsite)
  by_cases hdir : e = .directory
  · subst hdir
    have hrmdir : h.counted.counted.run (Host.rmdir p) =
        (.ok (), h.counted.counted.counted.withFiles (h.files.prune m)) :=
      Host.run_change_ok (h := h.counted.counted) (hf _ (Nat.le_add_right h.made 2))
        (rmdir_eq_ok_iff.2 ⟨m, hsite, he, hnames rfl, rfl⟩)
    obtain ⟨short, hrun⟩ := run_removeEntry_directory (s := s) (hf _ (Nat.le_refl _))
      (hf _ (Nat.le_succ _)) hloc he
    rw [hrun, hnames rfl, removeEntries, Host.run_bind, Host.run_pure, Host.run_bind, hrmdir]
    exact hgone
  · rw [run_removeEntry (hf _ (Nat.le_refl _)) (hf _ (Nat.le_succ _)) hsite
      (noSlash_of_locate hloc (by simpa [he] using hdir)) he hdir]
    exact hgone

/-- With trouble at the right calls the sweep of an entry takes any leaf that is within reach: it passes
over all entries but those on the way. -/
theorem exists_faults_removeEntry (hr : Reaches fs dir p m) (hleaf : fs.IsLeaf m) (made : Nat) :
    ∃ faults : Nat → Option Fault, ∀ (h : Host) (s : Sweep), h.files = fs → h.directory = dir →
      h.made = made → (∀ n, made ≤ n → h.faults n = faults n) →
      (h.run (removeEntry p s)).2.files.get? m = none := by
  induction hr generalizing made with
  | here hsite hloc =>
    refine ⟨fun _ => none, ?_⟩
    rintro h s rfl rfl rfl hf
    exact removeEntry_leaf hf hsite hloc hleaf
  | @inside p l m n hloc hdir hreaches ih =>
    obtain ⟨e, he, -⟩ := id hleaf
    have hn : n ∈ fs.names l := by
      obtain ⟨r, hr, hrm⟩ := hreaches.located
      obtain rfl := eq_cons_of_locate_entry hloc hdir hr
      rw [mem_names, Option.isSome_iff_ne_none]
      intro hnone
      cases (get?_eq_none_of_suffix hrm hnone).symm.trans he
    obtain ⟨before, after, hnames⟩ := List.append_of_mem hn
    -- two calls until the directory is listed, and one for each entry that is passed over
    obtain ⟨faults, hfaults⟩ := ih hleaf (made + 2 + before.length)
    refine ⟨fun i => if i < made + 2 then none else
      if i < made + 2 + before.length then some Host.stall else faults i, ?_⟩
    rintro h s rfl rfl rfl hf
    dsimp only at hf
    have hlook : h.faults h.made = none := by
      rw [hf _ (Nat.le_refl _)]
      simp
    have hlist : h.faults (h.made + 1) = none := by
      rw [hf _ (Nat.le_succ _)]
      simp
    obtain ⟨short, hrun⟩ := run_removeEntry_directory (s := s) hlook hlist hloc hdir
    have hstall : ∀ i < before.length,
        h.counted.counted.faults (h.counted.counted.made + i) = some Host.stall := by
      intro i hi
      change h.faults (h.made + 2 + i) = some Host.stall
      rw [hf _ (by omega), if_neg (by omega), if_pos (by omega)]
    obtain ⟨s₁, h₁, hpasses, hentries⟩ := run_removeEntries_append short before (n :: after)
      hstall (s := s)
    rw [hrun, hnames, Host.run_bind, hentries, removeEntries, Host.run_bind]
    have hgone : (h₁.run (removeEntry (p.entry n.bytes) s₁)).2.files.get? m = none := by
      refine hfaults h₁ s₁ hpasses.files hpasses.directory hpasses.made fun i hi => ?_
      rw [hpasses.faults]
      change h.faults i = faults i
      rw [hf _ (by omega), if_neg (by omega), if_neg (by omega)]
    -- what comes after may only take more away
    have hrest := (removeEntries_goes p short after (h₁.run (removeEntry (p.entry n.bytes) s₁)).1.2
      (h₁.run (removeEntry (p.entry n.bytes) s₁)).2).trims.none hgone
    exact (goes_settle (Host.takes_rmdir p) _ _).1.trims.none hrest

/-- With trouble at the right calls a sweep takes any leaf that is within reach of a target. -/
theorem exists_faults_removeTargets {ps : List Path} (hp : p ∈ ps) (hr : Reaches fs dir p m)
    (hleaf : fs.IsLeaf m) (made : Nat) :
    ∃ faults : Nat → Option Fault, ∀ (h : Host) (s : Sweep), h.files = fs → h.directory = dir →
      h.made = made → (∀ n, made ≤ n → h.faults n = faults n) →
      (h.run (removeTargets ps s)).2.files.get? m = none := by
  obtain ⟨before, after, rfl⟩ := List.append_of_mem hp
  obtain ⟨faults, hfaults⟩ := exists_faults_removeEntry hr hleaf (made + before.length + 1)
  refine ⟨fun i => if i < made + before.length then some Host.stall else
    if i = made + before.length then none else faults i, ?_⟩
  rintro h s rfl rfl rfl hf
  dsimp only at hf
  have hstall : ∀ i < before.length, h.faults (h.made + i) = some Host.stall := by
    intro i hi
    rw [hf _ (Nat.le_add_right _ _), if_pos (Nat.add_lt_add_left hi _)]
  obtain ⟨s₁, h₁, hpasses, htargets⟩ := run_removeTargets_append before (p :: after) hstall (s := s)
  rw [htargets, removeTargets, Host.run_bind]
  refine (removeTargets_goes after _ _).trims.none ?_
  have hlook : h₁.faults h₁.made = none := by
    rw [hpasses.faults, hpasses.made, hf _ (Nat.le_add_right _ _), if_neg (Nat.lt_irrefl _), if_pos rfl]
  have hstat : ∃ e, h₁.files.lstat h₁.directory p = .ok e := by
    obtain ⟨r, hloc, hrm⟩ := hr.located
    obtain ⟨e, he, -⟩ := hleaf
    cases hre : h.files.get? r with
    | none => cases (get?_eq_none_of_suffix hrm hre).symm.trans he
    | some e' =>
      rw [hpasses.files, hpasses.directory]
      exact ⟨e', lstat_eq_ok_iff.2 ⟨r, hloc, hre⟩⟩
  obtain ⟨e, he⟩ := hstat
  obtain ⟨journal, -, hrun⟩ :=
    run_removeTarget_found (s := s₁) ((Host.run_lstat_fst hlook).trans he) rfl
  rw [hrun]
  refine hfaults h₁.counted s₁ hpasses.files hpasses.directory ?_ fun i hi => ?_
  · exact congrArg (· + 1) hpasses.made
  · change h₁.faults i = faults i
    rw [hpasses.faults, hf _ (by omega), if_neg (by omega), if_neg (by omega)]

/-- A region is spared if no leaf of it is within reach. -/
theorem removeTargets_spares {R : Location → Prop} {ps : List Path} {s : Sweep} {h : Host}
    (hdown : ∀ l m e, R l → l <:+ m → h.files.get? m = some e → R m)
    (hapart : ∀ q ∈ ps, ∀ m, Reaches h.files h.directory q m → h.files.IsLeaf m → ¬ R m) :
    SameAt R h.files (h.run (removeTargets ps s)).2.files := by
  intro l hl
  have htrims := (removeTargets_goes ps s h).trims
  rcases htrims l with hsame | ⟨-, hnone⟩
  · exact hsame
  cases he : h.files.get? l with
  | none => exact hnone
  | some e =>
    -- without `l` the leaf below it is gone too, so it was within reach
    obtain ⟨m, hlm, hleaf⟩ := exists_leaf he
    obtain ⟨e', he', -⟩ := id hleaf
    rcases htrims m with hsame | ⟨⟨q, hq, hreaches⟩, -⟩
    · rw [get?_eq_none_of_suffix hlm hnone, he'] at hsame
      cases hsame
    · exact absurd (hdown l m e' hl hlm he') (hapart q hq m hreaches hleaf)

end SmaliBuild.Sweep
