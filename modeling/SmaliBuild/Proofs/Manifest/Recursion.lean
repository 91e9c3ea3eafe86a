import SmaliBuild.Proofs.Files.Crossings
import SmaliBuild.Proofs.Manifest.Account
/-!
# The walk comes to an end

The walk that fills a manifest follows links, does not know where it has been and sets itself no limit.
`Entered` derives the paths that such a walk can come to while a look-up refuses nothing but too many
links.  There are only so many, and how many names they have is a matter of the file system alone
(`entered_bounded`).  `recordDirectory` is the walk with a record of the directories that it is called
for: each of them is called for once, and they are among those (`addDirectory_ends`).
-/
namespace SmaliBuild

namespace FileSystem
variable {fs : FileSystem} {l r : Location} {n : Name}

def allNames (fs : FileSystem) : List Name := fs.entries.filterMap (·.1.head?)

theorem mem_allNames (hn : (fs.get? (n :: r)).isSome) : n ∈ fs.allNames := by
  obtain ⟨e, he⟩ := Option.isSome_iff_exists.1 hn
  exact List.mem_filterMap.2 ⟨_, mem_entries_of_get? (List.cons_ne_nil n r) he, rfl⟩

theorem append_within (fs : FileSystem) (l : Location) (bytes : Bytes) :
    (fs.append l bytes).Within fs := by
  intro k e he
  rw [get?_append] at he
  cases hk : fs.get? k with
  | none => simp [hk] at he
  | some e' =>
    rw [hk] at he
    cases e' with
    | file content x =>
      dsimp only at he
      split at he <;> obtain rfl := Option.some.inj he <;> rfl
    | directory => exact congrArg (Option.map Entry.outline) he
    | link target => exact congrArg (Option.map Entry.outline) he

end FileSystem

/-- Only so many lists can be put together from few things if they are to be short. -/
theorem finite_short_lists {α : Type} (s : Finset α) (b : Nat) :
    {l : List α | l.length ≤ b ∧ ∀ a ∈ l, a ∈ s}.Finite ∧
      {l : List α | l.length ≤ b ∧ ∀ a ∈ l, a ∈ s}.ncard ≤ (s.card + 1) ^ b := by
  classical
  -- a short list is known by what stands at each of the first places
  let places : List α → Fin b → Option α := fun l i => l[i.val]?
  let all : Finset (Fin b → Option α) := Fintype.piFinset fun _ => s.insertNone
  have hmaps : ∀ l ∈ {l : List α | l.length ≤ b ∧ ∀ a ∈ l, a ∈ s}, places l ∈ (all : Set _) := by
    rintro l ⟨-, hl⟩
    refine Fintype.mem_piFinset.2 fun i => Finset.mem_insertNone.2 fun a ha => ?_
    exact hl a (List.mem_of_getElem? ha)
  have hinj : Set.InjOn places {l : List α | l.length ≤ b ∧ ∀ a ∈ l, a ∈ s} := by
    rintro l ⟨hl, -⟩ l' ⟨hl', -⟩ heq
    refine List.ext_getElem? fun i => ?_
    by_cases hi : i < b
    · exact congrFun heq ⟨i, hi⟩
    · rw [List.getElem?_eq_none (by omega), List.getElem?_eq_none (by omega)]
  refine ⟨Set.Finite.of_injOn hmaps hinj all.finite_toSet, ?_⟩
  refine (Set.ncard_le_ncard_of_injOn places hmaps hinj all.finite_toSet).trans_eq ?_
  rw [Set.ncard_coe_finset, Fintype.card_piFinset_const, Finset.card_insertNone]

namespace Manifest
open FileSystem Host
variable {l : Location} {h h₀ : Host} {m : Manifest} {d root : Path} {n : Name} {ns : List Name}

/-! ## Where a walk can come to -/

/-- A walk of `d` can come to the path with the names `ns` behind `d`: each name is that of an entry of
the directory that the path before it leads to, and leads to a directory.  A look-up may refuse too many
links, and nothing else. -/
inductive Entered (fs : FileSystem) (dir : Location) : Path → List Name → Prop
  | here {d : Path} : Entered fs dir d []
  | inside {d : Path} {r r' : Location} {n : Name} {ns : List Name} : fs.Opens dir d r →
      (fs.get? (n :: r)).isSome → fs.Opens dir (d.entry n.bytes) r' →
      Entered fs dir (d.entry n.bytes) ns → Entered fs dir d (ns ++ [n])

section
variable {fs : FileSystem} {dir : Location}

theorem Entered.opens (he : Entered fs dir d ns) (hne : ns ≠ []) :
    ∃ r, fs.Opens dir (d.below ns) r := by
  induction he with
  | here => exact absurd rfl hne
  | @inside d r r' n ns _ _ hopens _ ih =>
    rw [Path.below_concat]
    by_cases hlast : ns = []
    · subst hlast
      exact ⟨r', hopens⟩
    · exact ih hlast

theorem Entered.length_le (he : Entered fs dir d ns) : ns.length ≤ fs.levels := by
  by_cases hne : ns = []
  · rw [hne]
    exact Nat.zero_le _
  · obtain ⟨r, hopens⟩ := he.opens hne
    exact hopens.length_le

theorem Entered.mem_allNames (he : Entered fs dir d ns) : ∀ n ∈ ns, n ∈ fs.allNames := by
  induction he with
  | here => exact fun n hn => absurd hn List.not_mem_nil
  | inside _ hentry _ _ ih =>
    intro k hk
    rcases List.mem_append.1 hk with hk | hk
    · exact ih k hk
    · exact List.mem_singleton.1 hk ▸ FileSystem.mem_allNames hentry

/-- What limits a walk of `root`, whatever links there are. -/
structure Bounded (fs : FileSystem) (dir : Location) (root : Path) : Prop where
  finite : {ns | Entered fs dir root ns}.Finite
  count : {ns | Entered fs dir root ns}.ncard ≤ (fs.entries.length + 1) ^ fs.levels
  short : ∀ ns, Entered fs dir root ns → ns.length ≤ fs.levels
  links : ∀ ns, Entered fs dir root ns → ns ≠ [] → ∃ r, fs.Opens dir (root.below ns) r
  ends : WellFounded fun ns' ns => Entered fs dir root ns' ∧ ∃ n, ns' = n :: ns

theorem entered_bounded (fs : FileSystem) (dir : Location) (root : Path) : Bounded fs dir root := by
  classical
  obtain ⟨hfinite, hcard⟩ := finite_short_lists fs.allNames.toFinset fs.levels
  have hsub : {ns | Entered fs dir root ns} ⊆
      {ns | ns.length ≤ fs.levels ∧ ∀ n ∈ ns, n ∈ fs.allNames.toFinset} := fun ns he =>
    ⟨he.length_le, fun n hn => List.mem_toFinset.2 (he.mem_allNames n hn)⟩
  have hnames : fs.allNames.toFinset.card ≤ fs.entries.length :=
    (List.toFinset_card_le _).trans (List.length_filterMap_le _ _)
  refine ⟨hfinite.subset hsub, ?_, fun ns he => he.length_le, fun ns he => he.opens, ?_⟩
  · calc {ns | Entered fs dir root ns}.ncard
        ≤ {ns | ns.length ≤ fs.levels ∧ ∀ n ∈ ns, n ∈ fs.allNames.toFinset}.ncard :=
          Set.ncard_le_ncard hsub hfinite
      _ ≤ (fs.allNames.toFinset.card + 1) ^ fs.levels := hcard
      _ ≤ (fs.entries.length + 1) ^ fs.levels := Nat.pow_le_pow_left (by omega) _
  · -- each call inside another one has a name more, and there is only room for so many
    refine Subrelation.wf ?_ (measure fun ns : List Name => fs.levels - ns.length).wf
    rintro _ ns ⟨he, n, rfl⟩
    have hle : ns.length + 1 ≤ fs.levels := he.length_le
    change fs.levels - (ns.length + 1) < fs.levels - ns.length
    omega

end

/-! ## The calls of a walk -/

mutual

/-- The walk below `d`, with a record of the directories that it is called for, in the order of the
calls. -/
def recordDirectory (file : Location) (d : Path) (m : Manifest) :
    Host.Action (Manifest × List Path) := do
  match ← Host.list d with
  | .error e => return (← m.skip d e, [d])
  | .ok listing =>
    let (m, calls) ← recordEntries file d listing.short listing.names m
    match listing.broken with
    | none => return (m, d :: calls)
    | some e => return (← m.skip d e, d :: calls)
termination_by (pathLimit - d.byteLength, 1, 0)

def recordEntries (file : Location) (d : Path) (short : d.byteLength < pathLimit) :
    List Name → Manifest → Host.Action (Manifest × List Path)
  | [], m => return (m, [])
  | n :: names, m => do
    let p := d.entry n.bytes
    if ← Host.isDirectory p then
      let (m, inside) ← recordDirectory file p m
      let (m, rest) ← recordEntries file d short names m
      return (m, inside ++ rest)
    else recordEntries file d short names (← write file p m)
termination_by names => (pathLimit - d.byteLength, 0, names.length)
decreasing_by
  · have := Path.byteLength_lt_entry d n.bytes_ne_nil
    exact Prod.Lex.left _ _ (by omega)
  all_goals exact Prod.Lex.right _ (Prod.Lex.right _ (by simp))

end

theorem steps_within (l : Location) : Steps l fun a b =>
    b.2.files.Within a.2.files ∧ b.2.directory = a.2.directory where
  refl a := ⟨.refl _, rfl⟩
  trans _ _ _ hx hy := ⟨hy.1.trans hx.1, hy.2.trans hx.2⟩
  look _ h := ⟨.refl h.files, rfl⟩
  skip _ _ _ h := ⟨.refl h.files, rfl⟩
  write m p h := by
    obtain ⟨written, journal, hrun⟩ := run_write_snd l p m h
    rw [hrun]
    exact ⟨append_within _ _ _, rfl⟩

/-- Calls for different paths, each of them one that a walk of `d` can come to. -/
structure Calls (fs : FileSystem) (dir : Location) (d : Path) (calls : List (List Name)) : Prop where
  nodup : calls.Nodup
  entered : ∀ ns ∈ calls, Entered fs dir d ns

/-- Calls for paths that begin with one of `names`. -/
structure CallsInside (fs : FileSystem) (dir : Location) (d : Path) (names : List Name)
    (calls : List (List Name)) : Prop extends Calls fs dir d calls where
  under : ∀ ns ∈ calls, ∃ n ∈ names, ∃ ks, ns = ks ++ [n]

section
variable {fs : FileSystem} {dir r r' : Location} {names : List Name} {calls inside : List (List Name)}

theorem Calls.alone (fs : FileSystem) (dir : Location) (d : Path) : Calls fs dir d [[]] :=
  ⟨List.nodup_singleton _, fun _ hns => List.mem_singleton.1 hns ▸ .here⟩

theorem CallsInside.around (hc : CallsInside fs dir d names calls) : Calls fs dir d ([] :: calls) := by
  refine ⟨List.nodup_cons.2 ⟨fun hnil => ?_, hc.nodup⟩, fun ns hns => ?_⟩
  · obtain ⟨n, -, ks, hks⟩ := hc.under [] hnil
    simp at hks
  · rcases List.mem_cons.1 hns with rfl | hns
    · exact .here
    · exact hc.entered ns hns

theorem CallsInside.none (fs : FileSystem) (dir : Location) (d : Path) :
    CallsInside fs dir d [] [] where
  nodup := List.nodup_nil
  entered _ hns := absurd hns List.not_mem_nil
  under _ hns := absurd hns List.not_mem_nil

theorem CallsInside.over_leaf (hc : CallsInside fs dir d names calls) :
    CallsInside fs dir d (n :: names) calls where
  nodup := hc.nodup
  entered := hc.entered
  under ns hns := by
    obtain ⟨k, hk, ks, hks⟩ := hc.under ns hns
    exact ⟨k, List.mem_cons_of_mem n hk, ks, hks⟩

/-- The calls below an entry come before those below the later ones, and are others because the entry has
another name. -/
theorem CallsInside.over_directory (hopens : fs.Opens dir d r) (hentry : (fs.get? (n :: r)).isSome)
    (hinto : fs.Opens dir (d.entry n.bytes) r') (hn : n ∉ names)
    (hinside : Calls fs dir (d.entry n.bytes) inside) (hc : CallsInside fs dir d names calls) :
    CallsInside fs dir d (n :: names) (inside.map (· ++ [n]) ++ calls) where
  nodup := by
    refine List.nodup_append.2 ⟨?_, hc.nodup, fun ns hns ks hks heq => hn ?_⟩
    · exact hinside.nodup.map (List.append_left_injective [n])
    · obtain ⟨js, -, rfl⟩ := List.mem_map.1 hns
      obtain ⟨k, hk, ks', rfl⟩ := hc.under ks hks
      obtain ⟨-, hlast⟩ := List.append_inj' heq rfl
      exact List.singleton_inj.1 hlast ▸ hk
  entered ns hns := by
    rcases List.mem_append.1 hns with hns | hns
    · obtain ⟨ks, hks, rfl⟩ := List.mem_map.1 hns
      exact .inside hopens hentry hinto (hinside.entered ks hks)
    · exact hc.entered ns hns
  under ns hns := by
    rcases List.mem_append.1 hns with hns | hns
    · obtain ⟨ks, -, rfl⟩ := List.mem_map.1 hns
      exact ⟨n, List.mem_cons_self, ks, rfl⟩
    · exact hc.over_leaf.under ns hns

end

mutual

theorem recordDirectory_calls (l : Location) (d : Path) (m : Manifest) (h : Host)
    (hw : h.files.Within h₀.files) (hdir : h.directory = h₀.directory) :
    ∃ calls : List (List Name), Calls h₀.files h₀.directory d calls ∧
      h.run (recordDirectory l d m) = (((h.run (addDirectory l d m)).1, calls.map d.below),
        (h.run (addDirectory l d m)).2) := by
  rw [recordDirectory, addDirectory, run_bind, run_bind, run_list_snd]
  cases hlist : (h.run (Host.list d)).1 with
  | error e => exact ⟨[[]], .alone _ _ _, rfl⟩
  | ok listing =>
    obtain ⟨r, hr, hd, hnames, -⟩ := run_list.2 listing hlist
    have hopens : h₀.files.Opens h₀.directory d r :=
      opens_of_locate (locate_mono hw (hdir ▸ hr)) (hw.directory hd)
    have hdistinct : listing.names.Nodup := (nodup_names h.files r).sublist hnames.sublist
    obtain ⟨calls, hcalls, hrun⟩ := recordEntries_calls l d listing.short listing.names m
      h.counted hw hdir hopens hdistinct fun n hn => hw.isSome (mem_names.1 (hnames.subset hn))
    refine ⟨[] :: calls, hcalls.around, ?_⟩
    dsimp only
    rw [run_bind, run_bind, hrun]
    cases listing.broken <;> rfl
termination_by (pathLimit - d.byteLength, 1, 0)

theorem recordEntries_calls (l : Location) (d : Path) (short : d.byteLength < pathLimit)
    (names : List Name) (m : Manifest) (h : Host)
    (hw : h.files.Within h₀.files) (hdir : h.directory = h₀.directory) {r : Location}
    (hopens : h₀.files.Opens h₀.directory d r) (hdistinct : names.Nodup)
    (hnames : ∀ n ∈ names, (h₀.files.get? (n :: r)).isSome) :
    ∃ calls : List (List Name), CallsInside h₀.files h₀.directory d names calls ∧
      h.run (recordEntries l d short names m) =
        (((h.run (addEntries l d short names m)).1, calls.map d.below),
          (h.run (addEntries l d short names m)).2) := by
  match names with
  | [] =>
    rw [recordEntries, addEntries]
    exact ⟨[], .none _ _ _, rfl⟩
  | n :: names =>
    obtain ⟨hn, hdistinct⟩ := List.nodup_cons.1 hdistinct
    have hentry := hnames n List.mem_cons_self
    have hlater := fun k hk => hnames k (List.mem_cons_of_mem n hk)
    rw [recordEntries, addEntries, run_bind, run_bind, run_isDirectory_snd]
    cases henter : (h.run (Host.isDirectory (d.entry n.bytes))).1 with
    | true =>
      obtain ⟨k, hk, hkd⟩ := isDirectory_iff.1 (isDirectory_of_run henter)
      have hinto : h₀.files.Opens h₀.directory (d.entry n.bytes) k :=
        opens_of_locate (locate_mono hw (hdir ▸ hk)) (hw.directory hkd)
      obtain ⟨inside, hinside, hrun⟩ :=
        recordDirectory_calls l (d.entry n.bytes) m h.counted hw hdir
      have hout := addDirectory_steps (steps_within l) (d.entry n.bytes) m h.counted
      obtain ⟨rest, hrest, hrun'⟩ := recordEntries_calls l d short names
        (h.counted.run (addDirectory l (d.entry n.bytes) m)).1
        (h.counted.run (addDirectory l (d.entry n.bytes) m)).2
        (hout.1.trans hw) (hout.2.trans hdir) hopens hdistinct hlater
      refine ⟨_, .over_directory hopens hentry hinto hn hinside hrest, ?_⟩
      have hbelow : (inside.map (· ++ [n])).map d.below = inside.map (d.entry n.bytes).below := by
        rw [List.map_map]
        exact List.map_congr_left fun ks _ => Path.below_concat d ks n
      rw [if_pos rfl, if_pos rfl, run_bind, run_bind, hrun]
      dsimp only
      rw [run_bind, hrun', List.map_append, hbelow]
      rfl
    | false =>
      have hout := (steps_within l).write m (d.entry n.bytes) h.counted
      obtain ⟨rest, hrest, hrun'⟩ := recordEntries_calls l d short names
        (h.counted.run (write l (d.entry n.bytes) m)).1
        (h.counted.run (write l (d.entry n.bytes) m)).2
        (hout.1.trans hw) (hout.2.trans hdir) hopens hdistinct hlater
      refine ⟨rest, hrest.over_leaf, ?_⟩
      rw [if_neg Bool.false_ne_true, if_neg Bool.false_ne_true, run_bind, run_bind, hrun']
termination_by (pathLimit - d.byteLength, 0, names.length)
decreasing_by
  · exact Prod.Lex.right _ (Prod.Lex.right _ (by simp))
  · have := Path.byteLength_lt_entry d n.bytes_ne_nil
    exact Prod.Lex.left _ _ (by omega)
  · exact Prod.Lex.right _ (Prod.Lex.right _ (by simp))

end

/-- The walk comes to an end because look-ups refuse too many links, and for no other reason.  The paths
that it can come to are finitely many, none of them crosses more links than a look-up may, and their
number and the number of their names are limited by the file system alone; and the directories that the
walk is called for are among them, each at one call only. -/
theorem addDirectory_ends (l : Location) (root : Path) (m : Manifest) (h : Host) :
    Bounded h.files h.directory root ∧
    ∃ calls : List (List Name), calls.Nodup ∧
      (∀ ns ∈ calls, Entered h.files h.directory root ns) ∧
      calls.length ≤ (h.files.entries.length + 1) ^ h.files.levels ∧
      h.run (recordDirectory l root m) = (((h.run (addDirectory l root m)).1, calls.map root.below),
        (h.run (addDirectory l root m)).2) := by
  classical
  have hbounded := entered_bounded h.files h.directory root
  obtain ⟨calls, ⟨hnodup, hentered⟩, hrun⟩ := recordDirectory_calls l root m h (.refl _) rfl
  refine ⟨hbounded, calls, hnodup, hentered, ?_, hrun⟩
  calc calls.length = (calls.toFinset : Set (List Name)).ncard := by
        rw [Set.ncard_coe_finset, List.toFinset_card_of_nodup hnodup]
    _ ≤ {ns | Entered h.files h.directory root ns}.ncard :=
        Set.ncard_le_ncard (fun ns hns => hentered ns (List.mem_toFinset.1 hns)) hbounded.finite
    _ ≤ (h.files.entries.length + 1) ^ h.files.levels := hbounded.count

end Manifest
end SmaliBuild
