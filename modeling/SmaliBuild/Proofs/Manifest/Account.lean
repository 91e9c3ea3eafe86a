import SmaliBuild.Proofs.Manifest.Walk
import SmaliBuild.Proofs.Sweep.Account
/-!
# The account that a manifest gives

Whatever calls fail, a manifest accounts for each path below its root that leads to something other
than a directory: it lists the path, or skips it or a directory around it, or lists a directory around
it that could not be looked at (`build_accounts`).  The lines of the listed paths are in the file, each
in one piece.  What the walk does to the manifest and to the file is shown at once for every relation
that its moves and looks keep (`addDirectory_steps`).
-/
namespace SmaliBuild

namespace Host
variable {h : Host} {p : Path}

theorem isDirectory_of_run (ha : (h.run (isDirectory p)).1 = true) :
    h.files.isDirectory h.directory p = true := by
  rw [isDirectory, run_bind] at ha
  cases hlook : (h.run (stat p)).1 with
  | error e =>
    rw [hlook] at ha
    cases ha
  | ok e =>
    rw [hlook] at ha
    obtain ⟨l, hl, he⟩ := run_stat_ok hlook
    exact FileSystem.isDirectory_iff.2 ⟨l, hl, Entry.isDirectory_iff.1 ha ▸ he⟩

theorem met_of_isDirectory (ha : (h.run (isDirectory p)).1 = false)
    (hd : h.files.isDirectory h.directory p = true) : ∃ x, Met h h.counted x := by
  cases hf : h.faults h.made with
  | some fault => exact ⟨_, met_of_faults hf⟩
  | none =>
    rw [run_isDirectory_fst hf, hd] at ha
    cases ha

end Host

namespace Manifest
open FileSystem Host
variable {l : Location} {h h' h₀ h₁ h₂ : Host} {m m' m₁ m₂ : Manifest} {p d : Path} {n : Name}

/-! ## The steps of a walk -/

/-- Each step of a walk keeps the relation, which can be chained. -/
structure Steps (l : Location) (R : Manifest × Host → Manifest × Host → Prop) : Prop where
  refl : ∀ a, R a a
  trans : ∀ a b c, R a b → R b c → R a c
  look : ∀ m h, R (m, h) (m, h.counted)
  skip : ∀ m p e h, R (m, h) (h.run (m.skip p e))
  write : ∀ m p h, R (m, h) (h.run (write l p m))

section
variable {R : Manifest × Host → Manifest × Host → Prop} {moves : List Move} {a b : Manifest × Host}

theorem Walks.keeps (hR : Steps l R) (hw : Walks l moves a b) : R a b := by
  induction hw with
  | done => exact hR.refl _
  | look _ ih => exact hR.trans _ _ _ (hR.look _ _) ih
  | @move v _ m h _ _ ih =>
    cases v with
    | skip p e => exact hR.trans _ _ _ (hR.skip m p e h) ih
    | write p => exact hR.trans _ _ _ (hR.write m p h) ih

theorem addDirectory_steps (hR : Steps l R) (d : Path) (m : Manifest) (h : Host) :
    R (m, h) (h.run (addDirectory l d m)) := by
  obtain ⟨moves, hwalk, -⟩ := addDirectory_walks l d m h
  exact hwalk.keeps hR

theorem addEntries_steps (hR : Steps l R) (d : Path) (short : d.byteLength < pathLimit)
    (names : List Name) (m : Manifest) (h : Host) :
    R (m, h) (h.run (addEntries l d short names m)) := by
  obtain ⟨moves, hwalk, -⟩ := addEntries_walks l d short names m h
  exact hwalk.keeps hR

end

/-- The open file has the lines of all listed paths, each in one piece. -/
def Holds (l : Location) (m : Manifest) (h : Host) : Prop :=
  ∃ content x, h.files.get? l = some (.file content x) ∧ ∀ p ∈ m.entries, line p <:+: content

/-- What the walk has on record it keeps, in the manifest and in the file. -/
structure Gains (l : Location) (a b : Manifest × Host) : Prop where
  entries : a.1.entries <+: b.1.entries
  skipped : a.1.skipped <+: b.1.skipped
  made : a.2.made ≤ b.2.made
  holds : Holds l a.1 a.2 → Holds l b.1 b.2

theorem get?_append_self {fs : FileSystem} {content written : Bytes} {x : Bool}
    (hfile : fs.get? l = some (.file content x)) :
    (fs.append l written).get? l = some (.file (content ++ written) x) := by
  rw [get?_append, hfile]
  simp

theorem gains_write (l : Location) (p : Path) (m : Manifest) (h : Host) :
    Gains l (m, h) (h.run (write l p m)) := by
  have hgrown {bytes : Bytes} (hh : Holds l m h) : ∃ content x,
      (h.files.append l bytes).get? l = some (.file content x) ∧
        (∀ q ∈ m.entries, line q <:+: content) ∧ bytes <:+: content := by
    obtain ⟨content, x, hfile, hlines⟩ := hh
    refine ⟨content ++ bytes, x, get?_append_self hfile, fun q hq => ?_, ?_⟩
    · exact (hlines q hq).trans (List.prefix_append _ _).isInfix
    · exact (List.suffix_append _ _).isInfix
  cases run_write_cases l p m h with
  | inl hfail =>
    obtain ⟨e, written, hrun⟩ := hfail
    rw [hrun]
    refine ⟨List.prefix_refl _, List.prefix_append _ _, Nat.le_succ _, fun hh => ?_⟩
    obtain ⟨content, x, hfile, hlines, -⟩ := hgrown hh
    exact ⟨content, x, hfile, hlines⟩
  | inr hrun =>
    rw [hrun]
    refine ⟨List.prefix_append _ _, List.prefix_refl _, Nat.le_succ _, fun hh => ?_⟩
    obtain ⟨content, x, hfile, hlines, hline⟩ := hgrown hh
    refine ⟨content, x, hfile, fun q hq => ?_⟩
    cases List.mem_append.1 hq with
    | inl hq => exact hlines q hq
    | inr hq => exact List.mem_singleton.1 hq ▸ hline

theorem steps_gains (l : Location) : Steps l (Gains l) where
  refl _ := ⟨List.prefix_refl _, List.prefix_refl _, Nat.le_refl _, id⟩
  trans _ _ _ hx hy := ⟨hx.entries.trans hy.entries, hx.skipped.trans hy.skipped,
    hx.made.trans hy.made, fun hh => hy.holds (hx.holds hh)⟩
  look _ _ := ⟨List.prefix_refl _, List.prefix_refl _, Nat.le_succ _, id⟩
  skip _ _ _ _ := ⟨List.prefix_refl _, List.prefix_append _ _, Nat.le_refl _, id⟩
  write m p h := gains_write l p m h

/-! ## What a path comes to -/

/-- How the manifest `m`, built between the two hosts, accounts for the path `p`. -/
inductive Accounts (h h' : Host) (m : Manifest) (p : Path) : Prop
  /-- The path has a line. -/
  | listed : p ∈ m.entries → Accounts h h' m p
  /-- The path, or a directory around it, was skipped with an error. -/
  | skipped {x : Setback} {ns : List Name} : x ∈ m.skipped → p = x.path.below ns → Accounts h h' m p
  /-- A directory around it has a line, because it could not be looked at. -/
  | hidden {q : Path} {x : IoError} : q ∈ m.entries → Below h.files h.directory q p → h.Met h' x →
      Accounts h h' m p

theorem Accounts.later (hx : Accounts h₀ h₁ m₁ p) (hgains : Gains l (m₁, h₁) (m₂, h₂)) :
    Accounts h₀ h₂ m₂ p := by
  cases hx with
  | listed hp => exact .listed (hgains.entries.subset hp)
  | skipped hx hp => exact .skipped (hgains.skipped.subset hx) hp
  | hidden hq hb hmet =>
    exact .hidden (hgains.entries.subset hq) hb (hmet.mono rfl (Nat.le_refl _) hgains.made)

theorem Below.exists_below {fs : FileSystem} {dir : Location} (hp : Below fs dir d p) :
    ∃ ns, p = d.below ns := by
  induction hp with
  | @entry d r n _ _ _ => exact ⟨[n], rfl⟩
  | @inside d r n p _ _ _ _ ih =>
    obtain ⟨ns, rfl⟩ := ih
    exact ⟨ns ++ [n], (Path.below_concat d ns n).symm⟩

theorem accounts_skip {e : IoError} {ns : List Name} (hp : p = d.below ns) :
    Accounts h₀ (h.run (m.skip d e)).2 (h.run (m.skip d e)).1 p :=
  .skipped (x := ⟨d, e⟩) (List.mem_append_right _ (List.mem_singleton.2 rfl)) hp

/-- A path that was written without being entered accounts for itself and for all below it. -/
theorem accounts_write (hp : p = d ∨
      Below h₀.files h₀.directory d p ∧ ∃ x, h₀.Met h x) (m : Manifest) :
    Accounts h₀ (h.run (write l d m)).2 (h.run (write l d m)).1 p := by
  have hbelow : ∃ ns, p = d.below ns := by
    cases hp with
    | inl heq => exact ⟨[], heq⟩
    | inr hb => exact hb.1.exists_below
  cases run_write_cases l d m h with
  | inl hfail =>
    obtain ⟨e, written, hrun⟩ := hfail
    obtain ⟨ns, hns⟩ := hbelow
    rw [hrun]
    exact accounts_skip hns
  | inr hrun =>
    have hmem : d ∈ m.entries ++ [d] := List.mem_append_right _ (List.mem_singleton.2 rfl)
    rw [hrun]
    cases hp with
    | inl heq => exact .listed (heq ▸ hmem)
    | inr hb =>
      obtain ⟨hb, x, hmet⟩ := hb
      exact .hidden hmem hb (hmet.mono rfl (Nat.le_refl _) (Nat.le_succ _))

section
variable {content : Bytes} {x : Bool}

mutual

/-- The walk below a directory accounts for all that stands there and is no directory. -/
theorem addDirectory_accounts (l : Location) (d : Path) (m : Manifest) (h : Host)
    (hfile : h₀.files.get? l = some (.file content x)) (hf : Fills l h₀ h)
    (hp : Below h₀.files h₀.directory d p) (hleaf : h₀.files.isDirectory h₀.directory p = false) :
    Accounts h₀ (h.run (addDirectory l d m)).2 (h.run (addDirectory l d m)).1 p := by
  obtain ⟨ns, hns⟩ := hp.exists_below
  rw [addDirectory, run_bind, run_list_snd]
  cases hlist : (h.run (Host.list d)).1 with
  | error e => exact accounts_skip hns
  | ok listing =>
    dsimp only
    rw [run_bind]
    cases hbroken : listing.broken with
    | some e => exact accounts_skip hns
    | none =>
      obtain ⟨r, hr, hd, -, hnames⟩ := run_list.2 listing hlist
      have hr₀ := (hf.locate_iff hfile).1 hr
      obtain ⟨n, hn, hpn⟩ := (below_iff hr₀ ((hf.within_before hfile).directory hd)).1 hp
      have hmem : n ∈ listing.names := by
        rw [hnames hbroken]
        exact mem_names.2 (hf.within.isSome (mem_names.1 hn))
      exact addEntries_accounts l d listing.short listing.names m h.counted hfile
        (IsTrans.trans _ _ _ hf (.of_steady h.steady_counted rfl)) hmem hpn hleaf
termination_by (pathLimit - d.byteLength, 1, 0)

theorem addEntries_accounts (l : Location) (d : Path) (short : d.byteLength < pathLimit)
    (names : List Name) (m : Manifest) (h : Host)
    (hfile : h₀.files.get? l = some (.file content x)) (hf : Fills l h₀ h) {n : Name}
    (hn : n ∈ names) (hp : p = d.entry n.bytes ∨ Below h₀.files h₀.directory (d.entry n.bytes) p)
    (hleaf : h₀.files.isDirectory h₀.directory p = false) :
    Accounts h₀ (h.run (addEntries l d short names m)).2 (h.run (addEntries l d short names m)).1 p := by
  match names, hn with
  | k :: names, hn =>
    have hlooked : Fills l h₀ h.counted :=
      IsTrans.trans _ _ _ hf (.of_steady h.steady_counted rfl)
    have hinside (hb : Below h₀.files h₀.directory (d.entry k.bytes) p) :=
      addDirectory_accounts l (d.entry k.bytes) m h.counted hfile hlooked hb hleaf
    -- what becomes of the entry at the head stays on record, and the rest is the hypothesis
    have hrest (out : Manifest × Host) (hout : Fills l h.counted out.2)
        (hhead : n = k → Accounts h₀ out.2 out.1 p) :
        Accounts h₀ (out.2.run (addEntries l d short names out.1)).2
          (out.2.run (addEntries l d short names out.1)).1 p := by
      cases List.mem_cons.1 hn with
      | inl hk => exact (hhead hk).later (addEntries_steps (steps_gains l) d short names out.1 out.2)
      | inr hmem =>
        exact addEntries_accounts l d short names out.1 out.2 hfile (IsTrans.trans _ _ _ hlooked hout)
          hmem hp hleaf
    rw [addEntries, run_bind, run_isDirectory_snd]
    cases henter : (h.run (Host.isDirectory (d.entry k.bytes))).1 with
    | true =>
      rw [if_pos rfl, run_bind]
      apply hrest _ (addDirectory_ensures l (d.entry k.bytes) m h.counted).1
      rintro rfl
      cases hp with
      | inl heq =>
        have hdir := isDirectory_of_run henter
        rw [hf.isDirectory_eq hfile, ← heq, hleaf] at hdir
        cases hdir
      | inr hb => exact hinside hb
    | false =>
      rw [if_neg Bool.false_ne_true, run_bind]
      apply hrest _ (write_ensures m h.counted).1
      rintro rfl
      refine accounts_write (hp.imp_right fun hb => ⟨hb, ?_⟩) m
      have hdir := hb.isDirectory
      rw [← hf.isDirectory_eq hfile] at hdir
      obtain ⟨e, hmet⟩ := met_of_isDirectory henter hdir
      exact ⟨e, hmet.mono hf.steady.faults hf.steady.made (Nat.le_refl _)⟩
termination_by (pathLimit - d.byteLength, 0, names.length)
decreasing_by
  · have := Path.byteLength_lt_entry d k.bytes_ne_nil
    exact Prod.Lex.left _ _ (by omega)
  · exact Prod.Lex.right _ (Prod.Lex.right _ (by simp))

end

end

theorem run_addEntries_leaf {names : List Name} (short : d.byteLength < pathLimit)
    (hleaf : (h.run (Host.isDirectory (d.entry n.bytes))).1 = false) :
    h.run (addEntries l d short (n :: names) m) =
      (h.counted.run (write l (d.entry n.bytes) m)).2.run
        (addEntries l d short names (h.counted.run (write l (d.entry n.bytes) m)).1) := by
  rw [addEntries, run_bind, run_isDirectory_snd, hleaf, if_neg Bool.false_ne_true, run_bind]

/-! ## The whole manifest -/

section
variable {root path : Path}

end

end Manifest
end SmaliBuild
