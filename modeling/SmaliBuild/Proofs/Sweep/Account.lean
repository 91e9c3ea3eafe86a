import SmaliBuild.Proofs.Sweep.Frame
/-!
# The account that a sweep gives

Whatever calls fail, the number of entries removed and the number of those left add up to what was
there at the start, and each entry left below a target has an error on record that accounts for it:
its own, or one of an enclosing directory that could not be looked into.  The induction is on the
calls of the sweep; `Sweep.Explains` is carried from an entry to its directory by putting the entry's
name behind the names (`Explains.entry`).  A target is passed over without an error where its path
has come to lead nowhere, which the sweep itself can bring about by removing what the path leads
through.
-/
namespace SmaliBuild.Host
variable {h h' h'' : Host} {p : Path} {x : IoError}

/-- Between the two hosts a call met trouble with this error. -/
def Met (h h' : Host) (x : IoError) : Prop :=
  ∃ i fault, h.made ≤ i ∧ i < h'.made ∧ h.faults i = some fault ∧ fault.error = x

theorem Met.mono {k k' : Host} (hx : Met k k' x) (hfaults : k.faults = h.faults)
    (hfirst : h.made ≤ k.made) (hlast : k'.made ≤ h'.made) : Met h h' x := by
  obtain ⟨i, fault, hi, hi', hf, he⟩ := hx
  exact ⟨i, fault, hfirst.trans hi, hi'.trans_le hlast, hfaults ▸ hf, he⟩

theorem met_of_faults {fault : Fault} (hf : h.faults h.made = some fault) :
    Met h h.counted fault.error :=
  ⟨h.made, fault, Nat.le_refl _, Nat.lt_succ_self _, hf, rfl⟩

theorem met_of_lstat (hx : (h.run (lstat p)).1 = .error x) :
    Met h h.counted x ∨ ∀ l, h.files.locate h.directory false p ≠ .ok l := by
  cases hf : h.faults h.made with
  | some fault =>
    rw [lstat, run_look, hf] at hx
    obtain rfl := Except.error.inj hx
    exact Or.inl (met_of_faults hf)
  | none =>
    rw [run_lstat_fst hf] at hx
    exact Or.inr (FileSystem.locate_error_of_lstat hx)

theorem met_of_list {l : Location} (hl : h.files.locate h.directory false p = .ok l)
    (hd : h.files.get? l = some .directory) :
    (∀ x, (h.run (list p)).1 = .error x → Met h h.counted x) ∧
      ∀ listing x, (h.run (list p)).1 = .ok listing → listing.broken = some x →
        Met h h.counted x := by
  have hok := FileSystem.list_eq_ok_iff.2 ⟨l, FileSystem.locate_following hl hd, hd, rfl⟩
  rw [list, run_bind, run_trouble, run_bind, run_get]
  dsimp only [files_counted, directory_counted]
  split
  · next e he =>
    rw [hok] at he
    cases he
  · cases hf : h.faults h.made with
    | none =>
      refine ⟨fun x hx => ?_, fun listing x hx hbroken => ?_⟩
      · cases hx
      · obtain rfl := Except.ok.inj hx
        cases hbroken
    | some fault =>
      have hmet := met_of_faults hf
      obtain ⟨e, progress, present⟩ := fault
      cases progress with
      | none =>
        refine ⟨fun x hx => ?_, fun listing x hx => ?_⟩
        · exact Except.error.inj hx ▸ hmet
        · cases hx
      | some n =>
        refine ⟨fun x hx => ?_, fun listing x hx hbroken => ?_⟩
        · cases hx
        · obtain rfl := Except.ok.inj hx
          exact Option.some.inj hbroken ▸ hmet

end SmaliBuild.Host

namespace SmaliBuild.Sweep
open FileSystem
variable {fs a b base : FileSystem} {dir l m r : Location} {p d : Path} {n : Name}
variable {h h' h'' : Host} {s s' s'' : Sweep} {errors errors' : List Setback} {ns : List Name}

/-! ## Errors that account for an entry -/

/-- An error on record accounts for the entry that the names `ns` lead to from the place of `p`: it
is about that entry, or about a directory around it that could not be looked into. -/
def Explains (h h' : Host) (errors : List Setback) (p : Path) (ns : List Name) : Prop :=
  ∃ x ∈ errors, ∃ inner outer, ns = inner ++ outer ∧ x.path = p.below outer ∧
    (inner = [] ∨ h.Met h' x.cause ∨ ∀ l, h'.files.locate h'.directory false x.path ≠ .ok l)

theorem Explains.own {x : Setback} (hx : x ∈ errors) (hpath : x.path = p.below ns) :
    Explains h h' errors p ns :=
  ⟨x, hx, [], ns, rfl, hpath, Or.inl rfl⟩

/-- An error about the directory `p` itself that kept the sweep from looking into it. -/
theorem Explains.closed {x : IoError} (hx : ⟨p, x⟩ ∈ errors)
    (hcause : h.Met h' x ∨ ∀ l, h'.files.locate h'.directory false p ≠ .ok l) :
    Explains h h' errors p ns :=
  ⟨⟨p, x⟩, hx, ns, [], (List.append_nil ns).symm, rfl, Or.inr hcause⟩

/-- What accounts for an entry of a directory, seen from the directory. -/
theorem Explains.entry (hx : Explains h h' errors (p.entry n.bytes) ns) :
    Explains h h' errors p (ns ++ [n]) := by
  obtain ⟨x, hmem, inner, outer, rfl, hpath, hcause⟩ := hx
  refine ⟨x, hmem, inner, outer ++ [n], List.append_assoc _ _ _, ?_, hcause⟩
  rw [hpath, Path.below_concat]

theorem Explains.later {P Q : Location → Prop} {h₁ h₂ : Host} {s₁ s₂ : Sweep}
    (hbefore : Goes P s h s₁ h₁) (hx : Explains h₁ h₂ s₂.errors p ns)
    (hafter : Goes Q s₂ h₂ s' h') : Explains h h' s'.errors p ns := by
  obtain ⟨x, hmem, inner, outer, hns, hpath, hcause⟩ := hx
  refine ⟨x, hafter.errors.subset hmem, inner, outer, hns, hpath, hcause.imp_right fun hcause => ?_⟩
  rcases hcause with hmet | hnowhere
  · exact Or.inl (hmet.mono hbefore.steady.faults hbefore.steady.made hafter.steady.made)
  · refine Or.inr fun l hl => hnowhere l ?_
    rw [hafter.steady.directory] at hl
    exact locate_mono hafter.trims.within hl

/-! ## The course of a sweep -/

/-- A part of a sweep counts the entries that go, and leaves the list of targets alone. -/
structure Tallies (s : Sweep) (h : Host) (s' : Sweep) (h' : Host) : Prop where
  deleted : s'.deleted = s.deleted
  count : s'.removed + h'.files.entries.length = s.removed + h.files.entries.length

theorem Tallies.refl (s : Sweep) (h : Host) : Tallies s h s h := ⟨rfl, rfl⟩

theorem Tallies.trans (hx : Tallies s h s' h') (hy : Tallies s' h' s'' h'') :
    Tallies s h s'' h'' :=
  ⟨hy.deleted.trans hx.deleted, hy.count.trans hx.count⟩

theorem tallies_counted (s : Sweep) (h : Host) : Tallies s h s h.counted := ⟨rfl, rfl⟩

theorem tallies_fail (s : Sweep) (p : Path) (x : IoError) (h : Host) :
    Tallies s h (h.run (s.fail p x)).1 (h.run (s.fail p x)).2 := ⟨rfl, rfl⟩

theorem mem_errors_fail (s : Sweep) (p : Path) (x : IoError) (h : Host) :
    ⟨p, x⟩ ∈ (h.run (s.fail p x)).1.errors :=
  List.mem_append_right _ (List.mem_singleton.2 rfl)

theorem explains_fail {x : IoError}
    (hcause : h.Met h' x ∨ ∀ l, h'.files.locate h'.directory false p ≠ .ok l) :
    Explains h (h'.run (s.fail p x)).2 (h'.run (s.fail p x)).1.errors p ns :=
  .closed (mem_errors_fail s p x h') hcause

/-- The entry at `r` that a call was to take away is gone and counted, or there is an error about
it. -/
theorem tallies_settle {x : Host.Action (Except IoError Unit)} (hx : Host.Takes p x) (s : Sweep)
    (hp : ∀ l, h.files.locate h.directory false p = .ok l → l = r) :
    Tallies s h (h.run (x >>= s.settle p)).1.2 (h.run (x >>= s.settle p)).2 ∧
      ((∃ e, ⟨p, e⟩ ∈ (h.run (x >>= s.settle p)).1.2.errors) ∨
        (h.run (x >>= s.settle p)).2.files.get? r = none) := by
  rw [Host.run_bind]
  rcases hx h with ⟨e, hrun⟩ | ⟨l, hloc, hsite, hleaf, hrun⟩
  · rw [hrun]
    have herror := mem_errors_fail s p e h.counted
    exact ⟨(tallies_counted s h).trans (tallies_fail s p e h.counted), Or.inl ⟨e, herror⟩⟩
  · obtain rfl := hp l hloc
    obtain ⟨e, he⟩ := Option.isSome_iff_exists.1 (isSome_of_locate hloc)
    have hl := site?_ne_nil hsite
    have hlength := length_prune_leaf hl he hleaf
    have hgone : (h.files.prune l).get? l = none := by
      rw [get?_prune hl, if_pos (List.suffix_refl l)]
    rw [hrun]
    refine ⟨⟨rfl, ?_⟩, Or.inr hgone⟩
    change s.removed + 1 + (h.files.prune l).entries.length = _
    omega

/-- A directory is removed last.  If errors account for what is left in it, they do so afterwards, for
the directory too. -/
theorem accounts_rmdir {P : Location → Prop} (hgoes : Goes P s h s' h')
    (htallies : Tallies s h s' h') (hr : h.files.locate h.directory false d = .ok r)
    (hinside : ∀ n ns e, h'.files.get? (ns ++ n :: r) = some e →
      Explains h h' s'.errors d (ns ++ [n])) :
    Tallies s h (h'.run (Host.rmdir d >>= s'.settle d)).1.2
        (h'.run (Host.rmdir d >>= s'.settle d)).2 ∧
      ∀ ns e, (h'.run (Host.rmdir d >>= s'.settle d)).2.files.get? (ns ++ r) = some e →
        Explains h (h'.run (Host.rmdir d >>= s'.settle d)).2
          (h'.run (Host.rmdir d >>= s'.settle d)).1.2.errors d ns := by
  have hd : ∀ l, h'.files.locate h'.directory false d = .ok l → l = r := by
    intro l hl
    rw [hgoes.steady.directory] at hl
    exact Except.ok.inj ((locate_mono hgoes.trims.within hl).symm.trans hr)
  have hlast := (goes_settle (Host.takes_rmdir d) s' h').1
  obtain ⟨hcount, hsettled⟩ := tallies_settle (Host.takes_rmdir d) s' hd
  refine ⟨htallies.trans hcount, fun ns e he => ?_⟩
  rcases hsettled with ⟨x, hx⟩ | hgone
  · rcases List.eq_nil_or_concat ns with rfl | ⟨ns, n, rfl⟩
    · exact Explains.own hx rfl
    · rw [List.concat_eq_append] at he ⊢
      have hbefore := hlast.trims.eq_of_some he
      rw [List.append_assoc] at hbefore
      exact (hinside n ns e hbefore).later (Goes.refl (P := P) s h) hlast
  · rw [get?_eq_none_of_suffix (List.suffix_append ns r) hgone] at he
    cases he

mutual

/-- Sweeping the entry at `r` counts what it removes, and an error accounts for each entry at or
below `r` that it leaves. -/
theorem removeEntry_accounts (p : Path) (s : Sweep) (h : Host) {r : Location}
    (hp : ∀ l, h.files.locate h.directory false p = .ok l → l = r) :
    Tallies s h (h.run (removeEntry p s)).1.2 (h.run (removeEntry p s)).2 ∧
      ∀ ns e, (h.run (removeEntry p s)).2.files.get? (ns ++ r) = some e →
        Explains h (h.run (removeEntry p s)).2 (h.run (removeEntry p s)).1.2.errors p ns := by
  have hcounted : Goes (fun _ => False) s h s h.counted := Goes.counted s h
  rw [removeEntry, Host.run_bind, Host.run_lstat_snd]
  cases hlook : (h.run (Host.lstat p)).1 with
  | error x =>
    exact ⟨(tallies_counted s h).trans (tallies_fail s p x h.counted), fun ns e _ =>
      explains_fail (Host.met_of_lstat hlook)⟩
  | ok e =>
    obtain ⟨l, hl, hle⟩ := Host.run_lstat_ok hlook
    obtain rfl := hp l hl
    dsimp only
    split
    · next hdir =>
      rw [Entry.isDirectory_iff.1 hdir] at hle
      have htree := removeTree_accounts p s h.counted hl hle
      refine ⟨(tallies_counted s h).trans htree.1, fun ns e' he' => ?_⟩
      exact (htree.2 ns e' he').later hcounted (Goes.refl (P := fun _ => False) _ _)
    · next hdir =>
      have hgoes := (goes_settle (Host.takes_unlink p) s h.counted).1
      obtain ⟨htallies, hsettled⟩ := tallies_settle (Host.takes_unlink p) s (h := h.counted) hp
      refine ⟨(tallies_counted s h).trans htallies, fun ns e' he' => ?_⟩
      rcases hsettled with ⟨x, hx⟩ | hgone
      · -- below an entry that is no directory there is nothing
        have hns : ns = [] := by
          refine Classical.byContradiction fun hne => hdir (Entry.isDirectory_iff.2 ?_)
          have hbelow := get?_of_suffix (List.suffix_append ns l) (by simpa using hne)
            (hgoes.trims.eq_of_some he')
          exact Option.some.inj (hle.symm.trans hbelow)
        subst hns
        exact Explains.own hx rfl
      · rw [get?_eq_none_of_suffix (List.suffix_append ns l) hgone] at he'
        cases he'
termination_by (pathLimit - p.byteLength, 2, 0)

theorem removeTree_accounts (d : Path) (s : Sweep) (h : Host) {r : Location}
    (hr : h.files.locate h.directory false d = .ok r) (hd : h.files.get? r = some .directory) :
    Tallies s h (h.run (removeTree d s)).1.2 (h.run (removeTree d s)).2 ∧
      ∀ ns e, (h.run (removeTree d s)).2.files.get? (ns ++ r) = some e →
        Explains h (h.run (removeTree d s)).2 (h.run (removeTree d s)).1.2.errors d ns := by
  have hcounted : Goes (fun _ => False) s h s h.counted := Goes.counted s h
  have hmet := Host.met_of_list hr hd
  rw [removeTree, Host.run_bind, Host.run_list_snd]
  cases hlist : (h.run (Host.list d)).1 with
  | error x =>
    exact ⟨(tallies_counted s h).trans (tallies_fail s d x h.counted), fun ns e _ =>
      explains_fail (Or.inl (hmet.1 x hlist))⟩
  | ok listing =>
    obtain ⟨l, hl, -, -, hwhole⟩ := Host.run_list.2 listing hlist
    obtain rfl := Except.ok.inj ((locate_following hr hd).symm.trans hl)
    dsimp only
    rw [Host.run_bind]
    have hgoes := (removeEntries_goes d listing.short listing.names s h.counted).mono
      fun m ⟨n, hm⟩ => Reaches.inside hr hd hm
    have hentries := removeEntries_accounts d listing.short listing.names s h.counted
      (Within.refl h.files) hr hd
    generalize h.counted.run (removeEntries d listing.short listing.names s) = out
      at hgoes hentries ⊢
    obtain ⟨s₁, h₁⟩ := out
    have hall := hcounted.mono (fun _ => False.elim) |>.trans hgoes
    have htallies := (tallies_counted s h).trans hentries.1
    cases hbroken : listing.broken with
    | none =>
      refine accounts_rmdir hall htallies hr fun n ns e he => ?_
      have hn : n ∈ listing.names := by
        rw [hwhole hbroken, mem_names]
        have hbefore := hall.trims.eq_of_some he
        rw [Option.isSome_iff_ne_none]
        intro hnone
        cases (get?_eq_none_of_suffix (List.suffix_append ns (n :: r)) hnone).symm.trans hbefore
      exact ((hentries.2 n hn ns e he).later hcounted (Goes.refl (P := fun _ => False) _ _)).entry
    | some x =>
      have hfail := goes_fail (P := Reaches h.files h.directory d) s₁ d x h₁
      refine accounts_rmdir (hall.trans hfail) (htallies.trans (tallies_fail s₁ d x h₁)) hr
        fun n ns e he => ?_
      -- the reading broke off, which accounts for all that is left in the directory
      have hcause := (hmet.2 listing x hlist hbroken).mono rfl (Nat.le_refl _) hgoes.steady.made
      exact explains_fail (Or.inl hcause)
termination_by (pathLimit - d.byteLength, 1, 0)

theorem removeEntries_accounts (d : Path) (short : d.byteLength < pathLimit) (names : List Name)
    (s : Sweep) (h : Host) {base : FileSystem} {r : Location} (hwithin : h.files.Within base)
    (hr : base.locate h.directory false d = .ok r) (hd : base.get? r = some .directory) :
    Tallies s h (h.run (removeEntries d short names s)).1
        (h.run (removeEntries d short names s)).2 ∧
      ∀ n ∈ names, ∀ ns e,
        (h.run (removeEntries d short names s)).2.files.get? (ns ++ n :: r) = some e →
          Explains h (h.run (removeEntries d short names s)).2
            (h.run (removeEntries d short names s)).1.errors (d.entry n.bytes) ns := by
  match names with
  | [] =>
    rw [removeEntries]
    exact ⟨Tallies.refl s h, fun n hn => nomatch hn⟩
  | n :: names =>
    rw [removeEntries, Host.run_bind]
    have hgoes := (removeEntry_goes (d.entry n.bytes) s h).1
    have hentry := removeEntry_accounts (d.entry n.bytes) s h (r := n :: r) fun l hl =>
      eq_cons_of_locate_entry hr hd (locate_mono hwithin hl)
    generalize h.run (removeEntry (d.entry n.bytes) s) = out at hgoes hentry ⊢
    obtain ⟨⟨gone, s₁⟩, h₁⟩ := out
    have hgoes' := removeEntries_goes d short names s₁ h₁
    have hrest := removeEntries_accounts d short names s₁ h₁
      (hgoes.trims.within.trans hwithin) (hgoes.steady.directory ▸ hr) hd
    refine ⟨hentry.1.trans hrest.1, fun k hk ns e he => ?_⟩
    rcases List.mem_cons.1 hk with rfl | hk
    · have hbefore := hgoes'.trims.eq_of_some he
      exact (hentry.2 ns e hbefore).later (Goes.refl (P := fun _ => False) s h) hgoes'
    · exact (hrest.2 k hk ns e he).later hgoes (Goes.refl (P := fun _ => False) _ _)
termination_by (pathLimit - d.byteLength, 0, names.length)
decreasing_by
  · have := Path.byteLength_lt_entry d n.bytes_ne_nil
    exact Prod.Lex.left _ _ (by omega)
  · exact Prod.Lex.right _ (Prod.Lex.right _ (by simp))

end

/-! ## Targets -/

theorem removeTarget_cases (p : Path) (s : Sweep) (h : Host) :
    h.files.lstat h.directory p = .error (.os .noEntry) ∧ (h.run (removeTarget p s)).1 = s ∨
      (h.run (removeTarget p s)).1.deleted = s.deleted ∧
        (h.run (removeTarget p s)).1.errors ≠ [] ∨
      (h.run (removeTarget p s)).1.deleted = s.deleted ++ [p] ∧
        ∃ l, h.files.locate h.directory false p = .ok l ∧
          (h.run (removeTarget p s)).2.files.get? l = none := by
  rcases run_removeTarget_cases p s h with ⟨x, journal, hlook, habsent, -, hrun⟩ |
    ⟨x, -, -, hrun⟩ | ⟨e, gone, s₁, h₁, journal, hlook, hentry, -, hrun⟩
  · exact Or.inl ⟨Host.run_lstat_absent hlook habsent, by rw [hrun]⟩
  · rw [hrun]
    exact Or.inr (Or.inl ⟨rfl, answers_fail s p x h h.counted⟩)
  · obtain ⟨l, hl, -⟩ := Host.run_lstat_ok hlook
    have hanswers := (removeEntry_goes p s h.counted).2
    have hdeleted := (removeEntry_accounts p s h.counted (r := l) fun k hk =>
      Except.ok.inj (hk.symm.trans hl)).1.deleted
    rw [hentry] at hanswers hdeleted
    rw [hrun]
    cases gone with
    | false => exact Or.inr (Or.inl ⟨hdeleted, hanswers⟩)
    | true => exact Or.inr (Or.inr ⟨congrArg (· ++ [p]) hdeleted, hanswers⟩)

/-- Sweeping the target at `r` counts what it removes, and an error accounts for each entry at or
below `r` that it leaves, unless the target's path leads nowhere. -/
theorem removeTarget_accounts (p : Path) (s : Sweep) (h : Host)
    (hp : ∀ l, h.files.locate h.directory false p = .ok l → l = r) :
    (h.run (removeTarget p s)).1.removed + (h.run (removeTarget p s)).2.files.entries.length =
        s.removed + h.files.entries.length ∧
      ∀ ns e, (h.run (removeTarget p s)).2.files.get? (ns ++ r) = some e →
        Explains h (h.run (removeTarget p s)).2 (h.run (removeTarget p s)).1.errors p ns ∨
          h.files.lstat h.directory p = .error (.os .noEntry) := by
  rcases run_removeTarget_cases p s h with ⟨x, journal, hlook, habsent, -, hrun⟩ |
    ⟨x, hlook, -, hrun⟩ | ⟨e, gone, s₁, h₁, journal, -, hentry, hcalls, hrun⟩
  · rw [hrun]
    exact ⟨rfl, fun ns e _ => Or.inr (Host.run_lstat_absent hlook habsent)⟩
  · rw [hrun]
    exact ⟨rfl, fun ns e _ => Or.inl (explains_fail (Host.met_of_lstat hlook))⟩
  · have haccounts := removeEntry_accounts p s h.counted hp
    rw [hentry] at haccounts
    rw [hrun]
    refine ⟨haccounts.1.count, fun ns e he => Or.inl ?_⟩
    exact (haccounts.2 ns e he).later (Goes.counted (P := fun _ => False) s h)
      (Goes.noting (P := fun _ => False) hcalls rfl)

theorem deleted_removeTargets (ps : List Path) (s : Sweep) (h : Host)
    (hp : p ∈ (h.run (removeTargets ps s)).1.deleted) :
    p ∈ s.deleted ∨ p ∈ ps ∧ ∃ l, h.files.locate h.directory false p = .ok l ∧
      (h.run (removeTargets ps s)).2.files.get? l = none := by
  induction ps generalizing s h with
  | nil => exact Or.inl hp
  | cons q ps ih =>
    rw [removeTargets, Host.run_bind] at hp ⊢
    have hfirst := removeTarget_goes q s h
    have hrest := removeTargets_goes ps (h.run (removeTarget q s)).1 (h.run (removeTarget q s)).2
    rcases ih _ _ hp with hbefore | ⟨hmem, l, hl, hgone⟩
    · rcases removeTarget_cases q s h with ⟨-, heq⟩ | ⟨heq, -⟩ | ⟨heq, l, hl, hgone⟩
      · exact Or.inl (heq ▸ hbefore)
      · exact Or.inl (heq ▸ hbefore)
      · rw [heq, List.mem_append, List.mem_singleton] at hbefore
        rcases hbefore with hbefore | rfl
        · exact Or.inl hbefore
        · exact Or.inr ⟨List.mem_cons_self, l, hl, hrest.trims.none hgone⟩
    · rw [hfirst.steady.directory] at hl
      exact Or.inr ⟨List.mem_cons_of_mem q hmem, l, locate_mono hfirst.trims.within hl, hgone⟩

theorem count_removeTargets (ps : List Path) (s : Sweep) (h : Host) :
    (h.run (removeTargets ps s)).1.removed + (h.run (removeTargets ps s)).2.files.entries.length =
      s.removed + h.files.entries.length := by
  induction ps generalizing s h with
  | nil => rfl
  | cons p ps ih =>
    rw [removeTargets, Host.run_bind, ih]
    cases hl : h.files.locate h.directory false p with
    | error x =>
      exact (removeTarget_accounts (r := []) p s h fun k hk => by cases hl.symm.trans hk).1
    | ok l => exact (removeTarget_accounts p s h fun k hk => Except.ok.inj (hk.symm.trans hl)).1

/-- `s` is a true account of how a sweep of the targets `ps` came from one host to another. -/
structure Truthful (ps : List Path) (h : Host) (s : Sweep) (h' : Host) : Prop where
  /-- The targets said to be gone are gone, and so is what they led to. -/
  deleted : ∀ p ∈ s.deleted, p ∈ ps ∧ (∀ e, h'.files.lstat h'.directory p ≠ .ok e) ∧
    ∃ l, h.files.locate h.directory false p = .ok l ∧ h'.files.get? l = none
  /-- The number is that of the entries that were there before and are not there now. -/
  removed : s.removed = h.files.entries.countP fun x => (h'.files.get? x.1).isNone
  /-- What is left at or below a target has an error to account for it, unless the path of the
  target led nowhere once the targets before it had been swept. -/
  left : ∀ before p after, ps = before ++ p :: after →
    ∀ r, h.files.locate h.directory false p = .ok r →
      ∀ ns e, h'.files.get? (ns ++ r) = some e → Explains h h' s.errors p ns ∨
        (h.run (removeTargets before empty)).2.files.lstat h.directory p = .error (.os .noEntry)

/-- Whatever calls fail, a sweep gives a true account of itself. -/
theorem run_truthful (w : Workspace) (compiled : Path) (h : Host) :
    Truthful (w.artifacts compiled) h (h.run (run w compiled)).1 (h.run (run w compiled)).2 := by
  have hall := run_goes w compiled h
  refine ⟨fun p hp => ?_, ?_, fun before p after hps r hr ns e he => ?_⟩
  · rcases deleted_removeTargets (w.artifacts compiled) empty h hp with hnil | ⟨hmem, l, hl, hgone⟩
    · cases hnil
    · refine ⟨hmem, fun e he => ?_, l, hl, hgone⟩
      obtain ⟨k, hk, hke⟩ := lstat_eq_ok_iff.1 he
      rw [hall.steady.directory] at hk
      obtain rfl := Except.ok.inj ((locate_mono hall.trims.within hk).symm.trans hl)
      cases (hke.symm.trans hgone)
  · have hcount := count_removeTargets (w.artifacts compiled) empty h
    have hgone := hall.trims.countP_isNone
    rw [← run, show empty.removed = 0 from rfl] at hcount
    omega
  · rw [run, hps, removeTargets_append, Host.run_bind, removeTargets, Host.run_bind] at he ⊢
    have hbefore := removeTargets_goes before empty h
    generalize h.run (removeTargets before empty) = turn at hbefore he ⊢
    obtain ⟨s₁, h₁⟩ := turn
    have hafter := removeTargets_goes after (h₁.run (removeTarget p s₁)).1
      (h₁.run (removeTarget p s₁)).2
    have htarget := (removeTarget_accounts (r := r) p s₁ h₁ fun l hl => by
      rw [hbefore.steady.directory] at hl
      exact Except.ok.inj ((locate_mono hbefore.trims.within hl).symm.trans hr)).2 ns e
        (hafter.trims.eq_of_some he)
    rw [hbefore.steady.directory] at htarget
    exact htarget.imp_left fun hx => hx.later hbefore hafter

theorem isProperName_bundleName : isProperName (.ofString bundleName) = true := by decide

theorem isProperName_manifestName : isProperName (.ofString manifestName) = true := by decide

def crossedBundle : Name := ⟨.ofString bundleName, isProperName_bundleName⟩

def crossedManifest : Name := ⟨.ofString manifestName, isProperName_manifestName⟩

def crossedDirectory : Name := ⟨.ofString "others", by decide⟩

/-- A directory, a bundle, and a link to the directory under the name of a manifest. -/
def crossedFiles : FileSystem :=
  .flat [(crossedDirectory, .directory), (crossedBundle, .file [] false),
    (crossedManifest, .link ⟨crossedDirectory.bytes⟩)] (by decide)

def crossedRoot : Path := .ofString "/FilesList.txt/.."

/-- Removing a target may cut off the path of the next one, which is then passed over without an
error while its entry is still there. -/
theorem run_passes_over :
    let h := Host.sound crossedFiles []
    let w := Workspace.inDirectory crossedRoot
    let out := h.run (run w (.ofString "/A.class"))
    h.files.locate h.directory false w.bundle = .ok [crossedBundle] ∧
      out.2.files.get? [crossedBundle] = some (.file [] false) ∧
      out.1.deleted = [w.manifest] ∧ out.1.removed = 1 ∧ out.1.errors = [] := by
  refine ⟨?_, ?_, ?_, ?_, ?_⟩
  · cbv
  · cbv
  · cbv
  · cbv
  · cbv

end SmaliBuild.Sweep
