import SmaliBuild.Proofs.Host.Steps
import SmaliBuild.Sweep
/-!
# What a sweep can remove

A sweep goes by the text of its paths while it takes away the entries that those paths lead through.
`Sweep.Reaches` is what a path and the entries below it lead to in one file system, links not
crossed.  A look-up that succeeds in what is left of a file system leads to the same place in the
whole, so all that a sweep removes was within reach at its start (`removeEntry_goes`).
-/
namespace SmaliBuild.Sweep
open FileSystem

/-- What may go when `p` is swept: the entry that `p` names, and what is within reach of the entries
of the directory that `p` leads to. -/
inductive Reaches (fs : FileSystem) (dir : Location) : Path → Location → Prop
  | here {p l} : fs.site? dir p = some l → fs.locate dir false p = .ok l → Reaches fs dir p l
  | inside {p l m} {n : Name} : fs.locate dir false p = .ok l → fs.get? l = some .directory →
      Reaches fs dir (p.entry n.bytes) m → Reaches fs dir p m

variable {fs a b : FileSystem} {dir l m r : Location} {p : Path} {n : Name}

theorem Reaches.mono (hab : a.Within b) (h : Reaches a dir p m) : Reaches b dir p m := by
  induction h with
  | here hs hl => exact .here (site?_mono hab hs) (locate_mono hab hl)
  | inside hl hd _ ih => exact .inside (locate_mono hab hl) (hab.directory hd) ih

/-- A path reaches nothing but what is at or below the place that it leads to. -/
theorem Reaches.located (h : Reaches fs dir p m) :
    ∃ r, fs.locate dir false p = .ok r ∧ r <:+ m := by
  induction h with
  | here _ hl => exact ⟨_, hl, List.suffix_refl _⟩
  | inside hl hd _ ih =>
    obtain ⟨r, hr, hm⟩ := ih
    obtain rfl := eq_cons_of_locate_entry hl hd hr
    exact ⟨_, hl, (List.suffix_cons _ _).trans hm⟩

/-! ## The course of a sweep -/

/-- A sweep that went on from one account and host to another removed nothing outside of `P` and
forgot no error. -/
structure Goes (P : Location → Prop) (s : Sweep) (h : Host) (s' : Sweep) (h' : Host) : Prop where
  steady : h.Steady h'
  trims : Trims P h.files h'.files
  errors : s.errors <+: s'.errors

section
variable {P Q : Location → Prop} {s s' s'' : Sweep} {h h' h'' : Host}

theorem Goes.refl (s : Sweep) (h : Host) : Goes P s h s h := ⟨.refl h, .refl _, List.prefix_refl _⟩

theorem Goes.trans (hx : Goes P s h s' h') (hy : Goes P s' h' s'' h'') : Goes P s h s'' h'' :=
  ⟨hx.steady.trans hy.steady, hx.trims.trans hy.trims, hx.errors.trans hy.errors⟩

theorem Goes.mono (hPQ : ∀ l, P l → Q l) (hx : Goes P s h s' h') : Goes Q s h s' h' :=
  ⟨hx.steady, hx.trims.mono hPQ, hx.errors⟩

theorem Goes.counted (s : Sweep) (h : Host) : Goes P s h s h.counted :=
  ⟨h.steady_counted, .refl _, List.prefix_refl _⟩

/-- Neither a message nor another list of targets makes a difference. -/
theorem Goes.noting {journal : Journal} (hcalls : journal.calls = []) (herrors : s'.errors = s.errors) :
    Goes P s h s' (h.noting journal) :=
  ⟨h.steady_noting hcalls, .refl _, herrors ▸ List.prefix_refl _⟩

theorem Goes.reaches (hx : Goes P s h s' h') (hm : Reaches h'.files h'.directory p m) :
    Reaches h.files h.directory p m := by
  rw [hx.steady.directory] at hm
  exact hm.mono hx.trims.within

theorem goes_fail (s : Sweep) (p : Path) (e : IoError) (h : Host) :
    Goes P s h (h.run (s.fail p e)).1 (h.run (s.fail p e)).2 :=
  ⟨h.steady_log _, .refl _, List.prefix_append _ _⟩

/-- What the answer about a path promises: the entry is gone, or there is an error on record. -/
def Answers (p : Path) : Bool → Host → Sweep → Host → Prop
  | true, h, _, h' => ∃ l, h.files.locate h.directory false p = .ok l ∧ h'.files.get? l = none
  | false, _, s', _ => s'.errors ≠ []

theorem answers_fail (s : Sweep) (p : Path) (e : IoError) (h h' : Host) :
    Answers p false h (h'.run (s.fail p e)).1 (h'.run (s.fail p e)).2 := by
  have herrors : (h'.run (s.fail p e)).1.errors = s.errors ++ [⟨p, e⟩] := rfl
  simp [Answers, herrors]

theorem Answers.earlier {gone : Bool} {s s' s'' : Sweep} {h h' h'' : Host}
    (hx : Goes P s h s' h') (hy : Answers p gone h' s'' h'') : Answers p gone h s'' h'' := by
  cases gone with
  | true =>
    obtain ⟨l, hl, hnone⟩ := hy
    rw [hx.steady.directory] at hl
    exact ⟨l, locate_mono hx.trims.within hl, hnone⟩
  | false => exact hy

theorem goes_settle {x : Host.Action (Except IoError Unit)} (hx : Host.Takes p x) (s : Sweep)
    (h : Host) : Goes (Reaches h.files h.directory p) s h (h.run (x >>= s.settle p)).1.2
        (h.run (x >>= s.settle p)).2 ∧
      Answers p (h.run (x >>= s.settle p)).1.1 h (h.run (x >>= s.settle p)).1.2
        (h.run (x >>= s.settle p)).2 := by
  rw [Host.run_bind]
  rcases hx h with ⟨e, hrun⟩ | ⟨l, hloc, hsite, hleaf, hrun⟩
  · rw [hrun]
    exact ⟨(Goes.counted s h).trans (goes_fail s p e h.counted), answers_fail s p e h h.counted⟩
  · rw [hrun]
    have hl := site?_ne_nil hsite
    refine ⟨⟨h.steady_counted.trans (Host.steady_withFiles _ _), ?_, List.prefix_refl _⟩, l, hloc, ?_⟩
    · exact trims_prune hl hleaf (.here hsite hloc)
    · change (h.files.prune l).get? l = none
      rw [get?_prune hl, if_pos (List.suffix_refl l)]

mutual

theorem removeEntry_goes (p : Path) (s : Sweep) (h : Host) :
    Goes (Reaches h.files h.directory p) s h (h.run (removeEntry p s)).1.2
        (h.run (removeEntry p s)).2 ∧
      Answers p (h.run (removeEntry p s)).1.1 h (h.run (removeEntry p s)).1.2
        (h.run (removeEntry p s)).2 := by
  rw [removeEntry, Host.run_bind, Host.run_lstat_snd]
  have hcounted : Goes (Reaches h.files h.directory p) s h s h.counted := Goes.counted s h
  cases he : (h.run (Host.lstat p)).1 with
  | error e =>
    exact ⟨hcounted.trans (goes_fail s p e h.counted), answers_fail s p e h h.counted⟩
  | ok e =>
    obtain ⟨l, hl, hle⟩ := Host.run_lstat_ok he
    dsimp only
    split
    · next hdir =>
      rw [Entry.isDirectory_iff.1 hdir] at hle
      have htree := removeTree_goes p s h.counted hl hle
      exact ⟨hcounted.trans htree.1, htree.2.earlier hcounted⟩
    · have hsettle := goes_settle (Host.takes_unlink p) s h.counted
      exact ⟨hcounted.trans hsettle.1, hsettle.2.earlier hcounted⟩
termination_by (pathLimit - p.byteLength, 2, 0)

theorem removeTree_goes (d : Path) (s : Sweep) (h : Host) {l : Location}
    (hl : h.files.locate h.directory false d = .ok l) (hd : h.files.get? l = some .directory) :
    Goes (Reaches h.files h.directory d) s h (h.run (removeTree d s)).1.2
        (h.run (removeTree d s)).2 ∧
      Answers d (h.run (removeTree d s)).1.1 h (h.run (removeTree d s)).1.2
        (h.run (removeTree d s)).2 := by
  rw [removeTree, Host.run_bind, Host.run_list_snd]
  cases hlist : (h.run (Host.list d)).1 with
  | error e =>
    exact ⟨(Goes.counted s h).trans (goes_fail s d e h.counted), answers_fail s d e h h.counted⟩
  | ok listing =>
    dsimp only
    rw [Host.run_bind]
    have hentries := (removeEntries_goes d listing.short listing.names s h.counted).mono
      fun m ⟨n, hm⟩ => Reaches.inside hl hd hm
    generalize h.counted.run (removeEntries d listing.short listing.names s) = out at hentries ⊢
    obtain ⟨s₁, h₁⟩ := out
    have hall := (Goes.counted s h).trans hentries
    have hlast {s₂ : Sweep} {h₂ : Host} (hx : Goes (Reaches h.files h.directory d) s h s₂ h₂) :
        Goes (Reaches h.files h.directory d) s h (h₂.run (Host.rmdir d >>= s₂.settle d)).1.2
            (h₂.run (Host.rmdir d >>= s₂.settle d)).2 ∧
          Answers d (h₂.run (Host.rmdir d >>= s₂.settle d)).1.1 h
            (h₂.run (Host.rmdir d >>= s₂.settle d)).1.2
            (h₂.run (Host.rmdir d >>= s₂.settle d)).2 := by
      have hsettle := goes_settle (Host.takes_rmdir d) s₂ h₂
      exact ⟨hx.trans (hsettle.1.mono fun m hm => hx.reaches hm), hsettle.2.earlier hx⟩
    cases listing.broken with
    | none => exact hlast hall
    | some e => exact hlast (hall.trans (goes_fail s₁ d e h₁))
termination_by (pathLimit - d.byteLength, 1, 0)

theorem removeEntries_goes (d : Path) (short : d.byteLength < pathLimit) (names : List Name)
    (s : Sweep) (h : Host) :
    Goes (fun m => ∃ n : Name, Reaches h.files h.directory (d.entry n.bytes) m) s h
      (h.run (removeEntries d short names s)).1 (h.run (removeEntries d short names s)).2 := by
  match names with
  | [] =>
    rw [removeEntries]
    exact Goes.refl s h
  | n :: names =>
    rw [removeEntries, Host.run_bind]
    have hentry := (removeEntry_goes (d.entry n.bytes) s h).1
    have hrest := removeEntries_goes d short names (h.run (removeEntry (d.entry n.bytes) s)).1.2
      (h.run (removeEntry (d.entry n.bytes) s)).2
    exact (hentry.mono fun m hm => ⟨n, hm⟩).trans
      (hrest.mono fun m ⟨k, hm⟩ => ⟨k, hentry.reaches hm⟩)
termination_by (pathLimit - d.byteLength, 0, names.length)
decreasing_by
  · have := Path.byteLength_lt_entry d n.bytes_ne_nil
    exact Prod.Lex.left _ _ (by omega)
  · exact Prod.Lex.right _ (Prod.Lex.right _ (by simp))

end

end

/-! ## Targets -/

section
variable {s s₁ : Sweep} {h h₁ : Host} {x : IoError} {e : Entry} {gone : Bool}

theorem run_removeTarget_missing (s : Sweep) (hlook : (h.run (Host.lstat p)).1 = .error x)
    (habsent : x.isAbsence = true) :
    ∃ journal, journal.calls = [] ∧ h.run (removeTarget p s) = (s, h.counted.noting journal) := by
  rw [removeTarget, Host.run_bind, Host.run_lstat_snd, hlook]
  dsimp only
  rw [if_pos habsent]
  exact ⟨[.log _], rfl, rfl⟩

theorem run_removeTarget_failed (s : Sweep) (hlook : (h.run (Host.lstat p)).1 = .error x)
    (hpresent : ¬ x.isAbsence = true) :
    h.run (removeTarget p s) = h.counted.run (s.fail p x) := by
  rw [removeTarget, Host.run_bind, Host.run_lstat_snd, hlook]
  dsimp only
  rw [if_neg hpresent]

theorem run_removeTarget_found (hlook : (h.run (Host.lstat p)).1 = .ok e)
    (hentry : h.counted.run (removeEntry p s) = ((gone, s₁), h₁)) :
    ∃ journal, journal.calls = [] ∧ h.run (removeTarget p s) =
      ({ s₁ with deleted := if gone then s₁.deleted ++ [p] else s₁.deleted }, h₁.noting journal) := by
  rw [removeTarget, Host.run_bind, Host.run_lstat_snd, hlook]
  dsimp only
  rw [Host.run_bind, hentry]
  cases gone with
  | true => exact ⟨[.log _], rfl, rfl⟩
  | false => exact ⟨[], rfl, by rw [Host.noting_nil]; rfl⟩

theorem run_removeTarget_cases (p : Path) (s : Sweep) (h : Host) :
    (∃ x journal, (h.run (Host.lstat p)).1 = .error x ∧ x.isAbsence = true ∧ journal.calls = [] ∧
        h.run (removeTarget p s) = (s, h.counted.noting journal)) ∨
      (∃ x, (h.run (Host.lstat p)).1 = .error x ∧ ¬ x.isAbsence = true ∧
        h.run (removeTarget p s) = h.counted.run (s.fail p x)) ∨
      ∃ e gone s₁ h₁ journal, (h.run (Host.lstat p)).1 = .ok e ∧
        h.counted.run (removeEntry p s) = ((gone, s₁), h₁) ∧ journal.calls = [] ∧
        h.run (removeTarget p s) =
          ({ s₁ with deleted := if gone then s₁.deleted ++ [p] else s₁.deleted }, h₁.noting journal) := by
  cases hlook : (h.run (Host.lstat p)).1 with
  | error x =>
    by_cases habsent : x.isAbsence = true
    · obtain ⟨journal, hcalls, hrun⟩ := run_removeTarget_missing s hlook habsent
      exact Or.inl ⟨x, journal, rfl, habsent, hcalls, hrun⟩
    · exact Or.inr (Or.inl ⟨x, rfl, habsent, run_removeTarget_failed s hlook habsent⟩)
  | ok e =>
    obtain ⟨journal, hcalls, hrun⟩ := run_removeTarget_found (s := s) hlook rfl
    exact Or.inr (Or.inr ⟨e, _, _, _, journal, rfl, rfl, hcalls, hrun⟩)

end

theorem removeTarget_goes (p : Path) (s : Sweep) (h : Host) :
    Goes (Reaches h.files h.directory p) s h (h.run (removeTarget p s)).1
      (h.run (removeTarget p s)).2 := by
  rcases run_removeTarget_cases p s h with ⟨x, journal, -, -, hcalls, hrun⟩ | ⟨x, -, -, hrun⟩ |
    ⟨e, gone, s₁, h₁, journal, -, hentry, hcalls, hrun⟩
  · rw [hrun]
    exact (Goes.counted s h).trans (.noting hcalls rfl)
  · rw [hrun]
    exact (Goes.counted s h).trans (goes_fail s p x h.counted)
  · have hgoes := (Goes.counted s h).trans (removeEntry_goes p s h.counted).1
    rw [hentry] at hgoes
    rw [hrun]
    exact hgoes.trans (.noting hcalls rfl)

theorem removeTargets_goes (ps : List Path) (s : Sweep) (h : Host) :
    Goes (fun m => ∃ q ∈ ps, Reaches h.files h.directory q m) s h (h.run (removeTargets ps s)).1
      (h.run (removeTargets ps s)).2 := by
  induction ps generalizing s h with
  | nil => exact Goes.refl s h
  | cons p ps ih =>
    rw [removeTargets, Host.run_bind]
    have hfirst := removeTarget_goes p s h
    have hrest := ih (h.run (removeTarget p s)).1 (h.run (removeTarget p s)).2
    exact (hfirst.mono fun m hm => ⟨p, by simp, hm⟩).trans
      (hrest.mono fun m ⟨q, hq, hm⟩ => ⟨q, List.mem_cons_of_mem p hq, hfirst.reaches hm⟩)

theorem removeTargets_append (ps qs : List Path) (s : Sweep) :
    removeTargets (ps ++ qs) s = removeTargets ps s >>= removeTargets qs := by
  induction ps generalizing s with
  | nil => rfl
  | cons p ps ih =>
    rw [List.cons_append, removeTargets, removeTargets, bind_assoc]
    congr 1
    funext s'
    exact ih s'

/-- In a sweep each target has its turn. -/
theorem exists_turn {ps : List Path} (s : Sweep) (h : Host) (hp : p ∈ ps) : ∃ s₁ h₁,
    Goes (fun m => ∃ q ∈ ps, Reaches h.files h.directory q m) s h s₁ h₁ ∧
      Goes (fun _ => True) (h₁.run (removeTarget p s₁)).1 (h₁.run (removeTarget p s₁)).2
        (h.run (removeTargets ps s)).1 (h.run (removeTargets ps s)).2 := by
  obtain ⟨before, after, rfl⟩ := List.append_of_mem hp
  rw [removeTargets_append, Host.run_bind, removeTargets, Host.run_bind]
  refine ⟨_, _, (removeTargets_goes before s h).mono fun m ⟨q, hq, hm⟩ => ?_,
    (removeTargets_goes after _ _).mono fun _ _ => trivial⟩
  exact ⟨q, List.mem_append_left _ hq, hm⟩

theorem run_goes (w : Workspace) (compiled : Path) (h : Host) :
    Goes (fun m => ∃ q ∈ w.artifacts compiled, Reaches h.files h.directory q m) empty h
      (h.run (run w compiled)).1 (h.run (run w compiled)).2 :=
  removeTargets_goes _ _ _

end SmaliBuild.Sweep
