import Mathlib
import SmaliBuild.Files.Calls
/-!
# What the operations do to the table

Each operation on a file system is described by what it does to `get?`, the entry at a location;
after that the table behind it is not looked at again.  Three relations compare two file systems:
`Within` (every entry of one stands in the other, a file perhaps with other content), `Trims` (one
is the other less some entries of a region) and `SameAt` (the same entries in a region).
-/
namespace SmaliBuild

namespace Entry

/-- The entry without the content of a file: what a look-up can tell of it. -/
def outline : Entry → Entry
  | .file _ _ => .file [] false
  | e => e

theorem outline_eq_directory {e : Entry} : e.outline = .directory ↔ e = .directory := by
  cases e <;> simp [outline]

theorem outline_eq_link {e : Entry} {p : Path} : e.outline = .link p ↔ e = .link p := by
  cases e <;> simp [outline]

theorem isDirectory_iff {e : Entry} : e.isDirectory = true ↔ e = .directory := by
  cases e <;> simp [isDirectory]

end Entry

theorem Location.isAtOrBelow_iff {d l : Location} : d.isAtOrBelow l = true ↔ d <:+ l :=
  List.isSuffixOf_iff_suffix

namespace FileSystem
variable {fs a b c : FileSystem} {l m d : Location} {n : Name} {e : Entry}

/-- The file system with these entries in its root and nothing else. -/
def flat (entries : List (Name × Entry)) (unique : (entries.map (·.1)).Nodup) : FileSystem where
  entries := entries.map fun x => ([x.1], x.2)
  unique := by
    have hcomp : (entries.map fun x : Name × Entry => (([x.1] : Location), x.2)).map (·.1) =
        (entries.map (·.1)).map fun n => [n] := by simp
    rw [hcomp]
    exact List.Pairwise.map _ (fun _ _ hne heq => hne (List.cons.inj heq).1) unique
  rooted := by
    intro x hx
    obtain ⟨y, _, rfl⟩ := List.mem_map.1 hx
    exact ⟨y.1, [], rfl, Or.inl rfl⟩

/-! ## The operations -/

theorem get?_eq_of_mem_iff
    (h : ∀ e, (l, e) ∈ b.entries ↔ (l, e) ∈ a.entries) : b.get? l = a.get? l := by
  apply Option.ext
  intro e
  rw [get?_eq_some_iff, get?_eq_some_iff, h]

theorem get?_flat_eq_some_iff {entries : List (Name × Entry)}
    {unique : (entries.map (·.1)).Nodup} : (flat entries unique).get? l = some e ↔
      (l = [] ∧ e = .directory) ∨ ∃ n, (n, e) ∈ entries ∧ l = [n] := by
  rw [get?_eq_some_iff]
  refine or_congr_right ?_
  simp only [flat, List.mem_map, Prod.mk.injEq, Prod.exists]
  constructor
  · rintro ⟨n, e', hmem, rfl, rfl⟩
    exact ⟨n, hmem, rfl⟩
  · rintro ⟨n, hmem, rfl⟩
    exact ⟨n, e, hmem, rfl, rfl⟩

theorem mem_entries_of_get? (hl : l ≠ []) (h : fs.get? l = some e) : (l, e) ∈ fs.entries := by
  rcases fs.get?_eq_some_iff.1 h with h | h
  · exact absurd h.1 hl
  · exact h

theorem mem_entries_iff {e : Entry} : (l, e) ∈ fs.entries ↔ l ≠ [] ∧ fs.get? l = some e :=
  ⟨fun h => ⟨fs.ne_nil_of_mem h, fs.get?_eq_some_iff.2 (Or.inr h)⟩, fun h => mem_entries_of_get? h.1 h.2⟩

theorem nodup_entries (fs : FileSystem) : fs.entries.Nodup := List.Nodup.of_map _ fs.unique

theorem mem_insert {absent : fs.get? (n :: d) = none} {enclosed : fs.get? d = some .directory}
    {x : Location × Entry} :
    x ∈ (fs.insert n d e absent enclosed).entries ↔ x = (n :: d, e) ∨ x ∈ fs.entries := by
  conv => rhs; rw [← List.takeWhile_append_dropWhile (p := isBefore n) (l := fs.entries)]
  simp only [insert, List.mem_append, List.mem_cons]
  exact or_left_comm

theorem get?_insert (absent : fs.get? (n :: d) = none) (enclosed : fs.get? d = some .directory) :
    (fs.insert n d e absent enclosed).get? l = if l = n :: d then some e else fs.get? l := by
  split
  · next h =>
    subst h
    exact get?_eq_some_iff _ |>.2 (Or.inr (mem_insert.2 (Or.inl rfl)))
  · next h =>
    apply get?_eq_of_mem_iff
    intro e'
    simp [mem_insert, h]

theorem get?_modify {f : Entry → Entry} (keeps : f .directory = .directory) :
    (fs.modify l f keeps).get? m = if m = l then (fs.get? m).map f else fs.get? m := by
  have mem (x : Location × Entry) : x ∈ (fs.modify l f keeps).entries ↔
      ∃ y ∈ fs.entries, (if y.1 = l then (y.1, f y.2) else y) = x := by
    simp only [modify, List.mem_map]
  split
  · next h =>
    subst h
    by_cases hm : m = []
    · simp [hm, get?_nil, keeps]
    · apply Option.ext
      intro e
      rw [get?_eq_some_iff, mem, Option.map_eq_some_iff]
      constructor
      · rintro (h | ⟨y, hy, h⟩)
        · exact absurd h.1 hm
        · obtain ⟨k, v⟩ := y
          dsimp only at h
          split at h
          · next hk =>
            obtain ⟨rfl, rfl⟩ := Prod.mk.inj h
            exact ⟨v, fs.get?_eq_some_iff.2 (Or.inr hy), rfl⟩
          · next hk => exact absurd (Prod.mk.inj h).1 hk
      · rintro ⟨v, hv, rfl⟩
        exact Or.inr ⟨_, mem_entries_of_get? hm hv, by simp⟩
  · next h =>
    apply get?_eq_of_mem_iff
    intro e
    rw [mem]
    constructor
    · rintro ⟨⟨k, v⟩, hy, he⟩
      dsimp only at he
      split at he
      · next hk => exact absurd ((Prod.mk.inj he).1 ▸ hk) h
      · exact he ▸ hy
    · intro he
      exact ⟨_, he, by simp [h]⟩

theorem get?_prune (hl : l ≠ []) :
    (fs.prune l).get? m = if l <:+ m then none else fs.get? m := by
  have mem (x : Location × Entry) : x ∈ (fs.prune l).entries ↔ x ∈ fs.entries ∧ ¬ l <:+ x.1 := by
    simp only [prune, List.mem_filter, Bool.not_eq_true', ← Location.isAtOrBelow_iff,
      Bool.not_eq_true]
  split
  · next h =>
    have hm : m ≠ [] := by
      rintro rfl
      exact hl (List.suffix_nil.1 h)
    rw [Option.eq_none_iff_forall_ne_some]
    intro e he
    exact ((mem _).1 (mem_entries_of_get? hm he)).2 h
  · next h =>
    apply get?_eq_of_mem_iff
    intro e
    simp [mem, h]

theorem get?_prune_self (hl : l ≠ []) : (fs.prune l).get? l = none :=
  (get?_prune hl).trans (if_pos (List.suffix_refl l))

theorem mem_names : n ∈ fs.names d ↔ (fs.get? (n :: d)).isSome := by
  rw [Option.isSome_iff_exists]
  simp only [names, List.mem_filterMap, Prod.exists]
  constructor
  · rintro ⟨k, v, hkv, h⟩
    split at h
    · next n' d' v' heq =>
      obtain ⟨rfl, rfl⟩ := Prod.mk.inj heq
      split at h
      · next hd =>
        obtain rfl := Option.some.inj h
        exact ⟨_, fs.get?_eq_some_iff.2 (Or.inr (hd ▸ hkv))⟩
      · cases h
    · cases h
  · rintro ⟨e, he⟩
    exact ⟨_, _, mem_entries_of_get? (by simp) he, by simp⟩

theorem nodup_names (fs : FileSystem) (d : Location) : (fs.names d).Nodup := by
  have hkeys : fs.names d = (fs.entries.map (·.1)).filterMap fun
      | n :: d' => if d' = d then some n else none
      | [] => none := by
    rw [names, List.filterMap_map]
    congr 1
    funext x
    obtain ⟨l, e⟩ := x
    cases l <;> rfl
  rw [hkeys]
  refine fs.unique.filterMap fun l l' n hl hl' => ?_
  cases l with
  | nil => cases hl
  | cons k d₁ =>
    cases l' with
    | nil => cases hl'
    | cons k' d₂ =>
      simp only [Option.mem_def, Option.ite_none_right_eq_some, Option.some.injEq] at hl hl'
      rw [hl.1, hl.2, hl'.1, hl'.2]

theorem get?_enclosing (h : fs.get? (n :: d) = some e) : fs.get? d = some .directory := by
  obtain ⟨n', d', heq, hd⟩ := fs.rooted _ (mem_entries_of_get? (by simp) h)
  obtain ⟨rfl, rfl⟩ := List.cons.inj heq
  rcases hd with rfl | hd
  · exact fs.get?_nil
  · exact fs.get?_eq_some_iff.2 (Or.inr hd)

theorem get?_tail_isSome (h : (fs.get? l).isSome) : (fs.get? l.tail).isSome := by
  obtain ⟨e, he⟩ := Option.isSome_iff_exists.1 h
  cases l with
  | nil => exact h
  | cons n d => simp [get?_enclosing he]

theorem get?_of_suffix (hs : d <:+ l) (hne : d ≠ l) (h : fs.get? l = some e) :
    fs.get? d = some .directory := by
  induction l generalizing e with
  | nil => exact absurd (List.suffix_nil.1 hs) hne
  | cons n l ih =>
    have hl := get?_enclosing h
    rcases List.suffix_cons_iff.1 hs with hd | hd
    · exact absurd hd hne
    · by_cases heq : d = l
      · exact heq ▸ hl
      · exact ih hd heq hl

theorem get?_eq_none_of_suffix (hs : d <:+ l) (h : fs.get? d = none) : fs.get? l = none := by
  by_cases hd : d = l
  · exact hd ▸ h
  · cases hl : fs.get? l with
    | none => rfl
    | some e =>
      rw [get?_of_suffix hs hd hl] at h
      cases h

theorem get?_eq_none_below (hs : d <:+ l) (hne : d ≠ l) (h : fs.get? d ≠ some .directory) :
    fs.get? l = none := by
  cases hl : fs.get? l with
  | none => rfl
  | some e => exact absurd (get?_of_suffix hs hne hl) h

theorem get?_prune_leaf (hl : l ≠ []) (hleaf : fs.get? l = some .directory → fs.names l = []) :
    (fs.prune l).get? m = if m = l then none else fs.get? m := by
  rw [get?_prune hl]
  by_cases hm : m = l
  · simp [hm]
  · rw [if_neg hm]
    split
    · next hs =>
      by_cases hd : fs.get? l = some .directory
      · obtain ⟨t, rfl⟩ := hs
        rcases List.eq_nil_or_concat t with rfl | ⟨t, n, rfl⟩
        · exact absurd rfl hm
        · have hn : fs.get? (n :: l) = none := by
            have hn : n ∉ fs.names l := by simp [hleaf hd]
            simpa [mem_names] using hn
          exact (get?_eq_none_of_suffix (by simp [List.concat_eq_append]) hn).symm
      · exact (get?_eq_none_below hs (Ne.symm hm) hd).symm
    · rfl

theorem length_prune_leaf {e : Entry} (hl : l ≠ []) (he : fs.get? l = some e)
    (hleaf : fs.get? l = some .directory → fs.names l = []) :
    (fs.prune l).entries.length + 1 = fs.entries.length := by
  have hmem : (l, e) ∈ fs.entries := mem_entries_iff.2 ⟨hl, he⟩
  have hperm : (fs.prune l).entries.Perm (fs.entries.erase (l, e)) := by
    rw [List.perm_ext_iff_of_nodup (nodup_entries _) (fs.nodup_entries.erase _)]
    rintro ⟨m, e'⟩
    rw [fs.nodup_entries.mem_erase_iff, mem_entries_iff, mem_entries_iff, get?_prune_leaf hl hleaf]
    by_cases hm : m = l
    · subst hm
      simp +contextual [he, eq_comm]
    · simp [hm]
  rw [hperm.length_eq, List.length_erase_of_mem hmem]
  have hpos := List.length_pos_of_mem hmem
  omega

theorem get?_setContent {content : Bytes} : (fs.setContent l content).get? m =
    if m = l then (fs.get? m).map (Entry.withContent content) else fs.get? m :=
  get?_modify _

theorem get?_append {bytes : Bytes} : (fs.append l bytes).get? m =
    match fs.get? m with
    | some (.file content x) =>
      if m = l then some (.file (content ++ bytes) x) else some (.file content x)
    | e => e := by
  unfold append
  split
  · next content x hl =>
    rw [get?_setContent]
    by_cases h : m = l
    · simp [h, hl, Entry.withContent]
    · simp only [if_neg h]
      split <;> simp_all
  · next h =>
    split
    · next content x hm =>
      split
      · next heq => exact absurd (heq ▸ hm) (h _ _)
      · exact hm
    · rfl

/-- The entry at `l` is there and has nothing below it. -/
def IsLeaf (fs : FileSystem) (l : Location) : Prop :=
  ∃ e, fs.get? l = some e ∧ (e = .directory → fs.names l = [])

/-- The entries of a file system do not go down for ever. -/
theorem exists_depth (fs : FileSystem) : ∃ depth, ∀ l e, fs.get? l = some e → l.length ≤ depth := by
  refine ⟨(fs.entries.map (·.1.length)).sum, fun l e he => ?_⟩
  by_cases hl : l = []
  · simp [hl]
  · have hmem := List.mem_map_of_mem (f := (·.1.length)) (mem_entries_of_get? hl he)
    exact List.le_sum_of_mem hmem

theorem exists_leaf (he : fs.get? l = some e) : ∃ m, l <:+ m ∧ fs.IsLeaf m := by
  obtain ⟨depth, hdepth⟩ := fs.exists_depth
  induction hrest : depth - l.length generalizing l e with
  | zero =>
    refine ⟨l, List.suffix_refl l, e, he, fun hd => List.eq_nil_iff_forall_not_mem.2 fun n hn => ?_⟩
    obtain ⟨e', he'⟩ := Option.isSome_iff_exists.1 (mem_names.1 hn)
    have hdeep := hdepth _ _ he'
    rw [List.length_cons] at hdeep
    omega
  | succ rest ih =>
    by_cases hleaf : fs.names l = []
    · exact ⟨l, List.suffix_refl l, e, he, fun _ => hleaf⟩
    · obtain ⟨n, hn⟩ := List.exists_mem_of_ne_nil _ hleaf
      obtain ⟨e', he'⟩ := Option.isSome_iff_exists.1 (mem_names.1 hn)
      obtain ⟨m, hm, hleaf'⟩ := ih he' (by rw [List.length_cons]; omega)
      exact ⟨m, (List.suffix_cons n l).trans hm, hleaf'⟩

/-! ## Comparing file systems -/

/-- Every entry of `a` stands in `b` too, a file perhaps with other content. -/
def Within (a b : FileSystem) : Prop :=
  ∀ l e, a.get? l = some e → (b.get? l).map Entry.outline = some e.outline

/-- `b` is `a` without some of the entries of the region `P`. -/
def Trims (P : Location → Prop) (a b : FileSystem) : Prop :=
  ∀ l, b.get? l = a.get? l ∨ P l ∧ b.get? l = none

/-- The two have the same entries in the region `P`. -/
def SameAt (P : Location → Prop) (a b : FileSystem) : Prop := ∀ l, P l → b.get? l = a.get? l

variable {P Q : Location → Prop}

theorem Within.refl (a : FileSystem) : a.Within a := fun _ _ h => by rw [h, Option.map_some]

theorem Within.trans (hab : a.Within b) (hbc : b.Within c) : a.Within c := by
  intro l e he
  obtain ⟨e', he', ho⟩ := Option.map_eq_some_iff.1 (hab l e he)
  rw [hbc l e' he', ho]

theorem Within.directory (h : a.Within b) (hl : a.get? l = some .directory) :
    b.get? l = some .directory := by
  obtain ⟨e, he, ho⟩ := Option.map_eq_some_iff.1 (h l _ hl)
  rw [he, Entry.outline_eq_directory.1 ho]

theorem Within.link {p : Path} (h : a.Within b) (hl : a.get? l = some (.link p)) :
    b.get? l = some (.link p) := by
  obtain ⟨e, he, ho⟩ := Option.map_eq_some_iff.1 (h l _ hl)
  rw [he, Entry.outline_eq_link.1 ho]

theorem Within.file {content : Bytes} {x : Bool} (h : a.Within b)
    (hl : a.get? l = some (.file content x)) :
    ∃ content' x', b.get? l = some (.file content' x') := by
  obtain ⟨e, he, ho⟩ := Option.map_eq_some_iff.1 (h l _ hl)
  cases e with
  | file content' x' => exact ⟨content', x', he⟩
  | directory => cases ho
  | link p => cases ho

theorem Within.isSome (h : a.Within b) (hl : (a.get? l).isSome) : (b.get? l).isSome := by
  obtain ⟨e, he⟩ := Option.isSome_iff_exists.1 hl
  have := h l e he
  cases hb : b.get? l with
  | none => simp [hb] at this
  | some e' => rfl

theorem Trims.refl (a : FileSystem) : Trims P a a := fun _ => Or.inl rfl

theorem Trims.trans (hab : Trims P a b) (hbc : Trims P b c) : Trims P a c := by
  intro l
  rcases hbc l with h | h
  · rw [h]
    exact hab l
  · exact Or.inr h

theorem Trims.mono (hPQ : ∀ l, P l → Q l) (h : Trims P a b) : Trims Q a b := fun l =>
  (h l).imp_right fun h => ⟨hPQ l h.1, h.2⟩

theorem Trims.eq_of_some (h : Trims P a b) (hl : b.get? l = some e) : a.get? l = some e := by
  rcases h l with h | h
  · exact h ▸ hl
  · rw [h.2] at hl
    cases hl

theorem Trims.within (h : Trims P a b) : b.Within a := fun l e he => by
  rw [h.eq_of_some he, Option.map_some]

/-- Trimming where `c` has nothing does not hurt `c`. -/
theorem Within.trims (hca : c.Within a) (hab : Trims P a b) (hc : ∀ l, P l → c.get? l = none) :
    c.Within b := by
  intro l e he
  rcases hab l with h | ⟨hl, -⟩
  · rw [h]
    exact hca l e he
  · cases ((hc l hl).symm.trans he)

theorem Trims.none (h : Trims P a b) (hl : a.get? l = none) : b.get? l = none := by
  rcases h l with h | h
  · rw [h, hl]
  · exact h.2

theorem Trims.length_eq (h : Trims P a b) :
    b.entries.length = a.entries.countP fun x => (b.get? x.1).isSome := by
  have hperm : b.entries.Perm (a.entries.filter fun x => (b.get? x.1).isSome) := by
    rw [List.perm_ext_iff_of_nodup (nodup_entries _) (a.nodup_entries.filter _)]
    rintro ⟨m, e⟩
    rw [List.mem_filter, mem_entries_iff, mem_entries_iff]
    constructor
    · rintro ⟨hm, he⟩
      exact ⟨⟨hm, h.eq_of_some he⟩, by simp [he]⟩
    · rintro ⟨⟨hm, he⟩, hsome⟩
      obtain ⟨e', he'⟩ := Option.isSome_iff_exists.1 hsome
      have heq := h.eq_of_some he'
      rw [he] at heq
      exact ⟨hm, heq ▸ he'⟩
  rw [hperm.length_eq, List.countP_eq_length_filter]

theorem Trims.countP_isNone (h : Trims P a b) :
    (a.entries.countP fun x => (b.get? x.1).isNone) + b.entries.length = a.entries.length := by
  have hsplit := List.length_eq_countP_add_countP (fun x : Location × Entry => (b.get? x.1).isSome)
    (l := a.entries)
  have hnone : (a.entries.countP fun x => (b.get? x.1).isNone) =
      a.entries.countP fun x => decide ¬ (b.get? x.1).isSome = true :=
    List.countP_congr fun x _ => by simp
  rw [h.length_eq, hnone, Nat.add_comm]
  exact hsplit.symm

theorem SameAt.refl (a : FileSystem) : SameAt P a a := fun _ _ => rfl

theorem SameAt.trans (hab : SameAt P a b) (hbc : SameAt P b c) : SameAt P a c := fun l hl =>
  (hbc l hl).trans (hab l hl)

theorem SameAt.mono (hPQ : ∀ l, Q l → P l) (h : SameAt P a b) : SameAt Q a b := fun l hl =>
  h l (hPQ l hl)

/-- `b` has all that `a` has, and differs from it only in the region `P`, by more entries and by what
is written in files. -/
structure Grows (P : Location → Prop) (a b : FileSystem) : Prop where
  within : a.Within b
  others : SameAt (fun l => ¬ P l) a b

theorem Grows.refl (a : FileSystem) : Grows P a a := ⟨.refl a, .refl a⟩

theorem Grows.trans (hab : Grows P a b) (hbc : Grows P b c) : Grows P a c :=
  ⟨hab.within.trans hbc.within, hab.others.trans hbc.others⟩

theorem Grows.mono (hPQ : ∀ l, P l → Q l) (h : Grows P a b) : Grows Q a b :=
  ⟨h.within, h.others.mono fun l hl hp => hl (hPQ l hp)⟩

theorem grows_flat {entries entries' : List (Name × Entry)} {unique : (entries.map (·.1)).Nodup}
    {unique' : (entries'.map (·.1)).Nodup} (hsub : ∀ x ∈ entries, x ∈ entries')
    (hP : ∀ x ∈ entries', x ∈ entries ∨ P [x.1]) :
    Grows P (flat entries unique) (flat entries' unique') := by
  have hmore {l : Location} {e : Entry} (he : (flat entries unique).get? l = some e) :
      (flat entries' unique').get? l = some e := by
    rw [get?_flat_eq_some_iff] at he ⊢
    exact he.imp_right fun ⟨n, hn, hl⟩ => ⟨n, hsub _ hn, hl⟩
  refine ⟨fun l e he => by rw [hmore he, Option.map_some], fun l hl => Option.ext fun e => ?_⟩
  refine ⟨fun he => ?_, hmore⟩
  rw [get?_flat_eq_some_iff] at he ⊢
  refine he.imp_right fun ⟨n, hn, hln⟩ => ⟨n, (hP _ hn).resolve_right fun h => ?_, hln⟩
  exact hl (hln ▸ h)

theorem trims_prune (hl : l ≠ []) (hleaf : fs.get? l = some .directory → fs.names l = [])
    (hP : P l) : Trims P fs (fs.prune l) := by
  intro m
  rw [get?_prune_leaf hl hleaf]
  split
  · next h => exact Or.inr ⟨h ▸ hP, rfl⟩
  · exact Or.inl rfl

end FileSystem
end SmaliBuild
