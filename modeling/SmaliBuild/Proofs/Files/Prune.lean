import SmaliBuild.Proofs.Files.Sites
/-!
# What is left without an entry

Taking an entry away undoes whatever was done to it: where nothing stands there is nothing to take
away, and a new entry or what was written to it goes with it.  `FileSystem.without` takes several
entries away, and all that is below them.
-/
namespace SmaliBuild.FileSystem
variable {fs a b : FileSystem} {l m d r : Location} {n : Name} {e : Entry} {gone : List Location}

theorem eq_of_entries (h : a.entries = b.entries) : a = b := by
  cases a
  cases b
  congr

/-! ## One entry -/

theorem prune_of_free (h : fs.get? l = none) : fs.prune l = fs := by
  refine eq_of_entries (List.filter_eq_self.2 fun x hx => ?_)
  rw [Bool.not_eq_true', Bool.eq_false_iff, ne_eq, Location.isAtOrBelow_iff]
  intro hsuffix
  have hnone := get?_eq_none_of_suffix hsuffix h
  rw [(mem_entries_iff.1 hx).2] at hnone
  cases hnone

theorem prune_insert (absent : fs.get? (n :: d) = none) (enclosed : fs.get? d = some .directory) :
    (fs.insert n d e absent enclosed).prune (n :: d) = fs.prune (n :: d) := by
  have hself : Location.isAtOrBelow (n :: d) (n :: d) = true :=
    Location.isAtOrBelow_iff.2 (List.suffix_refl _)
  refine eq_of_entries ?_
  simp only [prune, insert, List.filter_append, List.filter_cons, hself, Bool.not_true,
    Bool.false_eq_true, if_false]
  rw [← List.filter_append, List.takeWhile_append_dropWhile]

theorem prune_modify {f : Entry → Entry} (keeps : f .directory = .directory) :
    (fs.modify l f keeps).prune l = fs.prune l := by
  have hkeep : (fun x : Location × Entry => !l.isAtOrBelow x.1) ∘
      (fun x : Location × Entry => if x.1 = l then (x.1, f x.2) else x) =
        fun x => !l.isAtOrBelow x.1 := by
    funext x
    simp only [Function.comp_apply]
    split <;> rfl
  refine eq_of_entries ?_
  simp only [prune, modify, List.filter_map, hkeep]
  refine (List.map_congr_left fun x hx => ?_).trans (List.map_id _)
  have hnot := (List.mem_filter.1 hx).2
  rw [Bool.not_eq_true', Bool.eq_false_iff, ne_eq, Location.isAtOrBelow_iff] at hnot
  rw [if_neg, id]
  rintro rfl
  exact hnot (List.suffix_refl _)

theorem prune_append {bytes : Bytes} : (fs.append l bytes).prune l = fs.prune l := by
  unfold append
  split
  · exact prune_modify _
  · rfl

theorem prune_createFile {dir : Location} {p : Path} (h : fs.createFile dir p = .ok (a, l)) :
    a.prune l = fs.prune l := by
  obtain ⟨hsite, hfree, -⟩ := createFile_eq_ok h
  obtain ⟨d, n, rfl, hplace⟩ := place_of_site hsite
  obtain ⟨hd, hmade⟩ := createFile_insert hsite hfree (noSlash_of_createFile h)
  obtain ⟨rfl, -⟩ := Prod.mk.inj (Except.ok.inj (hmade.symm.trans h))
  exact prune_insert hfree hd

/-! ## Several entries -/

/-- Without the entries at or below the locations. -/
def without (fs : FileSystem) (gone : List Location) : FileSystem := gone.foldl prune fs

theorem entries_without : (fs.without gone).entries =
    fs.entries.filter fun x => gone.all fun l => !l.isAtOrBelow x.1 := by
  induction gone generalizing fs with
  | nil => simp [without]
  | cons k gone ih =>
    change ((fs.prune k).without gone).entries = _
    rw [ih, prune, List.filter_filter]
    refine List.filter_congr fun x _ => ?_
    rw [List.all_cons, Bool.and_comm]

theorem without_prune (hl : l ∈ gone) : (fs.prune l).without gone = fs.without gone := by
  refine eq_of_entries ?_
  rw [entries_without, entries_without, prune, List.filter_filter]
  refine List.filter_congr fun x _ => ?_
  cases hall : gone.all fun k => !k.isAtOrBelow x.1 with
  | false => rfl
  | true => rw [List.all_eq_true.1 hall l hl, Bool.and_true]

theorem without_congr (hl : l ∈ gone) (h : b.prune l = a.prune l) :
    b.without gone = a.without gone := by
  rw [← without_prune hl, h, without_prune hl]

theorem without_idem : (fs.without gone).without gone = fs.without gone := by
  refine eq_of_entries ?_
  rw [entries_without, entries_without, List.filter_filter]
  exact List.filter_congr fun x _ => Bool.and_self _

theorem get?_without (hgone : [] ∉ gone) : (fs.without gone).get? m =
    if ∃ l ∈ gone, l <:+ m then none else fs.get? m := by
  induction gone generalizing fs with
  | nil => simp [without]
  | cons k gone ih =>
    obtain ⟨hk, hgone⟩ := not_or.1 (List.mem_cons.not.1 hgone)
    change ((fs.prune k).without gone).get? m = _
    rw [ih hgone, get?_prune (Ne.symm hk)]
    simp only [List.exists_mem_cons_iff]
    by_cases hkm : k <:+ m <;> by_cases hrest : ∃ l ∈ gone, l <:+ m <;> simp [hkm, hrest]

theorem within_without (hgone : [] ∉ gone) : (fs.without gone).Within fs := by
  intro m e he
  rw [get?_without hgone] at he
  split at he
  · cases he
  · rw [he, Option.map_some]

theorem names_without (hr : ∀ l ∈ gone, ∀ n : Name, ¬ l <:+ n :: r) :
    (fs.without gone).names r = fs.names r := by
  rw [names, names, entries_without, List.filterMap_filter]
  refine List.filterMap_congr fun x _ => ?_
  obtain ⟨k, e⟩ := x
  cases k with
  | nil => simp
  | cons n d =>
    by_cases hd : d = r
    · subst hd
      have hall : (gone.all fun l => !l.isAtOrBelow (n :: d)) = true := by
        rw [List.all_eq_true]
        intro l hl
        rw [Bool.not_eq_true', Bool.eq_false_iff, ne_eq, Location.isAtOrBelow_iff]
        exact hr l hl n
      simp [hall]
    · simp [hd]

end SmaliBuild.FileSystem
