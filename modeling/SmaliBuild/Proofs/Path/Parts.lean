import SmaliBuild.Proofs.Path.Segments
import SmaliBuild.Proofs.Host.Steps
import SmaliBuild.Workspace
/-!
# The words of derived paths

Making a path absolute keeps its words.  The parent of an absolute path without single dots has all
its words but the last, and its last word names the file.
-/
namespace SmaliBuild.Path
variable {p q d : Path} {s : Segment} {before : List Segment}

structure Regular (p : Path) : Prop where
  isAbsolute : p.isAbsolute = true
  plain : [dot] ∉ p.words

/-! ## Making a path absolute -/

theorem words_foldl_extend {ss : List Segment} (h : ∀ s ∈ ss, slash ∉ s ∧ s ≠ []) (t : OsString) :
    words ⟨ss.foldl extend t⟩ = words ⟨t⟩ ++ ss := by
  induction ss generalizing t with
  | nil => simp
  | cons s ss ih =>
    have hs := h s (by simp)
    rw [List.foldl_cons, ih fun u hu => h u (by simp [hu])]
    simp only [words]
    rw [segments_extend_filter hs.1 hs.2, List.append_assoc]
    rfl

theorem words_extend_nil (t : OsString) : words ⟨extend t []⟩ = words ⟨t⟩ := by
  unfold extend
  split
  · rw [List.append_nil]
  · simp [words, segments_slash_end]

theorem head?_foldl_extend {ss : List Segment} {t : OsString} (ht : t ≠ []) :
    (ss.foldl extend t).head? = t.head? := by
  induction ss generalizing t with
  | nil => rfl
  | cons s ss ih =>
    rw [List.foldl_cons, ih, head?_extend ht]
    unfold extend
    split <;> simp [ht]

theorem mem_parts (hs : s ∈ p.parts) : slash ∉ s ∧ s ≠ [] ∧ s ≠ [dot] := by
  obtain ⟨hmem, hidle⟩ := List.mem_filter.1 hs
  refine ⟨slash_notMem_of_mem_segments hmem, ?_⟩
  simpa [isIdle] using hidle

theorem mem_of_mem_foldl_extend {ss : List Segment} {t : OsString} {c : UInt8}
    (hc : c ∈ ss.foldl extend t) : c ∈ t ∨ c = slash ∨ ∃ s ∈ ss, c ∈ s := by
  induction ss generalizing t with
  | nil => exact Or.inl hc
  | cons s ss ih =>
    rcases ih hc with ht | hslash | ⟨u, hu, hcu⟩
    · rcases mem_of_mem_extend ht with ht | hslash | hs
      · exact Or.inl ht
      · exact Or.inr (Or.inl hslash)
      · exact Or.inr (Or.inr ⟨s, List.mem_cons_self, hs⟩)
    · exact Or.inr (Or.inl hslash)
    · exact Or.inr (Or.inr ⟨u, List.mem_cons_of_mem s hu, hcu⟩)

/-- Making a path absolute that is so already adds nothing but slashes. -/
theorem mem_of_mem_absolute {c : UInt8} (hp : p.isAbsolute = true) (h : p.absolute d = .ok q)
    (hc : c ∈ q.text) : c = slash ∨ c ∈ p.text := by
  unfold absolute at h
  rw [if_pos hp] at h
  split at h
  · cases h
  obtain rfl := Except.ok.inj h
  have hbody : c ∈ p.parts.foldl extend (if p.startsWithTwoSlashes then [slash, slash] else [slash]) ∨
      c = slash := by
    dsimp only at hc
    split at hc
    · rcases mem_of_mem_extend hc with hc | hc | hc
      · exact Or.inl hc
      · exact Or.inr hc
      · simp at hc
    · exact Or.inl hc
  rcases hbody with hc | hc
  · rcases mem_of_mem_foldl_extend hc with hc | hc | ⟨s, hs, hcs⟩
    · refine Or.inl ?_
      split at hc <;> simpa using hc
    · exact Or.inl hc
    · exact Or.inr (mem_of_mem_segments (List.mem_of_mem_filter hs) hcs)
  · exact Or.inl hc

/-! ## Parents -/

/-- The words of a path are the pieces of its text that are not empty, one of which is the last. -/
theorem segments_of_words (hw : p.words = before ++ [s]) :
    ∃ pre post, segments p.text = pre ++ s :: post ∧ pre.filter (· ≠ []) = before ∧
      (∀ u ∈ post, u = []) ∧ s ≠ [] := by
  obtain ⟨pre, tail, hsegs, hpre, htail⟩ := List.filter_eq_append_iff.1 hw
  obtain ⟨idle, post, rfl, hidle, hs, hpost⟩ := List.filter_eq_cons_iff.1 htail
  refine ⟨pre ++ idle, post, by rw [hsegs, List.append_assoc], ?_, ?_, by simpa using hs⟩
  · have hnone : idle.filter (· ≠ []) = [] := List.filter_eq_nil_iff.2 hidle
    rw [List.filter_append, hpre, hnone, List.append_nil]
  · simpa using List.filter_eq_nil_iff.1 hpost

theorem isIdle_of_mem (hp : [dot] ∉ p.words) (hs : s ∈ segments p.text) :
    isIdle s = true ↔ s = [] := by
  have hdot : s ≠ [dot] := by
    rintro rfl
    exact hp (List.mem_filter.2 ⟨hs, by simp⟩)
  simp [isIdle, hdot]

theorem parts_eq_words (hp : [dot] ∉ p.words) : p.parts = p.words := by
  refine List.filter_congr fun s hs => ?_
  have hidle := isIdle_of_mem hp hs
  cases h : isIdle s <;> simp_all

theorem fileName_eq (hp : [dot] ∉ p.words) (hw : p.words = before ++ [s]) :
    p.fileName = if s = up then none else some s := by
  unfold fileName
  rw [parts_eq_words hp, hw, List.getLast?_concat]

theorem fileName_eq_none (hp : [dot] ∉ p.words) (hw : p.words = []) : p.fileName = none := by
  unfold fileName
  rw [parts_eq_words hp, hw]
  rfl

theorem head?_segments {t : OsString} (h : t.head? = some slash) :
    ∃ rest, segments t = [] :: rest := by
  cases t with
  | nil => cases h
  | cons c cs =>
    obtain rfl : c = slash := by simpa using h
    exact ⟨segments cs, by simp [segments]⟩

theorem anchor_of_isAbsolute (h : p.isAbsolute = true) : p.anchor = [slash] := by
  rw [anchor, if_pos h]

theorem parent_of_words_nil (hp : p.Regular) (hw : p.words = []) : p.parent = none := by
  have hidle : ∀ s ∈ (segments p.text).reverse, isIdle s = true := by
    intro s hs
    have hmem := List.mem_reverse.1 hs
    rw [isIdle_of_mem hp.plain hmem]
    refine Classical.byContradiction fun hne => ?_
    have : s ∈ p.words := List.mem_filter.2 ⟨hmem, by simpa using hne⟩
    simp [hw] at this
  have hdrop : (segments p.text).reverse.dropWhile isIdle = [] := by
    rw [← List.append_nil (segments p.text).reverse, List.dropWhile_append_of_pos hidle]
    rfl
  unfold parent
  rw [hdrop]
  simp [anchor_of_isAbsolute hp.isAbsolute]

theorem exists_kept (pre : List Segment) (hidle : ∀ u ∈ pre, isIdle u = true → u = []) :
    ∃ kept idle, pre = kept ++ idle ∧ pre.reverse.dropWhile isIdle = kept.reverse ∧
      kept.filter (· ≠ []) = pre.filter (· ≠ []) ∧ ∀ k, kept.getLast? = some k → ¬ isIdle k = true := by
  refine ⟨(pre.reverse.dropWhile isIdle).reverse, (pre.reverse.takeWhile isIdle).reverse, ?_, by simp,
    ?_, fun k hk => ?_⟩
  · rw [← List.reverse_append, List.takeWhile_append_dropWhile, List.reverse_reverse]
  · have hfront := congrArg List.reverse
      (List.takeWhile_append_dropWhile (p := isIdle) (l := pre.reverse))
    rw [List.reverse_append, List.reverse_reverse] at hfront
    have hskipped : (pre.reverse.takeWhile isIdle).reverse.filter (· ≠ []) = [] := by
      rw [List.filter_eq_nil_iff]
      intro u hu
      have hmem := List.mem_reverse.1 hu
      have hpre : u ∈ pre := hfront ▸ List.mem_append_right _ hu
      simp [hidle u hpre (List.all_eq_true.1 List.all_takeWhile u hmem)]
    conv => rhs; rw [← hfront, List.filter_append, hskipped, List.append_nil]
  · rw [List.getLast?_reverse] at hk
    have hhead := List.head?_dropWhile_not isIdle pre.reverse
    simpa [hk] using hhead

theorem parent_of_words (hp : p.Regular) (hw : p.words = before ++ [s]) :
    ∃ d, p.parent = some d ∧ d.words = before ∧ d.isAbsolute = true := by
  obtain ⟨pre, post, hsegs, hpre, hpost, hs⟩ := segments_of_words hw
  have hidle {u : Segment} (hu : u ∈ segments p.text) := isIdle_of_mem hp.plain hu
  have hdrop : (segments p.text).reverse.dropWhile isIdle = s :: pre.reverse := by
    have hsidle : ¬ isIdle s = true := by
      rw [hidle (by simp [hsegs])]
      exact hs
    rw [hsegs, List.reverse_append, List.reverse_cons, List.append_assoc,
      List.dropWhile_append_of_pos, List.singleton_append, List.dropWhile_cons_of_neg hsidle]
    intro u hu
    have hmem := List.mem_reverse.1 hu
    rw [hidle (by simp [hsegs, hmem])]
    exact hpost u hmem
  obtain ⟨kept, idle, hsplit, hrev, hfilter, hlast⟩ :=
    exists_kept pre fun u hu => (hidle (by simp [hsegs, hu])).1
  unfold parent
  rw [hdrop]
  dsimp only
  rw [hrev]
  rcases List.eq_nil_or_concat kept with rfl | ⟨kept, k, rfl⟩
  · refine ⟨_, rfl, ?_, ?_⟩
    · rw [anchor_of_isAbsolute hp.isAbsolute, ← hpre, ← hfilter]
      rfl
    · rw [anchor_of_isAbsolute hp.isAbsolute]
      rfl
  · rw [List.concat_eq_append] at *
    have hcut : segments (unsegments (kept ++ [k])) = kept ++ [k] := by
      refine segments_unsegments (by simp) fun u hu => slash_notMem_of_mem_segments (t := p.text) ?_
      rw [hsegs, hsplit]
      exact List.mem_append_left _ (List.mem_append_left _ hu)
    obtain ⟨rest, hrest⟩ := head?_segments (by simpa [isAbsolute] using hp.isAbsolute)
    refine ⟨⟨unsegments (kept ++ [k])⟩, by simp, ?_, ?_⟩
    · rw [words, hcut, hfilter, hpre]
    · rw [hsegs, hsplit] at hrest
      cases kept with
      | nil =>
        obtain rfl : k = [] := (List.cons.inj hrest).1
        exact absurd rfl (hlast [] rfl)
      | cons x kept =>
        obtain rfl : x = [] := (List.cons.inj hrest).1
        obtain ⟨y, ys, hy⟩ := List.exists_cons_of_ne_nil (l := kept ++ [k]) (by simp)
        rw [List.cons_append, hy]
        rfl

end SmaliBuild.Path
