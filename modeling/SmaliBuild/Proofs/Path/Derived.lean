import SmaliBuild.Proofs.Path.Parts
/-!
# Paths of a conversion

The fixed names and the class directory put one word behind the words of another path, and the class
file of a source file differs from it in the last word.
-/
namespace SmaliBuild.Path
variable {p q d : Path} {s : Segment} {pre before : List Segment}

/-! ## Joining a name -/

theorem join_eq_entry (hs : slash ∉ s) : p.join ⟨s⟩ = p.entry s := by
  unfold join
  rw [if_neg]
  · rfl
  · cases s with
    | nil => simp [isAbsolute]
    | cons c cs =>
      simp only [List.mem_cons, not_or] at hs
      simpa [isAbsolute] using Ne.symm hs.1

theorem words_join (hs : slash ∉ s) (hne : s ≠ []) : (p.join ⟨s⟩).words = p.words ++ [s] := by
  rw [join_eq_entry hs]
  exact segments_extend_filter hs hne

theorem endsWithSlash_join (hs : slash ∉ s) (hne : s ≠ []) : (p.join ⟨s⟩).endsWithSlash = false := by
  rw [join_eq_entry hs]
  exact endsWithSlash_of_getLast? hne hs (getLast?_extend hne)

theorem isAbsolute_join (hp : p.isAbsolute = true) (hs : slash ∉ s) :
    (p.join ⟨s⟩).isAbsolute = true := by
  rw [join_eq_entry hs, isAbsolute, entry, head?_extend]
  · exact hp
  · intro hnil
    simp [isAbsolute, hnil] at hp

/-! ## The fixed parts of names -/

@[simp] theorem length_compiledSuffix : (OsString.ofString compiledSuffix).length = 9 := by decide

@[simp] theorem length_classExtension : (OsString.ofString classExtension).length = 5 := by decide

/-! ## The class directory -/

theorem suffix_name {name : Segment} (hname : slash ∉ name) :
    slash ∉ name ++ OsString.ofString compiledSuffix ∧ name ++ OsString.ofString compiledSuffix ≠ [] := by
  have hslash : slash ∉ OsString.ofString compiledSuffix := by decide
  have hne : OsString.ofString compiledSuffix ≠ [] := by decide
  exact ⟨by simp [hname, hslash], by simp [hne]⟩

theorem compiledDirectory_of_words (hp : p.Regular) (hw : p.words = before ++ [s]) (hup : s ≠ up) :
    p.compiledDirectory.words = before ++ [s ++ OsString.ofString compiledSuffix] ∧
      p.compiledDirectory.endsWithSlash = false ∧ p.compiledDirectory.isAbsolute = true := by
  obtain ⟨d, hd, hdw, hda⟩ := parent_of_words hp hw
  have hmem : s ∈ segments p.text := (List.mem_filter.1 (hw ▸ List.mem_concat_self)).1
  obtain ⟨hs, hne⟩ := suffix_name (slash_notMem_of_mem_segments hmem)
  have hc : p.compiledDirectory = d.join ⟨s ++ OsString.ofString compiledSuffix⟩ := by
    unfold compiledDirectory withFileName
    rw [fileName_eq hp.plain hw, if_neg hup, hd]
    rfl
  rw [hc]
  exact ⟨hdw ▸ words_join hs hne, endsWithSlash_join hs hne, isAbsolute_join hda hs⟩

theorem compiledDirectory_of_unnamed (hp : p.Regular) (hn : p.fileName = none) :
    p.compiledDirectory.words = p.words ++ [OsString.ofString compiledSuffix] ∧
      p.compiledDirectory.endsWithSlash = false ∧ p.compiledDirectory.isAbsolute = true := by
  obtain ⟨hs, hne⟩ := suffix_name (List.not_mem_nil (a := slash))
  have hc : p.compiledDirectory = p.join ⟨[] ++ OsString.ofString compiledSuffix⟩ := by
    unfold compiledDirectory withFileName
    rw [hn]
    rfl
  rw [hc]
  exact ⟨words_join hs hne, endsWithSlash_join hs hne, isAbsolute_join hp.isAbsolute hs⟩

/-- The class directory stands next to the source directory, or in it if the path does not name it. -/
theorem compiledDirectory_spec (hp : p.Regular) :
    ∃ before name, p.compiledDirectory.words = before ++ [name ++ OsString.ofString compiledSuffix] ∧
      ((∃ s, s ≠ up ∧ p.words = before ++ [s]) ∨
        before = p.words ∧ (p.words = [] ∨ ∃ above, p.words = above ++ [up])) ∧
      p.compiledDirectory.endsWithSlash = false ∧ p.compiledDirectory.isAbsolute = true := by
  rcases List.eq_nil_or_concat p.words with hw | ⟨before, s, hw⟩
  · obtain ⟨hwords, hends⟩ := compiledDirectory_of_unnamed hp (fileName_eq_none hp.plain hw)
    exact ⟨p.words, [], hwords, Or.inr ⟨rfl, Or.inl hw⟩, hends⟩
  rw [List.concat_eq_append] at hw
  by_cases hup : s = up
  · have hn : p.fileName = none := by rw [fileName_eq hp.plain hw, if_pos hup]
    obtain ⟨hwords, hends⟩ := compiledDirectory_of_unnamed hp hn
    exact ⟨p.words, [], hwords, Or.inr ⟨rfl, Or.inr ⟨before, hup ▸ hw⟩⟩, hends⟩
  · obtain ⟨hwords, hends⟩ := compiledDirectory_of_words hp hw hup
    exact ⟨before, s, hwords, Or.inl ⟨s, hup, hw⟩, hends⟩

/-! ## The class file -/

theorem splitAtDot_cases (name : Segment) : splitAtDot name = (name, none) ∨
    ∃ stem ext, stem ≠ [] ∧ name = stem ++ dot :: ext ∧ dot ∉ ext ∧
      splitAtDot name = (stem, some ext) := by
  have hfront := congrArg List.reverse
    (List.takeWhile_append_dropWhile (p := (· ≠ dot)) (l := name.reverse))
  rw [List.reverse_append, List.reverse_reverse] at hfront
  unfold splitAtDot
  dsimp only
  cases hd : name.reverse.dropWhile (· ≠ dot) with
  | nil => exact Or.inl rfl
  | cons c cs =>
    have hc : c = dot := by
      have hhead := List.head?_dropWhile_not (· ≠ dot) name.reverse
      rw [hd] at hhead
      simpa using hhead
    subst hc
    rw [hd, List.reverse_cons, List.append_assoc] at hfront
    rw [List.reverse_cons, List.dropLast_concat]
    cases hs : cs.reverse with
    | nil => exact Or.inl rfl
    | cons b bs =>
      rw [hs] at hfront
      refine Or.inr ⟨b :: bs, _, by simp, hfront.symm, fun hdot => ?_, rfl⟩
      simpa using List.mem_takeWhile_imp (List.mem_reverse.1 hdot)

theorem splitAtDot_append {stem ext : Segment} (hne : stem ≠ []) (hext : dot ∉ ext) :
    splitAtDot (stem ++ dot :: ext) = (stem, some ext) := by
  have hnot : ∀ c ∈ ext.reverse, decide (c ≠ dot) = true := by
    intro c hc
    rw [decide_eq_true_eq]
    rintro rfl
    exact hext (List.mem_reverse.1 hc)
  have hreverse : (stem ++ dot :: ext).reverse = ext.reverse ++ dot :: stem.reverse := by simp
  unfold splitAtDot
  rw [hreverse, List.takeWhile_append_of_pos hnot, List.dropWhile_append_of_pos hnot]
  simp

theorem fileName_of_segments (hsegs : segments p.text = pre ++ [s]) (hs : isIdle s = false) :
    p.fileName = if s = up then none else some s := by
  have hparts : p.parts = pre.filter (!isIdle ·) ++ [s] := by
    rw [parts, hsegs, List.filter_append]
    simp [hs]
  unfold fileName
  rw [hparts, List.getLast?_concat]

theorem text_setExtension (hsegs : segments p.text = pre ++ [s]) (hpre : pre ≠ [])
    (hs : isIdle s = false) (hup : s ≠ up) (e : Segment) :
    (p.setExtension e).text = unsegments pre ++ slash :: ((splitAtDot s).1 ++ dot :: e) := by
  unfold setExtension stemmed
  rw [fileName_of_segments hsegs hs, if_neg hup, hsegs]
  simp [hs, hpre]

theorem setExtension_up (hsegs : segments p.text = pre ++ [up]) (e : Segment) :
    p.setExtension e = p := by
  unfold setExtension stemmed
  rw [fileName_of_segments hsegs rfl, if_pos rfl]
  rfl

theorem segments_unsegments_slash (hpre : pre ≠ []) (h : ∀ u ∈ pre, slash ∉ u) (hs : slash ∉ s) :
    segments (unsegments pre ++ slash :: s) = pre ++ [s] := by
  rw [segments_append_slash, segments_unsegments hpre h, segments_of_notMem hs]

/-- What the class file of a source file called `s` is called.  A stem that is a single dot is taken
for a part of the name `..`, which has no extension to be replaced. -/
def className (s : Segment) : Segment :=
  if (splitAtDot s).1 = [dot] then up else (splitAtDot s).1 ++ dot :: OsString.ofString classExtension

theorem className_cases (s : Segment) :
    className s = up ∨ ∃ stem, className s = stem ++ dot :: OsString.ofString classExtension := by
  unfold className
  split
  · exact Or.inl rfl
  · exact Or.inr ⟨_, rfl⟩

theorem className_eq_up_iff (hs : s ≠ [dot]) :
    className s = up ↔ ∃ ext, s = dot :: dot :: ext ∧ dot ∉ ext := by
  have hup : className s = up ↔ (splitAtDot s).1 = [dot] := by
    unfold className
    split
    · next h => simp [h]
    · next h =>
      refine iff_of_false (fun hc => ?_) h
      have hlength := congrArg List.length hc
      simp [up] at hlength
  rw [hup]
  constructor
  · intro hstem
    rcases splitAtDot_cases s with hcut | ⟨stem, ext, -, hname, hext, hcut⟩
    · rw [hcut] at hstem
      exact absurd hstem hs
    · rw [hcut] at hstem
      obtain rfl : stem = [dot] := hstem
      exact ⟨ext, hname, hext⟩
  · rintro ⟨ext, rfl, hext⟩
    exact congrArg Prod.fst (splitAtDot_append (List.cons_ne_nil dot []) hext)

theorem mem_of_mem_className {c : UInt8} (hc : c ∈ className s) :
    c ∈ s ∨ c = dot ∨ c ∈ OsString.ofString classExtension := by
  unfold className at hc
  split at hc
  · exact Or.inr (Or.inl (by simpa [up] using hc))
  · rcases List.mem_append.1 hc with hc | hc
    · refine Or.inl ?_
      rcases splitAtDot_cases s with hcut | ⟨stem, ext, -, hname, -, hcut⟩
      · rwa [hcut] at hc
      · rw [hcut] at hc
        exact hname ▸ List.mem_append_left _ hc
    · exact Or.inr (List.mem_cons.1 hc)

/-- The last piece of the path of a class file, for a source file whose last piece is `s`. -/
theorem compiledFile_segments (hsegs : segments p.text = pre ++ [s]) (hpre : pre ≠ [])
    (hs : isIdle s = false) (hup : s ≠ up) : segments p.compiledFile.text = pre ++ [className s] := by
  have hslash {u : Segment} (hu : u ∈ pre ++ [s]) : slash ∉ u :=
    slash_notMem_of_mem_segments (hsegs ▸ hu)
  have hpieces : ∀ u ∈ pre, slash ∉ u := fun u hu => hslash (by simp [hu])
  have hclass : slash ∉ dot :: OsString.ofString classExtension := by decide
  have htext : p.text = unsegments pre ++ slash :: s := by
    rw [← unsegments_segments p.text, hsegs, unsegments_append hpre (by simp)]
    rfl
  have hext : p.extension = (splitAtDot s).2 := by
    unfold extension
    rw [fileName_of_segments hsegs hs, if_neg hup]
    rfl
  unfold compiledFile withExtension
  rw [hext]
  rcases splitAtDot_cases s with hcut | ⟨stem, ext, hne, rfl, -, hcut⟩
  · rw [hcut]
    dsimp only
    rw [text_setExtension hsegs hpre hs hup, hcut]
    have hnew : slash ∉ s ++ dot :: OsString.ofString classExtension := by
      simpa [hslash (u := s) (by simp)] using hclass
    have hname : className s = s ++ dot :: OsString.ofString classExtension := by
      rw [className, hcut, if_neg]
      rintro rfl
      cases hs
    rw [hname]
    exact segments_unsegments_slash hpre hpieces hnew
  · rw [hcut]
    dsimp only
    have hstem : slash ∉ stem := fun hmem =>
      hslash (u := stem ++ dot :: ext) (by simp) (List.mem_append_left _ hmem)
    have htake : p.text.take (p.text.length - ext.length) =
        unsegments pre ++ slash :: (stem ++ [dot]) := by
      have hsplit : p.text = (unsegments pre ++ slash :: (stem ++ [dot])) ++ ext := by simp [htext]
      rw [hsplit, List.length_append, Nat.add_sub_cancel, List.take_left]
    rw [htake]
    have hsegs' : segments (unsegments pre ++ slash :: (stem ++ [dot])) = pre ++ [stem ++ [dot]] :=
      segments_unsegments_slash hpre hpieces (by simp [hstem])
    rw [className, hcut]
    by_cases hdots : stem = [dot]
    · subst hdots
      rw [setExtension_up (p := ⟨_⟩) hsegs', if_pos rfl]
      exact hsegs'
    · rw [text_setExtension (p := ⟨_⟩) hsegs' hpre (by simp [isIdle, hne])
        (by simpa [up, List.append_eq_cons_iff] using hdots), splitAtDot_append hne (by simp), if_neg hdots]
      have hnew : slash ∉ stem ++ dot :: OsString.ofString classExtension := by simpa [hstem] using hclass
      exact segments_unsegments_slash hpre hpieces hnew

theorem segments_of_noSlash (hp : p.isAbsolute = true) (hslash : p.endsWithSlash = false)
    (hw : p.words = before ++ [s]) :
    ∃ pre, segments p.text = pre ++ [s] ∧ pre ≠ [] ∧ pre.filter (· ≠ []) = before ∧
      pre.head? = some [] := by
  obtain ⟨pre, post, hsegs, hpre, hpost, hs⟩ := segments_of_words hw
  have hnil : post = [] := by
    rcases List.eq_nil_or_concat post with h | ⟨post, u, h⟩
    · exact h
    · rw [List.concat_eq_append] at h
      obtain rfl : u = [] := hpost u (by simp [h])
      have htext : p.text = unsegments (pre ++ s :: post) ++ slash :: [] := by
        rw [← unsegments_segments p.text, hsegs, h, ← List.cons_append, ← List.append_assoc,
          unsegments_append (by simp) (by simp)]
        rfl
      rw [endsWithSlash, htext, List.getLast?_concat] at hslash
      cases hslash
  subst hnil
  obtain ⟨rest, hrest⟩ := head?_segments (by simpa [isAbsolute] using hp)
  rw [hsegs] at hrest
  cases pre with
  | nil => exact absurd (List.cons.inj hrest).1 hs
  | cons u pre =>
    obtain rfl : u = [] := (List.cons.inj hrest).1
    exact ⟨_, hsegs, by simp, hpre, rfl⟩

/-- The class file stands next to the source file, unless its name degenerates to dots.  If it is
called like the source file, it is that file. -/
theorem compiledFile_spec (hp : p.Regular) (hslash : p.endsWithSlash = false)
    (hw : p.words = before ++ [s]) (hup : s ≠ up) :
    p.compiledFile.words = before ++ [className s] ∧ p.compiledFile.endsWithSlash = false ∧
      p.compiledFile.isAbsolute = true ∧ (className s = s → p.compiledFile = p) := by
  obtain ⟨pre, hsegs, hne, hpre, hhead⟩ := segments_of_noSlash hp.isAbsolute hslash hw
  have hmem : s ∈ p.words := by simp [hw]
  have hs : isIdle s = false := by
    have hidle := isIdle_of_mem hp.plain (List.mem_filter.1 hmem).1
    cases h : isIdle s with
    | false => rfl
    | true => exact absurd (hidle.1 h) (by simpa using (List.mem_filter.1 hmem).2)
  have hsegs' := compiledFile_segments hsegs hne hs hup
  have hne' : className s ≠ [] := by
    rcases className_cases s with h | ⟨stem, h⟩ <;> simp [h, up]
  have hslash' : slash ∉ className s := slash_notMem_of_mem_segments (hsegs' ▸ List.mem_concat_self)
  have htext : p.compiledFile.text = unsegments pre ++ slash :: className s := by
    rw [← unsegments_segments p.compiledFile.text, hsegs', unsegments_append hne (by simp)]
    rfl
  refine ⟨?_, ?_, ?_, fun hsame => ?_⟩
  · rw [words, hsegs', List.filter_append, hpre]
    simp [hne']
  · refine endsWithSlash_of_getLast? hne' hslash' ?_
    obtain ⟨t, c, hc⟩ := List.eq_nil_or_concat (className s) |>.resolve_left hne'
    rw [htext, hc, List.concat_eq_append, ← List.cons_append, ← List.append_assoc, List.getLast?_concat,
      List.getLast?_concat]
  · rw [isAbsolute, htext]
    cases pre with
    | nil => exact absurd rfl hne
    | cons u pre =>
      obtain rfl : u = [] := by simpa using hhead
      cases pre <;> rfl
  · rw [hsame, ← hsegs] at hsegs'
    have htexts := congrArg unsegments hsegs'
    rw [unsegments_segments, unsegments_segments] at htexts
    exact congrArg Path.mk htexts

end SmaliBuild.Path
