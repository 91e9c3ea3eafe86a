import SmaliBuild.Proofs.Path.Parts
/-!
# Absolute spellings

Making a path absolute gives it a spelling of its own: one slash or two at the beginning, the words
with one slash between them, and at most one slash at the end.  Such a path is its own absolute
spelling.
-/
namespace SmaliBuild.Path
variable {p q d : Path} {s : Segment} {base : OsString} {ss : List Segment} {ends : Bool}

/-- The words `ss` behind `base`, with a slash at the end if one is asked for. -/
def spelled (base : OsString) (ss : List Segment) (ends : Bool) : Path :=
  ⟨if ends then extend (ss.foldl extend base) [] else ss.foldl extend base⟩

/-- A path as it is spelled once it was made absolute. -/
def Canonical (p : Path) : Prop :=
  ∃ base ss ends, (base = [slash] ∨ base = [slash, slash]) ∧
    (∀ s ∈ ss, slash ∉ s ∧ s ≠ [] ∧ s ≠ [dot]) ∧ p = spelled base ss ends

theorem exists_foldl_extend (ss : List Segment) (t : OsString) :
    ∃ tail, ss.foldl extend t = t ++ tail := by
  induction ss generalizing t with
  | nil => exact ⟨[], (List.append_nil t).symm⟩
  | cons s ss ih =>
    obtain ⟨tail, htail⟩ := ih (extend t s)
    rw [List.foldl_cons, htail]
    unfold extend
    split
    · exact ⟨s ++ tail, List.append_assoc t s tail⟩
    · exact ⟨slash :: s ++ tail, List.append_assoc t (slash :: s) tail⟩

section
variable (hbase : base = [slash] ∨ base = [slash, slash])
include hbase

theorem getLast?_base : base.getLast? = some slash := by
  rcases hbase with rfl | rfl <;> rfl

theorem head?_base : base.head? = some slash := by
  rcases hbase with rfl | rfl <;> rfl

theorem foldl_extend_ne_nil : ss.foldl extend base ≠ [] := by
  obtain ⟨tail, htail⟩ := exists_foldl_extend ss base
  rw [htail]
  rcases hbase with rfl | rfl <;> simp

theorem spelled_nil : spelled base [] ends = ⟨base⟩ := by
  unfold spelled
  rw [List.foldl_nil, extend, if_pos (Or.inr (getLast?_base hbase)), List.append_nil, ite_self]

/-- Behind the slashes at the beginning there is no further one. -/
theorem exists_text (ends : Bool) (hss : ∀ s ∈ ss, slash ∉ s ∧ s ≠ [] ∧ s ≠ [dot]) :
    ∃ tail, (spelled base ss ends).text = base ++ tail ∧ tail.head? ≠ some slash := by
  cases ss with
  | nil => exact ⟨[], by rw [spelled_nil hbase, List.append_nil], by simp⟩
  | cons s ss =>
    obtain ⟨hs, hne, -⟩ := hss s List.mem_cons_self
    obtain ⟨c, s, rfl⟩ := List.exists_cons_of_ne_nil hne
    have hfirst : extend base (c :: s) = base ++ c :: s :=
      if_pos (Or.inr (getLast?_base hbase))
    obtain ⟨tail, htail⟩ := exists_foldl_extend (ss ++ if ends then [[]] else []) (base ++ c :: s)
    refine ⟨c :: s ++ tail, ?_, fun hc => hs ?_⟩
    · rw [← List.append_assoc, ← htail, ← hfirst, List.foldl_append]
      unfold spelled
      cases ends <;> rfl
    · rw [Option.some.inj hc]
      exact List.mem_cons_self

theorem startsWithTwoSlashes_spelled (hss : ∀ s ∈ ss, slash ∉ s ∧ s ≠ [] ∧ s ≠ [dot]) :
    (spelled base ss ends).startsWithTwoSlashes = (base == [slash, slash]) := by
  obtain ⟨tail, htail, hhead⟩ := exists_text hbase ends hss
  unfold startsWithTwoSlashes
  rw [htail]
  rcases hbase with rfl | rfl
  · cases tail with
    | nil => rfl
    | cons c tail => simpa using fun hc => absurd hc (by simpa using hhead)
  · cases tail with
    | nil => rfl
    | cons c tail => simpa using hhead

theorem isAbsolute_spelled : (spelled base ss ends).isAbsolute = true := by
  have hhead : (ss.foldl extend base).head? = some slash := by
    rw [head?_foldl_extend (by rcases hbase with rfl | rfl <;> simp), head?_base hbase]
  unfold spelled isAbsolute
  split
  · rw [head?_extend (foldl_extend_ne_nil hbase), hhead]
    rfl
  · rw [hhead]
    rfl

theorem words_spelled (ends : Bool) (hss : ∀ s ∈ ss, slash ∉ s ∧ s ≠ [] ∧ s ≠ [dot]) :
    (spelled base ss ends).words = ss := by
  have hbody : words ⟨ss.foldl extend base⟩ = ss := by
    rw [words_foldl_extend fun s hs => ⟨(hss s hs).1, (hss s hs).2.1⟩]
    rcases hbase with rfl | rfl <;> rfl
  unfold spelled
  cases ends
  · exact hbody
  · rw [if_pos rfl, words_extend_nil, hbody]

theorem parts_spelled (hss : ∀ s ∈ ss, slash ∉ s ∧ s ≠ [] ∧ s ≠ [dot]) :
    (spelled base ss ends).parts = ss := by
  have hwords := words_spelled hbase ends hss
  rw [parts_eq_words, hwords]
  rw [hwords]
  exact fun hdot => (hss _ hdot).2.2 rfl

theorem spelled_endsWithSlash (hss : ∀ s ∈ ss, slash ∉ s ∧ s ≠ [] ∧ s ≠ [dot]) :
    spelled base ss (spelled base ss ends).endsWithSlash = spelled base ss ends := by
  rcases List.eq_nil_or_concat ss with rfl | ⟨before, s, rfl⟩
  · rw [spelled_nil hbase, spelled_nil hbase]
  · rw [List.concat_eq_append] at hss ⊢
    obtain ⟨hs, hne, -⟩ := hss s (by simp)
    have hlast : ((before ++ [s]).foldl extend base).getLast? = s.getLast? := by
      rw [List.foldl_append, List.foldl_cons, List.foldl_nil, getLast?_extend hne]
    have hnone : (spelled base (before ++ [s]) false).endsWithSlash = false :=
      endsWithSlash_of_getLast? hne hs hlast
    cases ends
    · rw [hnone]
    · have hadd : extend ((before ++ [s]).foldl extend base) [] =
          (before ++ [s]).foldl extend base ++ [slash] := by
        refine if_neg ?_
        rintro (hnil | hslash)
        · exact foldl_extend_ne_nil hbase hnil
        · have hends : (spelled base (before ++ [s]) false).endsWithSlash = true := by
            unfold endsWithSlash spelled
            simpa using hslash
          cases hnone.symm.trans hends
      have hends : (spelled base (before ++ [s]) true).endsWithSlash = true := by
        unfold endsWithSlash spelled
        simp only [if_true, hadd, List.getLast?_concat]
        rfl
      rw [hends]

end

theorem absolute_eq_spelled (hne : p.text ≠ []) (d : Path) : p.absolute d =
    .ok (spelled (if p.startsWithTwoSlashes then [slash, slash] else if p.isAbsolute then [slash]
      else d.text) p.parts p.endsWithSlash) := by
  unfold absolute
  rw [if_neg hne]
  rfl

theorem Canonical.absolute_eq (hp : p.Canonical) (d : Path) : p.absolute d = .ok p := by
  obtain ⟨base, ss, ends, hbase, hss, rfl⟩ := hp
  obtain ⟨tail, htail, -⟩ := exists_text hbase ends hss
  have hne : (spelled base ss ends).text ≠ [] := by
    rw [htail]
    rcases hbase with rfl | rfl <;> simp
  have hstart : (if (spelled base ss ends).startsWithTwoSlashes then [slash, slash]
      else if (spelled base ss ends).isAbsolute then [slash] else d.text) = base := by
    rw [startsWithTwoSlashes_spelled hbase hss, isAbsolute_spelled hbase, if_pos rfl]
    rcases hbase with rfl | rfl <;> rfl
  rw [absolute_eq_spelled hne, hstart, parts_spelled hbase hss]
  exact congrArg Except.ok (spelled_endsWithSlash hbase hss)

theorem path_eq_spelled (l : Location) :
    l.path = spelled [slash] (l.reverse.map (·.bytes)) false := by
  cases l with
  | nil => rfl
  | cons n l =>
    induction l generalizing n with
    | nil => simp [Location.path, spelled, extend]
    | cons m l ih =>
      have htext : (Location.path (n :: m :: l)).text = (Location.path (m :: l)).text ++ slash :: n.bytes := by
        simp [Location.path]
      have hslash : (Location.path (m :: l)).text.getLast? ≠ some slash := by
        rw [ih m]
        simp only [spelled, Bool.false_eq_true, if_false, List.reverse_cons, List.map_append, List.map_cons,
          List.map_nil, List.foldl_append, List.foldl_cons, List.foldl_nil]
        rw [getLast?_extend m.bytes_ne_nil]
        exact fun hlast => m.slash_notMem_bytes (List.mem_of_getLast? hlast)
      have hne : (Location.path (m :: l)).text ≠ [] := by simp [Location.path]
      have hlast : extend (Location.path (m :: l)).text n.bytes =
          (Location.path (m :: l)).text ++ slash :: n.bytes :=
        if_neg (not_or.2 ⟨hne, hslash⟩)
      have hbody := congrArg Path.text (ih m)
      simp only [spelled, Bool.false_eq_true, if_false] at hbody ⊢
      rw [List.reverse_cons, List.map_append, List.foldl_append, ← hbody]
      exact congrArg Path.mk (htext.trans hlast.symm)

theorem words_of_location {l : Location} {s : Segment} (hs : s ∈ l.reverse.map (·.bytes)) :
    slash ∉ s ∧ s ≠ [] ∧ s ≠ [dot] := by
  obtain ⟨n, -, rfl⟩ := List.mem_map.1 hs
  exact ⟨n.slash_notMem_bytes, n.bytes_ne_nil, n.bytes_ne_dot⟩

/-- The absolute spelling of a path begins with two slashes if the path begins with just these. -/
theorem exists_spelled_of_absolute {l : Location} (h : p.absolute l.path = .ok q) :
    ∃ ss, (∀ s ∈ ss, slash ∉ s ∧ s ≠ [] ∧ s ≠ [dot]) ∧
      q = spelled (if p.startsWithTwoSlashes then [slash, slash] else [slash]) ss p.endsWithSlash := by
  have hparts {s : Segment} (hs : s ∈ p.parts) : slash ∉ s ∧ s ≠ [] ∧ s ≠ [dot] := mem_parts hs
  have hne : p.text ≠ [] := by
    intro hnil
    rw [absolute, if_pos hnil] at h
    cases h
  rw [absolute_eq_spelled hne] at h
  rw [← Except.ok.inj h]
  by_cases htwo : p.startsWithTwoSlashes = true
  · rw [if_pos htwo, if_pos htwo]
    exact ⟨p.parts, fun s hs => hparts hs, rfl⟩
  rw [if_neg htwo, if_neg htwo]
  by_cases habs : p.isAbsolute = true
  · rw [if_pos habs]
    exact ⟨p.parts, fun s hs => hparts hs, rfl⟩
  · rw [if_neg habs]
    refine ⟨l.reverse.map (·.bytes) ++ p.parts, fun s hs => ?_, ?_⟩
    · exact (List.mem_append.1 hs).elim words_of_location hparts
    · rw [path_eq_spelled]
      simp only [spelled, Bool.false_eq_true, if_false, List.foldl_append]

theorem canonical_of_absolute {l : Location} (h : p.absolute l.path = .ok q) : q.Canonical := by
  obtain ⟨ss, hss, rfl⟩ := exists_spelled_of_absolute h
  refine ⟨_, ss, p.endsWithSlash, ?_, hss, rfl⟩
  cases p.startsWithTwoSlashes
  · exact Or.inl rfl
  · exact Or.inr rfl

theorem startsWithTwoSlashes_of_absolute {l : Location} (h : p.absolute l.path = .ok q) :
    q.startsWithTwoSlashes = p.startsWithTwoSlashes := by
  obtain ⟨ss, hss, rfl⟩ := exists_spelled_of_absolute h
  cases htwo : p.startsWithTwoSlashes
  · exact startsWithTwoSlashes_spelled (Or.inl rfl) hss
  · exact startsWithTwoSlashes_spelled (Or.inr rfl) hss

theorem Canonical.regular (hp : p.Canonical) : p.Regular := by
  obtain ⟨base, ss, ends, hbase, hss, rfl⟩ := hp
  refine ⟨isAbsolute_spelled hbase, ?_⟩
  rw [words_spelled hbase ends hss]
  exact fun hdot => (hss _ hdot).2.2 rfl

theorem Canonical.text_of_words_nil (hp : p.Canonical) (hw : p.words = []) :
    p.text = [slash] ∨ p.text = [slash, slash] := by
  obtain ⟨base, ss, ends, hbase, hss, rfl⟩ := hp
  rw [words_spelled hbase ends hss] at hw
  rw [hw, spelled_nil hbase]
  exact hbase

end SmaliBuild.Path
