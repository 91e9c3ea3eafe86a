import SmaliBuild.Proofs.Input.Places
/-!
# An accepted path given back

The path of an input that was accepted is spelled out once and for all.  Given back from whatever
directory, it names the same input.  A double quote behind it makes no difference if the path is text,
and is a part of the name if it is none.  The path as it was typed, put behind the working directory,
names the same input as well, unless the directory is no text and keeps the path from losing its quote.
-/
namespace SmaliBuild
namespace Path
variable {p q d : Path} {t : OsString} {s : Segment} {ss : List Segment}

/-! ## Slashes in a row -/

/-- No slash of a text has another one behind it. -/
def Separated (t : OsString) : Prop := t.IsChain fun a b => a = slash → b ≠ slash

theorem separated_of_notMem (h : slash ∉ t) : Separated t := by
  rw [Separated, List.isChain_iff_forall_rel_of_append_cons_cons]
  rintro a b before after rfl rfl
  simp at h

theorem Separated.extend (ht : Separated t) (hs : slash ∉ s) : Separated (extend t s) := by
  have hfirst {c : UInt8} (hc : c ∈ s.head?) : c ≠ slash := by
    rintro rfl
    exact hs (List.mem_of_mem_head? hc)
  unfold Path.extend
  split
  · exact List.isChain_append.2 ⟨ht, separated_of_notMem hs, fun a _ b hb _ => hfirst hb⟩
  · next hnone =>
    have hslash : Separated (slash :: s) := by
      cases s with
      | nil => exact List.isChain_singleton slash
      | cons c s => exact List.isChain_cons_cons.2 ⟨fun _ => hfirst rfl, separated_of_notMem hs⟩
    refine List.isChain_append.2 ⟨ht, hslash, fun a ha b _ => ?_⟩
    rintro rfl
    exact absurd (Or.inr ha) hnone

theorem Separated.foldl_extend (ht : Separated t) (hss : ∀ s ∈ ss, slash ∉ s) :
    Separated (ss.foldl Path.extend t) := by
  induction ss generalizing t with
  | nil => exact ht
  | cons s ss ih =>
    rw [List.foldl_cons]
    apply ih
    · exact ht.extend (hss s List.mem_cons_self)
    · exact fun u hu => hss u (List.mem_cons_of_mem s hu)

theorem extend_cons (c : UInt8) (ht : t ≠ []) (s : Segment) :
    extend (c :: t) s = c :: extend t s := by
  obtain ⟨b, t, rfl⟩ := List.exists_cons_of_ne_nil ht
  simp only [extend, List.getLast?_cons_cons, reduceCtorEq, false_or]
  split <;> rfl

theorem extend_ne_nil (ht : t ≠ []) (s : Segment) : extend t s ≠ [] := by
  unfold extend
  split <;> simp [ht]

theorem foldl_extend_cons (c : UInt8) (ht : t ≠ []) (ss : List Segment) :
    ss.foldl extend (c :: t) = c :: ss.foldl extend t := by
  induction ss generalizing t with
  | nil => rfl
  | cons s ss ih => rw [List.foldl_cons, List.foldl_cons, extend_cons c ht, ih (extend_ne_nil ht s)]

theorem spelled_two_slashes (ss : List Segment) (ends : Bool) :
    (spelled [slash, slash] ss ends).text = slash :: (spelled [slash] ss ends).text := by
  have hone : ss.foldl extend [slash] ≠ [] := foldl_extend_ne_nil (Or.inl rfl)
  unfold spelled
  cases ends
  · exact foldl_extend_cons slash (by simp) ss
  · simp only [if_true, foldl_extend_cons slash (List.cons_ne_nil slash []), extend_cons slash hone]

theorem separated_spelled (hss : ∀ s ∈ ss, slash ∉ s) (ends : Bool) :
    Separated (spelled [slash] ss ends).text := by
  have hbody : Separated (ss.foldl Path.extend [slash]) :=
    Separated.foldl_extend (List.isChain_singleton slash) hss
  unfold spelled
  cases ends
  · exact hbody
  · exact hbody.extend List.not_mem_nil

theorem not_separated (before after : OsString) : ¬ Separated (before ++ slash :: slash :: after) := by
  intro h
  exact (List.isChain_append_cons_cons.1 h).2.1 rfl rfl

/-- In an absolute spelling a slash has another one behind it only at the beginning, and then the path
begins with just these two. -/
theorem Canonical.eq_nil_of_slashes {before after : OsString} (hp : p.Canonical)
    (htext : p.text = before ++ slash :: slash :: after) :
    before = [] ∧ p.startsWithTwoSlashes = true := by
  obtain ⟨base, ss, ends, hbase, hss, rfl⟩ := hp
  have hone : Separated (spelled [slash] ss ends).text :=
    separated_spelled (fun s hs => (hss s hs).1) ends
  rw [startsWithTwoSlashes_spelled hbase hss]
  rcases hbase with rfl | rfl
  · rw [htext] at hone
    exact absurd hone (not_separated before after)
  · rw [spelled_two_slashes] at htext
    cases before with
    | nil => exact ⟨rfl, rfl⟩
    | cons c before =>
      rw [(List.cons.inj htext).2] at hone
      exact absurd hone (not_separated before after)

theorem Canonical.dot_notMem (hp : p.Canonical) : [dot] ∉ segments p.text := by
  intro hdot
  exact hp.regular.plain (List.mem_filter.2 ⟨hdot, by simp⟩)

/-! ## A double quote at the end -/

theorem withoutTrailingQuote_of_not
    (h : ¬ (Text.isText p.text = true ∧ p.text.getLast? = some doubleQuote)) :
    p.withoutTrailingQuote = p :=
  if_neg h

theorem withoutTrailingQuote_of_ne (h : p.text.getLast? ≠ some doubleQuote) :
    p.withoutTrailingQuote = p :=
  withoutTrailingQuote_of_not fun hquote => h hquote.2

theorem withoutTrailingQuote_of_isText (h : Text.isText p.text = false) :
    p.withoutTrailingQuote = p :=
  withoutTrailingQuote_of_not fun hquote => absurd hquote.1 (by simp [h])

theorem isText_quoted : Text.isText (t ++ [doubleQuote]) = true ↔ Text.isText t = true := by
  rw [Text.isText_append_cons (by decide)]
  exact and_iff_left Text.isText_nil

theorem withoutTrailingQuote_concat (ht : Text.isText t = true) :
    withoutTrailingQuote ⟨t ++ [doubleQuote]⟩ = ⟨t⟩ := by
  unfold withoutTrailingQuote
  rw [if_pos ⟨isText_quoted.2 ht, List.getLast?_concat⟩, List.dropLast_concat]

theorem quote_cases (p : Path) :
    p.withoutTrailingQuote = p ∨
      Text.isText p.text = true ∧ p.text = p.withoutTrailingQuote.text ++ [doubleQuote] := by
  by_cases h : Text.isText p.text = true ∧ p.text.getLast? = some doubleQuote
  · obtain ⟨htext, hlast⟩ := h
    obtain ⟨t, ht⟩ := List.getLast?_eq_some_iff.1 hlast
    have hp : p = ⟨t ++ [doubleQuote]⟩ := congrArg Path.mk ht
    rw [hp] at htext ⊢
    rw [withoutTrailingQuote_concat (isText_quoted.1 htext)]
    exact Or.inr ⟨htext, rfl⟩
  · exact Or.inl (withoutTrailingQuote_of_not h)

theorem startsWithTwoSlashes_withoutTrailingQuote (p : Path) :
    p.withoutTrailingQuote.startsWithTwoSlashes = p.startsWithTwoSlashes := by
  rcases p.quote_cases with hp | ⟨-, hp⟩
  · rw [hp]
  · unfold startsWithTwoSlashes
    rw [hp]
    match p.withoutTrailingQuote.text with
    | [] => rfl
    | [a] =>
      have hquote : doubleQuote ≠ slash := by decide
      simp [hquote]
    | [a, b] => simp only [List.cons_append, List.nil_append, List.take, List.getElem?_cons_succ,
        List.getElem?_nil, List.getElem?_cons_zero]; rfl
    | a :: b :: c :: t => rfl

theorem isAbsolute_withoutTrailingQuote (hp : p.isAbsolute = false) :
    p.withoutTrailingQuote.isAbsolute = false := by
  rcases p.quote_cases with hquote | ⟨-, hquote⟩
  · rwa [hquote]
  · unfold isAbsolute at hp ⊢
    rw [hquote] at hp
    cases ht : p.withoutTrailingQuote.text with
    | nil => rfl
    | cons c t =>
      rw [ht] at hp
      exact hp

/-! ## Joining a relative path -/

theorem join_of_relative (hq : q.isAbsolute = false) : p.join q = ⟨extend p.text q.text⟩ := by
  rw [join, hq]
  exact if_neg Bool.false_ne_true

theorem isAbsolute_append (hp : p.isAbsolute = true) (u : OsString) :
    isAbsolute ⟨p.text ++ u⟩ = true := by
  unfold isAbsolute at hp ⊢
  rw [List.head?_append, eq_of_beq hp]
  rfl

theorem extend_append (t u v : OsString) : extend t (u ++ v) = extend t u ++ v := by
  unfold extend
  split <;> simp

theorem isText_extend {u : OsString} :
    Text.isText (extend t u) = true ↔ Text.isText t = true ∧ Text.isText u = true := by
  have hslash : slash < 0x80 := by decide
  have hnil := Text.isText_nil
  unfold extend
  split
  · next h =>
    rcases h with rfl | h
    · rw [List.nil_append, hnil, eq_self, true_and]
    · obtain ⟨v, rfl⟩ := eq_append_slash_of_getLast? h
      rw [List.append_assoc, List.singleton_append, Text.isText_append_cons hslash,
        Text.isText_append_cons hslash, hnil, eq_self, and_true]
  · exact Text.isText_append_cons hslash

/-- The quote behind a path that is joined is the one behind the path, unless that is nothing else.
It is not dropped if what the path is joined to is no text. -/
theorem withoutTrailingQuote_join (hq : q.isAbsolute = false)
    (hne : q.withoutTrailingQuote.text ≠ []) :
    (p.join q).withoutTrailingQuote =
      if Text.isText p.text = true then p.join q.withoutTrailingQuote else p.join q := by
  rw [join_of_relative hq, join_of_relative (isAbsolute_withoutTrailingQuote hq)]
  by_cases hp : Text.isText p.text = true
  · rw [if_pos hp]
    rcases q.quote_cases with hquote | ⟨htext, hquote⟩
    · rw [hquote] at hne ⊢
      apply withoutTrailingQuote_of_not
      rintro ⟨htext, hlast⟩
      rw [getLast?_extend hne] at hlast
      have hdrop : q.withoutTrailingQuote.text = q.text.dropLast :=
        congrArg Path.text (if_pos ⟨(isText_extend.1 htext).2, hlast⟩)
      rw [hquote] at hdrop
      have hlength := congrArg List.length hdrop
      have hpos := List.length_pos_of_ne_nil hne
      rw [List.length_dropLast] at hlength
      omega
    · have hstripped : Text.isText q.withoutTrailingQuote.text = true := by
        rwa [hquote, isText_quoted] at htext
      rw [hquote, extend_append, withoutTrailingQuote_concat (isText_extend.2 ⟨hp, hstripped⟩)]
  · rw [if_neg hp]
    exact withoutTrailingQuote_of_not fun htext => hp (isText_extend.1 htext.1).1

theorem parts_extend (t u : OsString) : parts ⟨extend t u⟩ = parts ⟨t⟩ ++ parts ⟨u⟩ := by
  unfold extend
  split
  · next h =>
    rcases h with rfl | h
    · rfl
    · obtain ⟨v, rfl⟩ := eq_append_slash_of_getLast? h
      simp [parts, segments_append_slash, segments, isIdle]
  · simp [parts, segments_append_slash]

theorem isAbsolute_of_startsWithTwoSlashes (hp : p.startsWithTwoSlashes = true) :
    p.isAbsolute = true := by
  unfold startsWithTwoSlashes at hp
  unfold isAbsolute
  cases ht : p.text with
  | nil => simp [ht] at hp
  | cons c t =>
    rw [ht, Bool.and_eq_true, beq_iff_eq] at hp
    obtain rfl : c = slash := (List.cons.inj hp.1).1
    rfl

theorem startsWithTwoSlashes_of_text (ht : p.text = slash :: t) (hslash : t.head? ≠ some slash) :
    p.startsWithTwoSlashes = false := by
  unfold startsWithTwoSlashes
  rw [ht]
  cases t with
  | nil => rfl
  | cons c t =>
    have hc : c ≠ slash := by simpa using hslash
    simp [hc]

theorem startsWithTwoSlashes_join (l : Location) (hq : q.isAbsolute = false) :
    (l.path.join q).startsWithTwoSlashes = false := by
  obtain ⟨t, ht, hslash⟩ :=
    exists_text (Or.inl rfl) false fun s => words_of_location (l := l) (s := s)
  have hhead : q.text.head? ≠ some slash := by simpa [isAbsolute] using hq
  rw [join_of_relative hq, path_eq_spelled, ht]
  cases t with
  | nil => exact startsWithTwoSlashes_of_text rfl hhead
  | cons c t =>
    apply startsWithTwoSlashes_of_text (extend_cons slash (List.cons_ne_nil c t) q.text)
    rwa [head?_extend (List.cons_ne_nil c t)]

theorem parts_path (l : Location) : l.path.parts = l.reverse.map (·.bytes) := by
  rw [path_eq_spelled]
  exact parts_spelled (Or.inl rfl) fun s => words_of_location

theorem text_path_ne_nil (l : Location) : l.path.text ≠ [] := by
  rw [path_eq_spelled]
  exact foldl_extend_ne_nil (Or.inl rfl)

theorem isAbsolute_path_join (l : Location) (hq : q.isAbsolute = false) :
    (l.path.join q).isAbsolute = true := by
  rw [join_of_relative hq, isAbsolute, head?_extend (text_path_ne_nil l), path_eq_spelled]
  exact isAbsolute_spelled (Or.inl rfl)

theorem absolute_join {l : Location} (hq : q.isAbsolute = false) (hne : q.text ≠ []) (d : Path) :
    (l.path.join q).absolute d = q.absolute l.path := by
  have hnone : (l.path.join q).text ≠ [] := by
    rw [join_of_relative hq]
    exact extend_ne_nil (text_path_ne_nil l) q.text
  have hparts : (l.path.join q).parts = l.reverse.map (·.bytes) ++ q.parts := by
    rw [join_of_relative hq, parts_extend, ← parts_path]
  have hends : (l.path.join q).endsWithSlash = q.endsWithSlash := by
    rw [join_of_relative hq, endsWithSlash, getLast?_extend hne]
    rfl
  have htwo : q.startsWithTwoSlashes = false := by
    cases htwo : q.startsWithTwoSlashes with
    | false => rfl
    | true => cases hq.symm.trans (isAbsolute_of_startsWithTwoSlashes htwo)
  rw [absolute_eq_spelled hnone, absolute_eq_spelled hne, startsWithTwoSlashes_join l hq, htwo,
    isAbsolute_path_join l hq, hq, hends, hparts, path_eq_spelled]
  unfold spelled
  simp only [List.foldl_append, Bool.false_eq_true, if_false, if_true]

/-! ## Counting bytes -/

section
variable {c : UInt8} (hslash : c ≠ slash)
include hslash

theorem count_extend (t u : OsString) : (extend t u).count c = t.count c + u.count c := by
  unfold extend
  split
  · exact List.count_append
  · rw [List.count_append, List.count_cons_of_ne (Ne.symm hslash)]

theorem count_foldl_extend (ss : List Segment) (t : OsString) :
    (ss.foldl extend t).count c = t.count c + ss.flatten.count c := by
  induction ss generalizing t with
  | nil => rfl
  | cons s ss ih =>
    rw [List.foldl_cons, ih, count_extend hslash, List.flatten_cons, List.count_append, Nat.add_assoc]

theorem count_segments (t : OsString) : (segments t).flatten.count c = t.count c := by
  induction t with
  | nil => rfl
  | cons b t ih =>
    obtain ⟨s, rest, hs⟩ := List.exists_cons_of_ne_nil (segments_ne_nil t)
    rw [segments]
    split
    · next hb =>
      rw [List.flatten_cons, List.nil_append, ih, hb, List.count_cons_of_ne (Ne.symm hslash)]
    · rw [hs, List.flatten_cons] at ih
      simp only [hs, List.flatten_cons, List.cons_append, List.count_cons, ih]

theorem count_parts (hdot : c ≠ dot) (p : Path) : p.parts.flatten.count c = p.text.count c := by
  rw [← count_segments hslash p.text, parts]
  induction segments p.text with
  | nil => rfl
  | cons s ss ih =>
    rw [List.filter_cons, List.flatten_cons, List.count_append]
    split
    · rw [List.flatten_cons, List.count_append, ih]
    · next hidle =>
      have hs : s.count c = 0 := by
        have hcases : s = [] ∨ s = [dot] := by simpa [isIdle, or_iff_not_imp_left] using hidle
        rcases hcases with rfl | rfl
        · rfl
        · exact List.count_eq_zero.2 fun hc => hdot (List.mem_singleton.1 hc)
      rw [ih, hs, Nat.zero_add]

/-- Making a path absolute that is so already keeps its bytes, but for slashes and dots. -/
theorem count_absolute (hdot : c ≠ dot) (hp : p.isAbsolute = true) (h : p.absolute d = .ok q) :
    q.text.count c = p.text.count c := by
  have hne : p.text ≠ [] := by
    intro hnil
    rw [absolute, if_pos hnil] at h
    cases h
  rw [absolute_eq_spelled hne, if_pos hp] at h
  rw [← Except.ok.inj h]
  have hbase : (if p.startsWithTwoSlashes = true then [slash, slash] else [slash]).count c = 0 := by
    refine List.count_eq_zero.2 fun hc => hslash ?_
    split at hc <;> simpa using hc
  have hbody : (p.parts.foldl extend
      (if p.startsWithTwoSlashes = true then [slash, slash] else [slash])).count c = p.text.count c := by
    rw [count_foldl_extend hslash, hbase, Nat.zero_add, count_parts hslash hdot]
  unfold spelled
  split
  · exact (count_extend hslash _ []).trans hbody
  · exact hbody

end

end Path

/-! ## Looking from elsewhere -/

theorem FileSystem.stat_of_isAbsolute {fs : FileSystem} {p : Path} (hp : p.isAbsolute = true)
    (d d' : Location) : fs.stat d p = fs.stat d' p := by
  unfold stat locate Path.start
  rw [if_pos hp, if_pos hp]

namespace Host
variable {h k : Host} {p q : Path}

theorem run_stat_elsewhere {e : Entry} (hp : p.isAbsolute = true)
    (he : (h.run (stat p)).1 = .ok e) (hfiles : k.files = h.files)
    (hquiet : k.faults k.made = none) : (k.run (stat p)).1 = .ok e := by
  rw [stat, run_look, hquiet, hfiles]
  exact (FileSystem.stat_of_isAbsolute hp k.directory h.directory).trans (run_look_ok he)

end Host

namespace Input
variable {t : Input} {typed : Path} {h h' k : Host}

/-- An input that was accepted is accepted again, and is the same, under every path that is spelled out
as its own. -/
theorem run_resolve_again {given p : Path} {e : Entry} (hentry : ofEntry p e = .ok t)
    (hp : p.isAbsolute = true) (he : (h.run (Host.stat p)).1 = .ok e) (hfiles : k.files = h.files)
    (hquiet : k.faults k.made = none)
    (hgiven : (k.run (Host.absolute given.withoutTrailingQuote)).1 = .ok p) :
    k.run (resolve given) = (.ok t, k.counted) := by
  rw [run_resolve hgiven (Host.run_stat_elsewhere hp he hfiles hquiet), hentry]

/-- A path that is accepted as it stands has as many double quotes as that of the input. -/
theorem count_of_resolve {given : Path} (hgiven : given.isAbsolute = true)
    (hkept : given.withoutTrailingQuote = given) (hok : k.run (resolve given) = (.ok t, k.counted)) :
    t.path.text.count doubleQuote = given.text.count doubleQuote := by
  obtain ⟨p, e, hp, -, hentry, -⟩ := resolve_eq_ok hok
  obtain ⟨rfl, -⟩ := ofEntry_eq_ok hentry
  rw [hkept] at hp
  exact Path.count_absolute (by decide) (by decide) hgiven (Host.run_absolute_ok hp)

section
variable {e : Entry} (hentry : ofEntry t.path e = .ok t) (he : (h.run (Host.stat t.path)).1 = .ok e)
variable (hfiles : k.files = h.files) (hquiet : k.faults k.made = none)
include hentry he hfiles hquiet

theorem resolve_quoted_iff (hp : t.path.Canonical) :
    k.run (resolve ⟨t.path.text ++ [doubleQuote]⟩) = (.ok t, k.counted) ↔
      Text.isText t.path.text = true := by
  have habs : t.path.isAbsolute = true := hp.regular.isAbsolute
  constructor
  · -- a quote that is kept is one more than the input has
    intro hagain
    by_contra htext
    have hkept : Path.withoutTrailingQuote ⟨t.path.text ++ [doubleQuote]⟩ = _ :=
      Path.withoutTrailingQuote_of_not fun hquote => htext (Path.isText_quoted.1 hquote.1)
    have hcount := count_of_resolve (Path.isAbsolute_append habs [doubleQuote]) hkept hagain
    simp at hcount
  · intro htext
    apply run_resolve_again hentry habs he hfiles hquiet
    rw [Path.withoutTrailingQuote_concat htext]
    exact run_absolute_of_canonical hp

theorem resolve_joined_iff (hrelative : typed.isAbsolute = false)
    (hspelled : typed.withoutTrailingQuote.absolute h.directory.path = .ok t.path) :
    k.run (resolve (h.directory.path.join typed)) = (.ok t, k.counted) ↔
      typed.withoutTrailingQuote = typed ∨ Text.isText h.directory.path.text = true := by
  have hne : typed.withoutTrailingQuote.text ≠ [] := by
    intro hnil
    rw [Path.absolute, if_pos hnil] at hspelled
    cases hspelled
  have hrelative' := Path.isAbsolute_withoutTrailingQuote hrelative
  have hjoined : (h.directory.path.join typed.withoutTrailingQuote).absolute k.directory.path =
      .ok t.path :=
    (Path.absolute_join hrelative' hne k.directory.path).trans hspelled
  have habsolute := Path.isAbsolute_path_join h.directory hrelative'
  have hdrop := Path.withoutTrailingQuote_join (p := h.directory.path) hrelative hne
  constructor
  · -- here the quote that is kept is the one that the typed path loses
    intro hagain
    by_contra hnot
    obtain ⟨hlost, htext⟩ := not_or.1 hnot
    rw [if_neg htext] at hdrop
    have hcount := count_of_resolve (Path.isAbsolute_path_join h.directory hrelative) hdrop hagain
    rw [Path.count_absolute (by decide) (by decide) habsolute hjoined] at hcount
    obtain ⟨-, hquote⟩ := typed.quote_cases.resolve_left hlost
    rw [Path.join_of_relative hrelative, Path.join_of_relative hrelative',
      Path.count_extend (by decide), Path.count_extend (by decide), hquote] at hcount
    simp at hcount
  · intro hkept
    have hsame : (h.directory.path.join typed).withoutTrailingQuote =
        h.directory.path.join typed.withoutTrailingQuote := by
      rw [hdrop]
      split
      · rfl
      · next htext => rw [hkept.resolve_right htext]
    have habs : t.path.isAbsolute = true :=
      (Path.canonical_of_absolute hspelled).regular.isAbsolute
    apply run_resolve_again hentry habs he hfiles hquiet
    rw [hsame]
    exact Host.run_absolute_of_isAbsolute habsolute hjoined

end

/-- Resolution is stable, but for a quote behind what is no text.  The path of an accepted input is
absolute, has no single dot in it and no slash behind another, except that it begins with just two if
the typed path does.  As long as the files are the same, it names that input from every directory,
unless it ends in a double quote.  With a double quote behind it, it names the input exactly if it is
text.  So does a relative path behind the directory that it was typed in, unless it lost a quote and
that directory is no text. -/
theorem resolve_stable (hok : h.run (resolve typed) = (.ok t, h')) :
    t.path.isAbsolute = true ∧ [dot] ∉ Path.segments t.path.text ∧
      (∀ before after, t.path.text = before ++ slash :: slash :: after →
        before = [] ∧ typed.startsWithTwoSlashes = true) ∧
      t.path.startsWithTwoSlashes = typed.startsWithTwoSlashes ∧
      ∀ k : Host, k.files = h.files → k.faults k.made = none →
        (t.path.text.getLast? ≠ some doubleQuote → k.run (resolve t.path) = (.ok t, k.counted)) ∧
        (k.run (resolve ⟨t.path.text ++ [doubleQuote]⟩) = (.ok t, k.counted) ↔
          Text.isText t.path.text = true) ∧
        (typed.isAbsolute = false →
          (k.run (resolve (h.directory.path.join typed)) = (.ok t, k.counted) ↔
            typed.withoutTrailingQuote = typed ∨ Text.isText h.directory.path.text = true)) := by
  obtain ⟨p, e, hp, he, hentry, -⟩ := resolve_eq_ok hok
  obtain ⟨rfl, -⟩ := ofEntry_eq_ok hentry
  have hcanonical : t.path.Canonical := canonical_of_run_absolute hp
  have habs : t.path.isAbsolute = true := hcanonical.regular.isAbsolute
  have hspelled := Host.run_absolute_ok hp
  have htwo : t.path.startsWithTwoSlashes = typed.startsWithTwoSlashes := by
    rw [Path.startsWithTwoSlashes_of_absolute hspelled, Path.startsWithTwoSlashes_withoutTrailingQuote]
  refine ⟨habs, hcanonical.dot_notMem, ?_, htwo, fun k hfiles hquiet => ⟨?_, ?_, ?_⟩⟩
  · intro before after htext
    rw [← htwo]
    exact hcanonical.eq_nil_of_slashes htext
  · intro hlast
    apply run_resolve_again hentry habs he hfiles hquiet
    rw [Path.withoutTrailingQuote_of_ne hlast]
    exact run_absolute_of_canonical hcanonical
  · exact resolve_quoted_iff hentry he hfiles hquiet hcanonical
  · exact fun hrelative => resolve_joined_iff hentry he hfiles hquiet hrelative hspelled

/-! ## A source file in the working directory -/

def nestedDirectory : Name := ⟨.ofString "work", by decide⟩

def nestedFile : Name := ⟨.ofString "Inner.java", by decide⟩

def nestedFiles : FileSystem where
  entries := [([nestedDirectory], .directory), ([nestedFile, nestedDirectory], .file [] false)]
  unique := by decide
  rooted := by simp

/-- The source file as a shell may hand it over. -/
def nestedTyped : Path := .ofString ".//Inner.java\""

def nestedInput : Input := .sourceFile (.ofString "/work/Inner.java")

theorem resolve_nested : (Host.sound nestedFiles [nestedDirectory]).run (resolve nestedTyped) =
    (.ok nestedInput, (Host.sound nestedFiles [nestedDirectory]).counted) := by
  have habsolute : ((Host.sound nestedFiles [nestedDirectory]).run
      (Host.absolute nestedTyped.withoutTrailingQuote)).1 = .ok nestedInput.path := by cbv
  have hstat : ((Host.sound nestedFiles [nestedDirectory]).run (Host.stat nestedInput.path)).1 =
      .ok (.file [] false) := by cbv
  have hne : nestedInput.path.compiledFile ≠ nestedInput.path := by
    rw [show nestedInput.path.compiledFile = .ofString "/work/Inner.class" by cbv]
    decide
  rw [run_resolve habsolute hstat, ofEntry, if_neg (by decide), if_neg hne]
  rfl

/-- Seen from the root, the source file is named by the directory that it was typed in and what was
typed there. -/
theorem resolve_stable_nested :
    let h := Host.sound nestedFiles [nestedDirectory]
    let k := Host.sound nestedFiles []
    h.run (resolve nestedTyped) = (.ok nestedInput, h.counted) ∧
      h.directory.path.join nestedTyped = .ofString "/work/.//Inner.java\"" ∧
      k.run (resolve (.ofString "/work/.//Inner.java\"")) = (.ok nestedInput, k.counted) := by
  have hjoin : (Host.sound nestedFiles [nestedDirectory]).directory.path.join nestedTyped =
      .ofString "/work/.//Inner.java\"" := by cbv
  obtain ⟨-, -, -, -, hagain⟩ := resolve_stable resolve_nested
  obtain ⟨-, -, hjoined⟩ := hagain (Host.sound nestedFiles []) rfl rfl
  have htext : Text.isText (Location.path [nestedDirectory]).text = true :=
    Text.isText_iff.2 ⟨"/work".toList, by cbv⟩
  refine ⟨resolve_nested, hjoin, ?_⟩
  rw [← hjoin]
  exact (hjoined (by cbv)).2 (Or.inr htext)

/-! ## A name that is no text -/

def obscureFiles : FileSystem where
  entries := [([.obscure], .file [] false)]
  unique := by decide
  rooted := by simp

def obscurePath : Path := ⟨slash :: Name.obscure.bytes⟩

theorem isText_obscurePath : Text.isText obscurePath.text = false := by cbv

theorem resolve_obscure : (Host.sound obscureFiles []).run (resolve obscurePath) =
    (.ok (.sourceFile obscurePath), (Host.sound obscureFiles []).counted) := by
  have hne : obscurePath.compiledFile ≠ obscurePath := by
    rw [show obscurePath.compiledFile = ⟨slash :: 0xFF :: OsString.ofString ".class"⟩ by cbv]
    decide
  have habsolute : ((Host.sound obscureFiles []).run
      (Host.absolute obscurePath.withoutTrailingQuote)).1 = .ok obscurePath := by
    rw [Path.withoutTrailingQuote_of_isText isText_obscurePath]
    cbv
  have hstat : ((Host.sound obscureFiles []).run (Host.stat obscurePath)).1 =
      .ok (.file [] false) := by cbv
  rw [run_resolve habsolute hstat, ofEntry, if_neg (by decide), if_neg hne]

/-- The quote behind a name that is no text is looked for as a part of it. -/
theorem resolve_keeps_quote :
    let h := Host.sound obscureFiles []
    let quoted : Path := ⟨obscurePath.text ++ [doubleQuote]⟩
    (h.run (resolve obscurePath)).1 = .ok (.sourceFile obscurePath) ∧
      obscurePath.text.getLast? ≠ some doubleQuote ∧
      (h.run (resolve quoted)).1 = .error (.inputNotFound quoted) := by
  refine ⟨congrArg Prod.fst resolve_obscure, by decide, ?_⟩
  have hkept : Path.withoutTrailingQuote ⟨obscurePath.text ++ [doubleQuote]⟩ =
      ⟨obscurePath.text ++ [doubleQuote]⟩ :=
    Path.withoutTrailingQuote_of_not fun hquote => by
      rw [Path.isText_quoted, isText_obscurePath] at hquote
      cases hquote.1
  unfold resolve
  rw [hkept]
  cbv

end Input
end SmaliBuild
