import Mathlib
import SmaliBuild.Files.Resolve
/-!
# The segments of a path that was put together

Cutting a text at its slashes undoes joining segments with slashes.  `Path.words` are the segments
that a look-up meets, and putting an entry's name or a fixed name behind a path puts one word behind
its words.
-/
namespace SmaliBuild

namespace Name

theorem eq_of_bytes {n m : Name} (h : n.bytes = m.bytes) : n = m := by
  cases n
  cases m
  simp_all

theorem slash_notMem_bytes (n : Name) : slash ∉ n.bytes := by
  have := n.proper
  simp only [isProperName, Bool.and_eq_true, Bool.not_eq_true', List.contains_eq_mem,
    decide_eq_false_iff_not] at this
  exact this.1.2

theorem bytes_ne_dot (n : Name) : n.bytes ≠ [dot] := by
  have := n.proper
  simp only [isProperName, Bool.and_eq_true, bne_iff_ne] at this
  exact this.1.1.1.2

theorem bytes_ne_up (n : Name) : n.bytes ≠ Path.up := by
  have := n.proper
  simp only [isProperName, Bool.and_eq_true, bne_iff_ne] at this
  exact this.1.1.2

/-- The name of a source file that is no text. -/
def obscure : Name := ⟨0xFF :: OsString.ofString ".java", by decide⟩

end Name

namespace Path

/-- The segments of a path that are not empty. -/
def words (p : Path) : List Segment := (segments p.text).filter (· ≠ [])

theorem steps_eq (p : Path) :
    p.steps = p.words ++ if p.endsWithSlash then [[dot]] else [] := rfl

/-! ## Cutting -/

theorem segments_of_notMem {s : OsString} (h : slash ∉ s) : segments s = [s] := by
  induction s with
  | nil => rfl
  | cons c cs ih =>
    simp only [List.mem_cons, not_or] at h
    rw [segments, if_neg (Ne.symm h.1), ih h.2]

theorem segments_append_slash (t s : OsString) :
    segments (t ++ slash :: s) = segments t ++ segments s := by
  induction t with
  | nil => simp [segments]
  | cons c cs ih =>
    rw [List.cons_append, segments, segments, ih]
    split
    · rfl
    · obtain ⟨u, rest, hu⟩ := List.exists_cons_of_ne_nil (segments_ne_nil cs)
      simp [hu]

theorem segments_slash_end (t : OsString) : segments (t ++ [slash]) = segments t ++ [[]] :=
  segments_append_slash t []

theorem segments_unsegments {ss : List Segment} (hne : ss ≠ []) (h : ∀ s ∈ ss, slash ∉ s) :
    segments (unsegments ss) = ss := by
  induction ss with
  | nil => exact absurd rfl hne
  | cons s rest ih =>
    cases rest with
    | nil => exact segments_of_notMem (h s (by simp))
    | cons s' rest =>
      rw [unsegments, segments_append_slash, segments_of_notMem (h s (by simp)),
        ih (by simp) fun u hu => h u (by simp_all)]
      · rfl
      · simp

theorem unsegments_append {ss ts : List Segment} (hs : ss ≠ []) (ht : ts ≠ []) :
    unsegments (ss ++ ts) = unsegments ss ++ slash :: unsegments ts := by
  induction ss with
  | nil => exact absurd rfl hs
  | cons s rest ih =>
    cases rest with
    | nil =>
      obtain ⟨t, ts, rfl⟩ := List.exists_cons_of_ne_nil ht
      rfl
    | cons s' rest =>
      simp only [List.cons_append, unsegments, List.append_assoc] at ih ⊢
      rw [ih (by simp)]

theorem mem_of_mem_segments {t : OsString} {s : Segment} {c : UInt8} (hs : s ∈ segments t)
    (hc : c ∈ s) : c ∈ t := by
  induction t generalizing s with
  | nil =>
    rw [segments, List.mem_singleton] at hs
    simp [hs] at hc
  | cons a t ih =>
    obtain ⟨u, rest, hu⟩ := List.exists_cons_of_ne_nil (segments_ne_nil t)
    rw [segments] at hs
    split at hs
    · rcases List.mem_cons.1 hs with rfl | hs
      · simp at hc
      · exact List.mem_cons_of_mem a (ih hs hc)
    · rw [hu] at hs
      rcases List.mem_cons.1 hs with rfl | hs
      · rcases List.mem_cons.1 hc with rfl | hc
        · exact List.mem_cons_self
        · exact List.mem_cons_of_mem a (ih (hu ▸ List.mem_cons_self) hc)
      · exact List.mem_cons_of_mem a (ih (hu ▸ List.mem_cons_of_mem u hs) hc)

/-! ## Putting a name behind a path -/

theorem mem_of_mem_extend {t : OsString} {s : Segment} {c : UInt8} (hc : c ∈ extend t s) :
    c ∈ t ∨ c = slash ∨ c ∈ s := by
  unfold extend at hc
  split at hc
  · exact (List.mem_append.1 hc).imp_right Or.inr
  · simpa using hc

theorem eq_append_slash_of_getLast? {t : OsString} (h : t.getLast? = some slash) :
    ∃ u, t = u ++ [slash] := by
  obtain ⟨u, hu⟩ := List.getLast?_eq_some_iff.1 h
  exact ⟨u, hu⟩

theorem segments_extend_filter {t : OsString} {s : Segment} (hs : slash ∉ s) (hne : s ≠ []) :
    (segments (extend t s)).filter (· ≠ []) = (segments t).filter (· ≠ []) ++ [s] := by
  unfold extend
  split
  · next h =>
    rcases h with rfl | h
    · simp [segments_of_notMem hs, segments, hne]
    · obtain ⟨u, rfl⟩ := eq_append_slash_of_getLast? h
      rw [List.append_assoc, List.cons_append, List.nil_append, segments_append_slash,
        segments_slash_end, segments_of_notMem hs]
      simp [hne]
  · rw [segments_append_slash, segments_of_notMem hs]
    simp [hne]

theorem getLast?_extend {t : OsString} {s : Segment} (hne : s ≠ []) :
    (extend t s).getLast? = s.getLast? := by
  unfold extend
  obtain ⟨u, c, rfl⟩ := List.eq_nil_or_concat s |>.resolve_left hne
  rw [List.concat_eq_append]
  split
  · rw [← List.append_assoc, List.getLast?_concat, List.getLast?_concat]
  · rw [← List.cons_append, ← List.append_assoc, List.getLast?_concat, List.getLast?_concat]

theorem head?_extend {t : OsString} {s : Segment} (ht : t ≠ []) :
    (extend t s).head? = t.head? := by
  unfold extend
  obtain ⟨c, cs, rfl⟩ := List.exists_cons_of_ne_nil ht
  split <;> rfl

theorem words_entry (p : Path) (n : Name) : (p.entry n.bytes).words = p.words ++ [n.bytes] :=
  segments_extend_filter n.slash_notMem_bytes n.bytes_ne_nil

theorem endsWithSlash_of_getLast? {p : Path} {s : Segment} (hne : s ≠ []) (hs : slash ∉ s)
    (h : p.text.getLast? = s.getLast?) : p.endsWithSlash = false := by
  rw [endsWithSlash, h, beq_eq_false_iff_ne]
  intro hl
  obtain ⟨u, rfl⟩ := eq_append_slash_of_getLast? hl
  exact hs (by simp)

theorem endsWithSlash_entry (p : Path) (n : Name) : (p.entry n.bytes).endsWithSlash = false :=
  endsWithSlash_of_getLast? n.bytes_ne_nil n.slash_notMem_bytes (getLast?_extend n.bytes_ne_nil)

theorem steps_entry (p : Path) (n : Name) : (p.entry n.bytes).steps = p.words ++ [n.bytes] := by
  rw [steps_eq, words_entry, endsWithSlash_entry]
  simp

theorem isAbsolute_entry (p : Path) (n : Name) :
    (p.entry n.bytes).isAbsolute = p.isAbsolute := by
  unfold isAbsolute entry
  by_cases hp : p.text = []
  · obtain ⟨c, cs, hc⟩ := List.exists_cons_of_ne_nil n.bytes_ne_nil
    have hn : c ≠ slash := fun h => n.slash_notMem_bytes (by simp [hc, h])
    simp [hp, extend, hc, hn]
  · rw [head?_extend hp]

theorem start_entry (d : Location) (p : Path) (n : Name) :
    (p.entry n.bytes).start d = p.start d := by
  rw [start, start, isAbsolute_entry]

theorem isAbsolute_of_words_nil {p : Path} (ht : p.text ≠ []) (hw : p.words = []) :
    p.isAbsolute = true := by
  obtain ⟨c, cs, hc⟩ := List.exists_cons_of_ne_nil ht
  by_cases hslash : c = slash
  · rw [isAbsolute, hc, hslash]
    rfl
  · have hmem : ∃ s, c :: s ∈ segments p.text := by
      rw [hc, segments, if_neg hslash]
      split <;> simp
    obtain ⟨s, hs⟩ := hmem
    have hword : c :: s ∈ p.words := List.mem_filter.2 ⟨hs, by simp⟩
    simp [hw] at hword

/-- The path with the names `ns` put behind it one after the other, the last name of the list
first. -/
def below (p : Path) (ns : List Name) : Path := ns.foldr (fun n q => q.entry n.bytes) p

@[simp] theorem below_nil (p : Path) : p.below [] = p := rfl

@[simp] theorem below_cons (p : Path) (n : Name) (ns : List Name) :
    p.below (n :: ns) = (p.below ns).entry n.bytes := rfl

theorem below_concat (p : Path) (ns : List Name) (n : Name) :
    p.below (ns ++ [n]) = (p.entry n.bytes).below ns := by
  simp [below]

theorem words_below (p : Path) (ns : List Name) :
    (p.below ns).words = p.words ++ (ns.map Name.bytes).reverse := by
  induction ns with
  | nil => simp
  | cons n ns ih => rw [below_cons, words_entry, ih, List.map_cons, List.reverse_cons, List.append_assoc]

end Path
end SmaliBuild
