import SmaliBuild.Manifest
import SmaliBuild.Proofs.Text.Lossy
/-!
# The lines of a manifest

A line holds its path as it is shown, which is the path itself only if the path is text.  So the lines
are the paths, each with a line end behind it, exactly if all paths are text, and whoever cuts them at
blanks gets the paths back exactly if no path has a blank either (`Manifest.words_lines_iff`).  What
counts as blank is left open, but for the line end.
-/
namespace SmaliBuild

/-! ## Words -/

namespace Text
variable {blank : Char → Bool} {c : Char} {s : List Char} {names : List (List Char)}

/-- The longest parts of a text without blanks. -/
def words (blank : Char → Bool) (s : List Char) : List (List Char) :=
  (s.splitOnP blank).filter (· ≠ [])

theorem words_append_blank (hc : blank c = true) (s t : List Char) :
    words blank (s ++ c :: t) = words blank s ++ words blank t := by
  rw [words, List.splitOnP_append_cons s t hc, List.filter_append, ← words, ← words]

theorem words_eq_singleton (hs : s ≠ []) (hplain : ∀ c ∈ s, blank c = false) :
    words blank s = [s] := by
  rw [words, List.splitOnP_eq_singleton hplain]
  simp [hs]

theorem not_blank_of_mem_words {s t : List Char} (ht : t ∈ words blank s) :
    ∀ c ∈ t, blank c = false := by
  by_cases hplain : ∀ c ∈ s, blank c = false
  · rw [words, List.splitOnP_eq_singleton hplain] at ht
    obtain rfl := List.mem_singleton.1 (List.mem_of_mem_filter ht)
    exact hplain
  · obtain ⟨c, hc, hblank⟩ : ∃ c ∈ s, blank c = true := by simpa using hplain
    obtain ⟨before, after, hs⟩ := List.append_of_mem hc
    rw [hs, words_append_blank hblank, List.mem_append] at ht
    cases ht with
    | inl ht => exact not_blank_of_mem_words ht
    | inr ht => exact not_blank_of_mem_words ht
termination_by s.length
decreasing_by
  all_goals
    rw [hs, List.length_append, List.length_cons]
    omega

theorem words_lines (hline : blank '\n' = true) (names : List (List Char)) :
    words blank (names.flatMap (· ++ ['\n'])) = names.flatMap (words blank) := by
  induction names with
  | nil => rfl
  | cons s names ih =>
    rw [List.flatMap_cons, List.append_assoc, List.singleton_append, words_append_blank hline, ih,
      List.flatMap_cons]

theorem flatMap_words (hne : ∀ s ∈ names, s ≠ [])
    (hplain : ∀ s ∈ names, ∀ c ∈ s, blank c = false) : names.flatMap (words blank) = names := by
  induction names with
  | nil => rfl
  | cons s names ih =>
    rw [List.forall_mem_cons] at hne hplain
    rw [List.flatMap_cons, words_eq_singleton hne.1 hplain.1, ih hne.2 hplain.2,
      List.singleton_append]

end Text

/-! ## Lines and paths -/

namespace Manifest
variable {blank : Char → Bool} {p : Path} {ps : List Path}

def lineEnd : UInt8 := 0x0A

/-- The line of a path that is written byte for byte. -/
def exactLine (p : Path) : Bytes := p.text ++ [lineEnd]

theorem flatMap_line (ps : List Path) : ps.flatMap line =
    Text.encode ((ps.map fun p => Text.decodeLossy p.text).flatMap (· ++ ['\n'])) := by
  rw [Text.encode, List.flatMap_assoc, List.flatMap_map]
  rfl

theorem line_eq_exactLine (hp : Text.isText p.text = true) : line p = exactLine p := by
  have hsame := Text.encode_decodeLossy_eq_iff.2 hp
  rw [Text.encode] at hsame
  rw [line, Text.encode, List.flatMap_append, hsame]
  rfl

theorem isText_exactLines :
    Text.isText (ps.flatMap exactLine) = true ↔ ∀ p ∈ ps, Text.isText p.text = true := by
  induction ps with
  | nil => exact iff_of_true Text.isText_nil fun p hp => absurd hp List.not_mem_nil
  | cons p ps ih =>
    rw [List.flatMap_cons, exactLine, List.append_assoc, List.singleton_append,
      Text.isText_append_cons (by decide), ih, List.forall_mem_cons]

/-- The lines of paths hold them byte for byte exactly if all paths are text. -/
theorem lines_exact_iff :
    ps.flatMap line = ps.flatMap exactLine ↔ ∀ p ∈ ps, Text.isText p.text = true := by
  constructor
  · intro heq
    rw [← isText_exactLines, ← heq, flatMap_line]
    exact Text.isText_encode _
  · exact fun htext => List.flatMap_congr fun p hp => line_eq_exactLine (htext p hp)

/-- Lines are a text whose words are those of the paths as they are shown, path after path.  They are
the paths themselves exactly if each path is text and has no blank. -/
theorem words_lines_iff (hline : blank '\n' = true) (hne : ∀ p ∈ ps, p.text ≠ []) :
    ∃ text, Text.decode? (ps.flatMap line) = some text ∧
      Text.words blank text = ps.flatMap (fun p => Text.words blank (Text.decodeLossy p.text)) ∧
      ((Text.words blank text).map Text.encode = ps.map (·.text) ↔
        ∀ p ∈ ps, Text.isText p.text = true ∧ ∀ c ∈ Text.decodeLossy p.text, blank c = false) := by
  have hwords := Text.words_lines hline (ps.map fun p => Text.decodeLossy p.text)
  refine ⟨_, (flatMap_line ps).symm ▸ Text.decode?_encode _, ?_, ?_, ?_⟩
  · rw [hwords, List.flatMap_map]
  · intro hsame p hp
    have hmem : p.text ∈ ps.map (·.text) := List.mem_map_of_mem hp
    rw [← hsame] at hmem
    obtain ⟨w, hw, heq⟩ := List.mem_map.1 hmem
    rw [← heq, Text.decodeLossy_encode]
    exact ⟨Text.isText_encode w, Text.not_blank_of_mem_words hw⟩
  · intro hplain
    have hshown (p : Path) (hp : p ∈ ps) : Text.encode (Text.decodeLossy p.text) = p.text :=
      Text.encode_decodeLossy_eq_iff.2 (hplain p hp).1
    rw [hwords, Text.flatMap_words, List.map_map]
    · exact List.map_congr_left hshown
    · rw [List.forall_mem_map]
      intro p hp hnil
      apply hne p hp
      rw [← hshown p hp, hnil]
      rfl
    · rw [List.forall_mem_map]
      exact fun p hp => (hplain p hp).2

end Manifest
end SmaliBuild
