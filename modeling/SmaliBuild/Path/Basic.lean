import SmaliBuild.IoError
import SmaliBuild.Text.Utf8
/-!
# Paths as they are spelled

A path is the string the user wrote or the program built from it; two spellings of one place are two
paths.  The string is of the system and need not be text: only the bytes of the slash and the dot
mean something in it, and showing a path may lose what is no text.  It is read through its segments,
the pieces between slashes, of which the empty ones and the single dots are idle.  `segments` and
`unsegments` are inverse, and the operations that take a path apart (`fileName`, `parent`,
`extension`) or build one (`join`, `withFileName`, `withExtension`, `absolute`) keep the parts of the
text they do not replace.
-/
namespace SmaliBuild

/-- The byte that divides a path. -/
def slash : UInt8 := 0x2F

def dot : UInt8 := 0x2E

@[simp] theorem slash_ne_dot : slash ≠ dot := by decide

@[simp] theorem dot_ne_slash : dot ≠ slash := by decide

structure Path where
  text : OsString
deriving DecidableEq, Repr, Inhabited

namespace Path

abbrev Segment := OsString

def ofString (s : String) : Path := ⟨.ofString s⟩

instance : ToString Path := ⟨fun p => p.text.shown⟩

/-- The pieces of a string between its slashes; without a slash it is one piece. -/
def segments : OsString → List Segment
  | [] => [[]]
  | c :: cs =>
    if c = slash then [] :: segments cs
    else match segments cs with
      | [] => [[c]]
      | s :: rest => (c :: s) :: rest

def unsegments : List Segment → OsString
  | [] => []
  | [s] => s
  | s :: rest => s ++ slash :: unsegments rest

theorem segments_ne_nil (t : OsString) : segments t ≠ [] := by
  cases t with
  | nil => simp [segments]
  | cons c cs =>
    rw [segments]
    split
    · simp
    · split <;> simp

theorem unsegments_segments (t : OsString) : unsegments (segments t) = t := by
  induction t with
  | nil => rfl
  | cons c cs ih =>
    rw [segments]
    split
    · next h =>
      obtain ⟨s, rest, hs⟩ := List.exists_cons_of_ne_nil (segments_ne_nil cs)
      rw [hs] at ih ⊢
      simp [unsegments, ih, h]
    · split
      · next h => exact absurd h (segments_ne_nil cs)
      · next s rest h =>
        rw [h] at ih
        cases rest <;> simp_all [unsegments]

theorem slash_notMem_of_mem_segments {t : OsString} {s : Segment} (h : s ∈ segments t) :
    slash ∉ s := by
  induction t generalizing s with
  | nil => simp_all [segments]
  | cons c cs ih =>
    rw [segments] at h
    split at h
    · rcases List.mem_cons.1 h with rfl | h
      · simp
      · exact ih h
    · next hc =>
      split at h
      · rw [List.mem_singleton] at h
        subst h
        simp only [List.mem_singleton]
        exact fun h => hc h.symm
      · next s' rest hs =>
        rcases List.mem_cons.1 h with rfl | h
        · have := ih (s := s') (by rw [hs]; simp)
          simp only [List.mem_cons, not_or]
          exact ⟨fun h => hc h.symm, this⟩
        · exact ih (by rw [hs]; simp [h])

/-- A segment that leads nowhere: a repeated slash or a single dot. -/
def isIdle (s : Segment) : Bool := s == [] || s == [dot]

/-- The segment that leads to the enclosing directory. -/
def up : Segment := [dot, dot]

def parts (p : Path) : List Segment := (segments p.text).filter (!isIdle ·)

def isAbsolute (p : Path) : Bool := p.text.head? == some slash

def endsWithSlash (p : Path) : Bool := p.text.getLast? == some slash

/-- The path starts with exactly two slashes, which a system may give a meaning of their own. -/
def startsWithTwoSlashes (p : Path) : Bool :=
  p.text.take 2 == [slash, slash] && p.text[2]? != some slash

/-- Where a path without further parts stands: at the root, at the leading dot, or nowhere. -/
def anchor (p : Path) : OsString :=
  if p.isAbsolute then [slash] else if (segments p.text).head? == some [dot] then [dot] else []

def fileName (p : Path) : Option Segment :=
  match p.parts.getLast? with
  | none => none
  | some s => if s = up then none else some s

/-- The path without its last part; the text before that part is kept, less the idle segments at
its end.  The root and the empty path have no parent. -/
def parent (p : Path) : Option Path :=
  match (segments p.text).reverse.dropWhile isIdle with
  | [] => if p.anchor = [dot] then some ⟨[]⟩ else none
  | _ :: before =>
    match before.dropWhile isIdle with
    | [] => some ⟨p.anchor⟩
    | kept => some ⟨unsegments kept.reverse⟩

/-- The string `t` followed by the segment `s`, with one slash between them unless `t` is empty or
has it already. -/
def extend (t : OsString) (s : Segment) : OsString :=
  if t = [] ∨ t.getLast? = some slash then t ++ s else t ++ slash :: s

/-- The place `q` as seen from `p`: an absolute `q` stands for itself. -/
def join (p q : Path) : Path :=
  if q.isAbsolute then q else ⟨extend p.text q.text⟩

def entry (p : Path) (name : Segment) : Path := ⟨extend p.text name⟩

/-- The path with its last part, if it names something, replaced by `name`. -/
def withFileName (p : Path) (name : Segment) : Path :=
  match p.fileName with
  | none => p.join ⟨name⟩
  | some _ => (p.parent.getD p).join ⟨name⟩

/-- A file name cut at its last dot, which must not be its first byte. -/
def splitAtDot (name : Segment) : Segment × Option Segment :=
  let after := (name.reverse.takeWhile (· ≠ dot)).reverse
  match (name.reverse.dropWhile (· ≠ dot)).reverse.dropLast with
  | [] => (name, none)
  | before => (before, some after)

/-- The text after the last dot of the file name, if the name has more before that dot. -/
def extension (p : Path) : Option Segment := p.fileName.bind fun name => (splitAtDot name).2

/-- The text up to the end of the file name's stem. -/
def stemmed (p : Path) : Option OsString :=
  p.fileName.map fun name =>
    let before := ((segments p.text).reverse.dropWhile isIdle).tail.reverse
    (if before = [] then [] else unsegments before ++ [slash]) ++ (splitAtDot name).1

/-- The path cut after the stem of its file name, with a new extension; a path without a file name
stays. -/
def setExtension (p : Path) (e : Segment) : Path :=
  match p.stemmed with
  | none => p
  | some t => ⟨t ++ dot :: e⟩

/-- The path with `e` for its extension: as many bytes as the old extension has leave the end of the
path, and the extension of what is left becomes `e`. -/
def withExtension (p : Path) (e : Segment) : Path :=
  match p.extension with
  | none => p.setExtension e
  | some old => setExtension ⟨p.text.take (p.text.length - old.length)⟩ e

/-- The absolute spelling of a path: the idle segments are gone, the upward ones are kept, and so
is one slash at the end and a beginning of exactly two.  A relative path is read from
`directory`. -/
def absolute (p directory : Path) : Except IoError Path :=
  if p.text = [] then .error .emptyPath
  else
    let base :=
      if p.startsWithTwoSlashes then [slash, slash] else if p.isAbsolute then [slash] else directory.text
    let body := p.parts.foldl extend base
    .ok ⟨if p.endsWithSlash then extend body [] else body⟩

def byteLength (p : Path) : Nat := p.text.length

theorem length_le_length_extend (t : OsString) (s : Segment) :
    t.length + s.length ≤ (extend t s).length := by
  unfold extend
  split
  · exact Nat.le_of_eq List.length_append.symm
  · rw [List.length_append, List.length_cons]
    omega

theorem byteLength_lt_entry (p : Path) {name : Segment} (h : name ≠ []) :
    p.byteLength < (p.entry name).byteLength := by
  have hextend := length_le_length_extend p.text name
  have hname := List.length_pos_iff.2 h
  unfold byteLength entry
  simp only
  omega

end Path
end SmaliBuild
