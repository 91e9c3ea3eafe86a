import SmaliBuild.Files.NameDigest
import SmaliBuild.Path.Basic
import SmaliBuild.Text.Utf8
/-!
# File systems

A file system is a finite table from locations to entries.  A location is the list of names that
lead to an entry, innermost first, so that the enclosing directory of `n :: d` is `d` and "at or
below `d`" is "ends in `d`"; the root is the empty location and always a directory.  The type
holds what every operation keeps: no location twice, and each entry in a directory.  A directory
lists its entries in the order of the table, which nothing else depends on.
-/
namespace SmaliBuild

/-- What an entry of a directory can be called. -/
def isProperName (s : OsString) : Bool :=
  s != [] && s != [dot] && s != [dot, dot] && !s.contains slash && !s.contains 0

structure Name where
  bytes : OsString
  proper : isProperName bytes = true
deriving DecidableEq, Repr

namespace Name

def ofBytes? (s : OsString) : Option Name :=
  if h : isProperName s = true then some ⟨s, h⟩ else none

theorem bytes_ne_nil (n : Name) : n.bytes ≠ [] := by
  intro h
  have := n.proper
  simp [h, isProperName] at this

@[simp] theorem ofBytes?_bytes (n : Name) : ofBytes? n.bytes = some n := by
  simp [ofBytes?, n.proper]

end Name

/-- The names that lead from the root to an entry, innermost first. -/
abbrev Location := List Name

def Location.isAtOrBelow (d l : Location) : Bool := d.isSuffixOf l

def Location.path (l : Location) : Path :=
  match l with
  | [] => ⟨[slash]⟩
  | _ => ⟨l.reverse.flatMap fun n => slash :: n.bytes⟩

inductive Entry where
  | directory
  | file (content : Bytes) (executable : Bool)
  | link (target : Path)
deriving DecidableEq, Repr

def Entry.isDirectory : Entry → Bool
  | .directory => true
  | _ => false

/-- The entry with other content, if it is a file. -/
def Entry.withContent (content : Bytes) : Entry → Entry
  | .file _ x => .file content x
  | e => e

/-- The entry made fit to run, or not, if it is a file. -/
def Entry.withExecutable (executable : Bool) : Entry → Entry
  | .file c _ => .file c executable
  | e => e

/-- A finite tree of directories, files and symbolic links. -/
structure FileSystem where
  entries : List (Location × Entry)
  unique : (entries.map (·.1)).Nodup
  rooted : ∀ e ∈ entries, ∃ n d, e.1 = n :: d ∧ (d = [] ∨ (d, Entry.directory) ∈ entries)

namespace FileSystem

def empty : FileSystem := ⟨[], by simp, by simp⟩

instance : Inhabited FileSystem := ⟨empty⟩

/-- What stands at a location; the root is a directory. -/
def get? (fs : FileSystem) (l : Location) : Option Entry :=
  if l = [] then some .directory else fs.entries.lookup l

/-- The names in a directory, in listing order. -/
def names (fs : FileSystem) (d : Location) : List Name :=
  fs.entries.filterMap fun
    | (n :: d', _) => if d' = d then some n else none
    | _ => none

private theorem mem_of_lookup {l : Location} {e : Entry} :
    ∀ {entries : List (Location × Entry)}, entries.lookup l = some e → (l, e) ∈ entries
  | [], h => by simp at h
  | (k, v) :: rest, h => by
    rw [List.lookup_cons] at h
    split at h
    · next hk => simp_all
    · exact List.mem_cons_of_mem _ (mem_of_lookup h)

private theorem lookup_of_mem {l : Location} {e : Entry} :
    ∀ {entries : List (Location × Entry)}, (entries.map (·.1)).Nodup → (l, e) ∈ entries →
      entries.lookup l = some e
  | [], _, h => by simp at h
  | (k, v) :: rest, hu, h => by
    rw [List.map_cons, List.nodup_cons] at hu
    rw [List.lookup_cons]
    rcases List.mem_cons.1 h with h | h
    · simp_all
    · have : k ≠ l := by
        rintro rfl
        exact hu.1 (List.mem_map.2 ⟨_, h, rfl⟩)
      simp [beq_eq_false_iff_ne.2 this.symm, lookup_of_mem hu.2 h]

theorem ne_nil_of_mem (fs : FileSystem) {l : Location} {e : Entry} (h : (l, e) ∈ fs.entries) :
    l ≠ [] := by
  obtain ⟨n, d, hl, _⟩ := fs.rooted _ h
  simp only at hl
  simp [hl]

theorem get?_eq_some_iff (fs : FileSystem) {l : Location} {e : Entry} :
    fs.get? l = some e ↔ (l = [] ∧ e = .directory) ∨ (l, e) ∈ fs.entries := by
  unfold get?
  split
  · next h =>
    constructor
    · intro he
      exact Or.inl ⟨h, (Option.some.inj he).symm⟩
    · rintro (⟨_, rfl⟩ | he)
      · rfl
      · exact absurd h (fs.ne_nil_of_mem he)
  · next h =>
    simp only [h, false_and, false_or]
    exact ⟨mem_of_lookup, lookup_of_mem fs.unique⟩

theorem get?_nil (fs : FileSystem) : fs.get? [] = some .directory := by simp [get?]

theorem notMem_of_get?_eq_none {fs : FileSystem} {l : Location} (h : fs.get? l = none) :
    l ∉ fs.entries.map (·.1) := by
  intro hl
  obtain ⟨⟨k, e⟩, hm, rfl⟩ := List.mem_map.1 hl
  have := fs.get?_eq_some_iff.2 (Or.inr hm)
  simp_all

/-- An entry whose name comes before `n` in listing order, or does not come after it. -/
def isBefore (n : Name) : Location × Entry → Bool
  | (m :: _, _) => !NameDigest.precedes n.bytes m.bytes
  | _ => true

/-- A new entry, listed where the order of names puts it. -/
def insert (fs : FileSystem) (n : Name) (d : Location) (e : Entry)
    (absent : fs.get? (n :: d) = none) (enclosed : fs.get? d = some .directory) : FileSystem where
  entries := fs.entries.takeWhile (isBefore n) ++ (n :: d, e) :: fs.entries.dropWhile (isBefore n)
  unique := by
    have h := fs.unique
    have h' := notMem_of_get?_eq_none absent
    rw [← List.takeWhile_append_dropWhile (p := isBefore n) (l := fs.entries)] at h h'
    rw [List.map_append, List.map_cons]
    rw [List.map_append] at h h'
    exact List.perm_middle.nodup_iff.2 (List.nodup_cons.2 ⟨h', h⟩)
  rooted := by
    have mem {x : Location × Entry} : x ∈ fs.entries.takeWhile (isBefore n) ++
        (n :: d, e) :: fs.entries.dropWhile (isBefore n) ↔ x = (n :: d, e) ∨ x ∈ fs.entries := by
      conv => rhs; rw [← List.takeWhile_append_dropWhile (p := isBefore n) (l := fs.entries)]
      simp only [List.mem_append, List.mem_cons]
      exact or_left_comm
    intro x hx
    rcases mem.1 hx with rfl | hx
    · refine ⟨n, d, rfl, ?_⟩
      rcases fs.get?_eq_some_iff.1 enclosed with h | h
      · exact Or.inl h.1
      · exact Or.inr (mem.2 (Or.inr h))
    · obtain ⟨m, d', hm, hd⟩ := fs.rooted x hx
      exact ⟨m, d', hm, hd.imp_right fun h => mem.2 (Or.inr h)⟩

/-- The table with the entry at `l` changed by `f`; a directory stays as it is. -/
def modify (fs : FileSystem) (l : Location) (f : Entry → Entry)
    (keeps : f .directory = .directory) : FileSystem where
  entries := fs.entries.map fun e => if e.1 = l then (e.1, f e.2) else e
  unique := by
    have : (fs.entries.map fun e => if e.1 = l then (e.1, f e.2) else e).map (·.1) =
        fs.entries.map (·.1) := by
      rw [List.map_map]
      refine List.map_congr_left fun e _ => ?_
      simp only [Function.comp_apply]
      split <;> rfl
    rw [this]
    exact fs.unique
  rooted := by
    intro x hx
    obtain ⟨e, he, rfl⟩ := List.mem_map.1 hx
    obtain ⟨n, d, hn, hd⟩ := fs.rooted e he
    refine ⟨n, d, by split <;> exact hn, hd.imp_right fun h => ?_⟩
    refine List.mem_map.2 ⟨_, h, ?_⟩
    simp only [keeps, ite_self]

def setContent (fs : FileSystem) (l : Location) (content : Bytes) : FileSystem :=
  fs.modify l (Entry.withContent content) rfl

/-- The file at `l` made fit to run, or not. -/
def setExecutable (fs : FileSystem) (l : Location) (executable : Bool) : FileSystem :=
  fs.modify l (Entry.withExecutable executable) rfl

def prune (fs : FileSystem) (l : Location) : FileSystem where
  entries := fs.entries.filter fun e => !l.isAtOrBelow e.1
  unique := fs.unique.sublist (List.filter_sublist.map _)
  rooted := by
    intro x hx
    obtain ⟨hx, hl⟩ := List.mem_filter.1 hx
    obtain ⟨n, d, hn, hd⟩ := fs.rooted x hx
    refine ⟨n, d, hn, hd.imp_right fun h => List.mem_filter.2 ⟨h, ?_⟩⟩
    simp only [Location.isAtOrBelow, hn, Bool.not_eq_true', Bool.eq_false_iff, ne_eq,
      List.isSuffixOf_iff_suffix] at hl ⊢
    exact fun h => hl (h.trans (List.suffix_cons _ _))

end FileSystem
end SmaliBuild
