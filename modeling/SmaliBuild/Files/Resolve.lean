import SmaliBuild.Files.Basic
/-!
# From paths to locations

`FileSystem.walk` follows the segments of a path through the table, crossing symbolic links as it
meets them; `FileSystem.locate` does it for a whole path.  A walk ends: each link that is crossed
uses up one of `linkLimit`, and between two links the list of segments shrinks.  Operations that
act on a directory's entry rather than on what it leads to go through `FileSystem.place`, which
stops before the last segment.
-/
namespace SmaliBuild

def linkLimit : Nat := 40

/-- The most bytes that a name may have. -/
def nameLimit : Nat := 255

/-- The number of bytes from which a path is too long for any call. -/
def pathLimit : Nat := 4096

namespace Path

/-- The segments that a look-up takes one after the other.  A slash at the end asks for a
directory, as a final dot does. -/
def steps (p : Path) : List Segment :=
  (segments p.text).filter (· ≠ []) ++ if p.endsWithSlash then [[dot]] else []

/-- Whether a call takes the path at all. -/
def check (p : Path) : Except IoError Unit :=
  if 0 ∈ p.text then .error .nulInPath
  else if p.text = [] then .error (.os .noEntry)
  else if pathLimit ≤ p.byteLength then .error (.os .nameTooLong)
  else .ok ()

theorem byteLength_lt_of_check {p : Path} (h : p.check = .ok ()) : p.byteLength < pathLimit := by
  unfold check at h
  split at h
  · exact nomatch h
  · split at h
    · exact nomatch h
    · split at h
      · exact nomatch h
      · omega

def start (directory : Location) (p : Path) : Location := if p.isAbsolute then [] else directory

end Path

namespace FileSystem

/-- The location that `steps` lead to from `l`.  Every segment needs a directory to stand in.  A
link is crossed unless it is the last segment and `follow` is off. -/
def walk (fs : FileSystem) (follow : Bool) (links : Nat) (l : Location) :
    List Path.Segment → Except Errno Location
  | [] => .ok l
  | s :: rest =>
    match fs.get? l with
    | none => .error .noEntry
    | some .directory =>
      if s = [dot] then walk fs follow links l rest
      else if s = Path.up then walk fs follow links l.tail rest
      else if nameLimit < s.length then .error .nameTooLong
      else match Name.ofBytes? s with
        | none => .error .noEntry
        | some n =>
          match fs.get? (n :: l) with
          | none => .error .noEntry
          | some (.link target) =>
            if rest = [] ∧ follow = false then .ok (n :: l)
            else match links with
              | 0 => .error .linkLoop
              | links + 1 => walk fs follow links (target.start l) (target.steps ++ rest)
          | some _ => walk fs follow links (n :: l) rest
    | some _ => .error .notDirectory
termination_by steps => (links, steps.length)

/-- The location of what a path names, as seen from `directory`; with `follow` a final link is
crossed. -/
def locate (fs : FileSystem) (directory : Location) (follow : Bool) (p : Path) :
    Except IoError Location := do
  p.check
  (fs.walk follow linkLimit (p.start directory) p.steps).mapError .os

/-- The last segment of a path whose entry is to be made or removed. -/
inductive Last where
  | name (name : Name)
  | dot
  | up
  | root
deriving DecidableEq

/-- The directory that holds the entry a path names, and the path's last segment; the root has
none. -/
def enclosing (fs : FileSystem) (directory : Location) (p : Path) :
    Except IoError (Location × Option Path.Segment) := do
  p.check
  match ((Path.segments p.text).filter (· ≠ [])).reverse with
  | [] => return ([], none)
  | s :: before =>
    let d ← (fs.walk true linkLimit (p.start directory) (before.reverse ++ [[dot]])).mapError .os
    return (d, some s)

/-- The directory that holds the entry a path names, and what the path calls the entry there. -/
def place (fs : FileSystem) (directory : Location) (p : Path) :
    Except IoError (Location × Last) := do
  match ← fs.enclosing directory p with
  | (d, none) => return (d, .root)
  | (d, some s) =>
    if s = [dot] then return (d, .dot)
    else if s = Path.up then return (d, .up)
    else if nameLimit < s.length then throw (.os .nameTooLong)
    else match Name.ofBytes? s with
      | none => throw (.os .noEntry)
      | some n => return (d, .name n)

end FileSystem
end SmaliBuild
