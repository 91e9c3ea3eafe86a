import SmaliBuild.Failure
import SmaliBuild.Host
/-!
# The manifest of a source directory

A manifest is a file with one line for every entry below a directory that is not itself a
directory, links to directories being entered.  `Manifest.build` writes it anew.  The walk ends
because every directory it enters has a longer path than the one before and a path of `pathLimit`
bytes cannot be listed.
-/
namespace SmaliBuild

/-- A written manifest: where it is, the paths on its lines, and the paths it lacks. -/
structure Manifest where
  path : Path
  entries : List Path
  skipped : List Setback
deriving DecidableEq, Repr

namespace Manifest

def skip (m : Manifest) (p : Path) (e : IoError) : Host.Action Manifest := do
  Host.log .warn s!"Cannot add {p} to {m.path}: {e.message}"
  return { m with skipped := m.skipped ++ [⟨p, e⟩] }

/-- The line of a path, which holds the path as it is shown. -/
def line (p : Path) : Bytes := Text.encode (Text.decodeLossy p.text ++ ['\n'])

/-- A line for `p` at the end of the open file. -/
def write (file : Location) (p : Path) (m : Manifest) : Host.Action Manifest := do
  match ← Host.append file (line p) with
  | .ok () => return { m with entries := m.entries ++ [p] }
  | .error e => m.skip p e

mutual

def addDirectory (file : Location) (d : Path) (m : Manifest) : Host.Action Manifest := do
  match ← Host.list d with
  | .error e => m.skip d e
  | .ok listing =>
    let m ← addEntries file d listing.short listing.names m
    match listing.broken with
    | none => return m
    | some e => m.skip d e
termination_by (pathLimit - d.byteLength, 1, 0)

/-- Lines for the entries `names` of the directory `d` and for everything below them. -/
def addEntries (file : Location) (d : Path) (short : d.byteLength < pathLimit) :
    List Name → Manifest → Host.Action Manifest
  | [], m => return m
  | n :: names, m => do
    let p := d.entry n.bytes
    if ← Host.isDirectory p then addEntries file d short names (← addDirectory file p m)
    else addEntries file d short names (← write file p m)
termination_by names => (pathLimit - d.byteLength, 0, names.length)
decreasing_by
  · have := Path.byteLength_lt_entry d n.bytes_ne_nil
    exact Prod.Lex.left _ _ (by omega)
  all_goals exact Prod.Lex.right _ (Prod.Lex.right _ (by simp))

end

/-- Removes the file or link at `path`.  Where that fails, the making of a new file will tell. -/
def clear (path : Path) : Host.Action Unit := do
  match ← Host.unlink path with
  | .ok () => Host.log .debug s!"Removed stale {path}"
  | .error e =>
    unless e.isAbsence do Host.log .debug s!"Cannot remove {path}: {e.message}"

/-- A new file at `path` with a line for everything below `root`. -/
def create (root path : Path) : Host.Action (Except Failure Manifest) := do
  match ← Host.createFile path with
  | .error e => return .error (.manifestCreation path e)
  | .ok file =>
    let m ← addDirectory file root ⟨path, [], []⟩
    Host.log .debug s!"Wrote {path}"
      [("entries", toString m.entries.length), ("skipped", toString m.skipped.length)]
    return .ok m

/-- Replaces whatever file or link stands at `path` by a list of everything below `root`. -/
def build (root path : Path) : Host.Action (Except Failure Manifest) := do
  match ← Host.absolute root with
  | .error e => return .error (.io root e)
  | .ok root =>
    clear path
    create root path

end Manifest
end SmaliBuild
