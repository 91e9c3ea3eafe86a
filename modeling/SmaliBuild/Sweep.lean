import SmaliBuild.Failure
import SmaliBuild.Host
import SmaliBuild.Workspace
/-!
# Removing the intermediate artifacts

A sweep removes the manifest, the bundle and the compiled classes of a conversion, each with
everything below it, without crossing links.  It goes on after a failure and reports each path that
it could not remove.
-/
namespace SmaliBuild

/-- What a sweep did: the targets that are gone, the number of entries removed, and the paths that
could not be. -/
structure Sweep where
  deleted : List Path
  removed : Nat
  errors : List Setback
deriving DecidableEq, Repr

def Workspace.artifacts (w : Workspace) (compiled : Path) : List Path :=
  [w.manifest, w.bundle, compiled]

namespace Sweep

def empty : Sweep := ⟨[], 0, []⟩

/-- Every target that existed is gone. -/
def isComplete (s : Sweep) : Bool := s.errors.isEmpty

/-- The sweep with a path that could not be removed. -/
def fail (s : Sweep) (p : Path) (e : IoError) : Host.Action Sweep := do
  Host.log .warn s!"Cannot delete {p}: {e.message}"
  return { s with errors := s.errors ++ [⟨p, e⟩] }

/-- The sweep after a call that was to remove the entry at `p`, and whether it did. -/
def settle (s : Sweep) (p : Path) : Except IoError Unit → Host.Action (Bool × Sweep)
  | .ok () => return (true, { s with removed := s.removed + 1 })
  | .error e => return (false, ← s.fail p e)

mutual

/-- Removes the entry at `p`, with everything below it if it is a directory; says whether it is
gone. -/
def removeEntry (p : Path) (s : Sweep) : Host.Action (Bool × Sweep) := do
  match ← Host.lstat p with
  | .error e => return (false, ← s.fail p e)
  | .ok e =>
    if e.isDirectory then removeTree p s else s.settle p (← Host.unlink p)
termination_by (pathLimit - p.byteLength, 2, 0)

/-- Removes what is in the directory `d` and then `d`. -/
def removeTree (d : Path) (s : Sweep) : Host.Action (Bool × Sweep) := do
  match ← Host.list d with
  | .error e => return (false, ← s.fail d e)
  | .ok listing =>
    let s ← removeEntries d listing.short listing.names s
    let s ← match listing.broken with
      | none => pure s
      | some e => s.fail d e
    s.settle d (← Host.rmdir d)
termination_by (pathLimit - d.byteLength, 1, 0)

def removeEntries (d : Path) (short : d.byteLength < pathLimit) :
    List Name → Sweep → Host.Action Sweep
  | [], s => return s
  | n :: names, s => do
    let (_, s) ← removeEntry (d.entry n.bytes) s
    removeEntries d short names s
termination_by names => (pathLimit - d.byteLength, 0, names.length)
decreasing_by
  · have := Path.byteLength_lt_entry d n.bytes_ne_nil
    exact Prod.Lex.left _ _ (by omega)
  · exact Prod.Lex.right _ (Prod.Lex.right _ (by simp))

end

/-- Removes one target; a target that is missing is passed over. -/
def removeTarget (p : Path) (s : Sweep) : Host.Action Sweep := do
  match ← Host.lstat p with
  | .error e =>
    if e.isAbsence then
      Host.log .debug s!"Nothing to delete at {p}"
      return s
    else s.fail p e
  | .ok _ =>
    let (gone, s) ← removeEntry p s
    if gone then
      Host.log .debug s!"Deleted {p}"
      return { s with deleted := s.deleted ++ [p] }
    else return s

def removeTargets : List Path → Sweep → Host.Action Sweep
  | [], s => return s
  | p :: rest, s => do removeTargets rest (← removeTarget p s)

def run (w : Workspace) (compiled : Path) : Host.Action Sweep :=
  removeTargets (w.artifacts compiled) empty

/-- Those of the paths at which something stands. -/
def existing : List Path → Host.Action (List Path)
  | [] => return []
  | p :: rest => do
    match ← Host.lstat p with
    | .ok _ => return p :: (← existing rest)
    | .error _ => existing rest

def pending (w : Workspace) (compiled : Path) : Host.Action (List Path) :=
  existing (w.artifacts compiled)

end Sweep
end SmaliBuild
