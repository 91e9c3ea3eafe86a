import SmaliBuild.Compile
import SmaliBuild.Phase
import SmaliBuild.Sweep
/-!
# Conversions

A conversion compiles its input, packs the classes into a bundle, disassembles the bundle and then
sweeps the intermediate artifacts away.  The first failure of a stage ends it, and then nothing is
swept: what the stages left can be looked at.
-/
namespace SmaliBuild

/-- What a conversion that came to its end produced. -/
structure Conversion where
  input : Input
  workspace : Workspace
  compiled : Compiled
  bundle : Path
  output : Path
  sweep : Sweep
deriving DecidableEq, Repr

namespace Conversion

def advance (phase : Phase) : Host.Action Phase := do
  match phase.next? with
  | none => return phase
  | some next =>
    Host.log .debug "Pipeline state" [("from", phase.name), ("to", next.name)]
    return next

def abort (phase : Phase) (failure : Failure) : Host.Action Phase := do
  Host.log .debug "Pipeline aborted" [("from", phase.name), ("error", failure.message)]
  return phase.abort

/-- Goes on to the next phase and performs its stage. -/
def stage {α : Type} (phase : Phase) (title : String)
    (perform : Host.Action (Except Failure α)) : Host.Action (Except Failure α × Phase) := do
  let phase ← advance phase
  Host.log .info title
  match ← perform with
  | .ok a => return (.ok a, phase)
  | .error e => return (.error e, ← abort phase e)

/-- The stages of a conversion, from the idle phase on.  Beside the result stands the phase that
was reached. -/
def stages (tools : Toolchain) (optimize : Bool) (t : Input) :
    Host.Action (Except Failure Conversion × Phase) := do
  let w := t.workspace
  match ← stage .idle "Compiling..." (Compiled.ofInput tools t w) with
  | (.error e, phase) => return (.error e, phase)
  | (.ok compiled, phase) =>
    match ← stage phase "Packaging..."
        (tools.runPackager ⟨compiled.path, w.bundle, optimize⟩) with
    | (.error e, phase) => return (.error e, phase)
    | (.ok (), phase) =>
      match ← stage phase "Disassembling..." (tools.runDisassembler ⟨w.bundle, w.output⟩) with
      | (.error e, phase) => return (.error e, phase)
      | (.ok (), phase) =>
        let phase ← advance phase
        Host.log .info "Cleaning..."
        let sweep ← Sweep.run w compiled.path
        let phase ← advance phase
        Host.log .info "Done."
        return (.ok ⟨t, w, compiled, w.bundle, w.output, sweep⟩, phase)

def run (tools : Toolchain) (optimize : Bool) (t : Input) :
    Host.Action (Except Failure Conversion × Phase) := do
  modify fun h => { h with input := some t.path }
  let result ← stages tools optimize t
  modify fun h => { h with input := none }
  return result

end Conversion
end SmaliBuild
