import SmaliBuild.Config.Refusal
import SmaliBuild.Host
import SmaliBuild.Toml.Document
/-!
# Configuration files

A file is read as UTF-8, as a TOML document and as a configuration, in this order.  A file that the
user names must be there; the one of the usual name in a directory need not.
-/
namespace SmaliBuild

def Config.fileName : String := "java2smali.toml"

/-- The configuration that a text stands for; `name` is what messages call the text. -/
def Config.parse (name : String) (text : List Char) : Except Refusal Config :=
  match Toml.Document.parse? text with
  | none => .error (.malformed name)
  | some entries =>
    match Config.ofDocument entries with
    | .error mistake => .error (.unfit name text mistake)
    | .ok c => .ok c

/-- A configuration and the file that it is from. -/
structure ConfigFile where
  path : Path
  config : Config
deriving DecidableEq, Repr

namespace ConfigFile

def load (p : Path) : Host.Action (Except Refusal ConfigFile) := do
  match ← Host.read p with
  | .error e => return .error (.unreadable p e)
  | .ok bytes =>
    match Text.decode? bytes with
    | none => return .error (.unreadable p .notText)
    | some text => return (Config.parse (toString p) text).map (⟨p, ·⟩)

/-- The configuration for a run in a directory: that of the file that the user named, or else that
of the file with the usual name, if there is one. -/
def find (named : Option Path) (directory : Path) :
    Host.Action (Except Refusal (Option ConfigFile)) := do
  match named with
  | some p => return (← load p).map some
  | none =>
    let p := directory.join (.ofString Config.fileName)
    match ← Host.stat p with
    | .ok (.file ..) => return (← load p).map some
    | _ => return .ok none

end ConfigFile
end SmaliBuild
