import SmaliBuild.Config.Schema
import SmaliBuild.Diagnosis
import SmaliBuild.Path.Basic
/-!
# Configurations that are refused

A configuration file cannot be read, or is no TOML document, or does not fit the schema.  In the
last case the user is shown the place.
-/
namespace SmaliBuild

/-- Why there is no configuration to be had from a file. -/
inductive Refusal where
  | unreadable (path : Path) (cause : IoError)
  | malformed (name : String)
  | unfit (name : String) (text : List Char) (mistake : Mistake)
deriving DecidableEq, Repr

/-- The place of a mistake in its text, drawn under the line that it begins on, and the message. -/
def Mistake.drawing (m : Mistake) (text : List Char) : String :=
  let l := Text.lineAt text m.span.start
  let column := (l.before m.span.start).length
  let number := toString l.number
  let row (c : Char) (n : Nat) : String := String.ofList (List.replicate n c)
  let gutter := row ' ' (number.length + 1)
  let marks := row '^' (max 1 (min m.span.length (Text.byteLength l.chars - column)))
  s!"TOML parse error at line {number}, column {column + 1}\n" ++
  s!"{gutter}|\n" ++
  s!"{number} | {String.ofList l.chars}\n" ++
  s!"{gutter}|" ++ row ' ' (column + 1) ++ s!"{marks}\n" ++
  s!"{m.kind.message}\n"

namespace Refusal

def message : Refusal → String
  | .unreadable path _ => s!"failed to read '{path}'"
  | .malformed name | .unfit name .. => s!"failed to parse {name}"

/-- The identifier of the condition, for those that have one. -/
def code? : Refusal → Option String
  | .unreadable .. => none
  | .malformed .. | .unfit .. => some "java2smali::config::parse_error"

def help : Refusal → String
  | .unreadable .. =>
    "create the file or drop --config to use the default javac/dx/baksmali toolchain"
  | .malformed .. | .unfit .. =>
    "each [toolchain] entry is a program name or an argv list, " ++
      "e.g. [\"java\", \"-jar\", \"baksmali.jar\"]"

def cause? : Refusal → Option String
  | .unreadable _ cause => some cause.message
  | .malformed _ => none
  | .unfit _ text mistake => some (mistake.drawing text)

def snippet? : Refusal → Option Snippet
  | .unfit name text mistake => some ⟨name, text, mistake.span, mistake.kind.message⟩
  | _ => none

def diagnosis (r : Refusal) : Diagnosis where
  message := r.message
  cause := r.cause?
  snippet := r.snippet?
  help := r.help
  code := r.code?

end Refusal
end SmaliBuild
