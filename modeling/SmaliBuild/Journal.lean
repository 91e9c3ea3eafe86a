import SmaliBuild.Files.Basic
/-!
# The journal of a run

Everything a run lets out is an event of its journal: log lines with their level, bytes on the two
output streams, and the calls of external tools together with the file system they were made in.
What a terminal shows is `Journal.shown`, which only leaves log lines out; how verbose a run is
therefore cannot change what it does.
-/
namespace SmaliBuild

/-- How much a log line matters, the weightiest first. -/
inductive Level where
  | error
  | warn
  | info
  | debug
  | trace
deriving DecidableEq, Repr

namespace Level

/-- The place of a level in the order from the weightiest on. -/
def rank : Level → Nat
  | .error => 0
  | .warn => 1
  | .info => 2
  | .debug => 3
  | .trace => 4

/-- The level as a log line shows it, five characters wide. -/
def label : Level → String
  | .error => "ERROR"
  | .warn => " WARN"
  | .info => " INFO"
  | .debug => "DEBUG"
  | .trace => "TRACE"

end Level

/-- A line of the log: what happened, with named values, and the input under conversion. -/
structure LogLine where
  level : Level
  input : Option Path
  message : String
  fields : List (String × String)
deriving DecidableEq, Repr

namespace LogLine

/-- Control characters that a terminal may obey, shown by number. -/
def guardChar (c : Char) : String :=
  if c = '\x1b' then "\\x1b"
  else if c = '\x07' then "\\x07"
  else if c = '\x08' then "\\x08"
  else if c = '\x0c' then "\\x0c"
  else if c = '\x7f' then "\\x7f"
  else if 0x80 ≤ c.toNat ∧ c.toNat ≤ 0x9f then
    "\\u\x7b" ++ String.ofList (Nat.toDigits 16 c.toNat) ++ "\x7d"
  else c.toString

def guardText (s : String) : String := String.join (s.toList.map guardChar)

def render (line : LogLine) : String :=
  let place := match line.input with
    | none => ""
    | some p => s!"pipeline\x7binput={p}\x7d: "
  let fields := String.join (line.fields.map fun f => s!" {f.1}={f.2}")
  s!"{line.level.label} {place}{guardText line.message}{fields}\n"

end LogLine

inductive Stream where
  | out
  | err
deriving DecidableEq, Repr

/-- A call of an external tool, by the tool's name and its own arguments. -/
structure ToolCall where
  tool : String
  arguments : List OsString
deriving DecidableEq, Repr

inductive Event where
  | log (line : LogLine)
  | output (stream : Stream) (bytes : Bytes)
  | called (call : ToolCall) (files : FileSystem)

abbrev Journal := List Event

namespace Journal

/-- What an event puts on a stream, if log lines up to `verbosity` are shown. -/
def shownOf (verbosity : Level) (stream : Stream) : Event → Bytes
  | .log line =>
    if stream = .err ∧ line.level.rank ≤ verbosity.rank then Text.encode line.render.toList else []
  | .output s bytes => if s = stream then bytes else []
  | .called .. => []

def shown (verbosity : Level) (stream : Stream) (j : Journal) : Bytes :=
  j.flatMap (shownOf verbosity stream)

def calls (j : Journal) : List (ToolCall × FileSystem) :=
  j.filterMap fun
    | .called call files => some (call, files)
    | _ => none

end Journal
end SmaliBuild
