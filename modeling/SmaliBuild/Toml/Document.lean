import SmaliBuild.Toml.Scalar
import SmaliBuild.Toml.Table
import SmaliBuild.Toml.Token
/-!
# Reading TOML documents

A document is read from its tokens line by line: a header opens a table, a key with a value goes into
the table opened last.  `Document.parse?` answers the tree, or none for a text that is no document;
what would be wrong with it is not of interest here.
-/
namespace SmaliBuild.Toml

/-- The tokens that are left, with their places. -/
abbrev Tokens := List (Token × Span)

namespace Document

def simpleKey? : Tokens → Option (Key × Tokens)
  | (.string t true, span) :: rest => some (⟨String.ofList t, span⟩, rest)
  | (.bare t, span) :: rest =>
    if t.all fun c => c.isAlphanum || c == '_' || c == '-' then
      some (⟨String.ofList t, span⟩, rest)
    else none
  | _ => none

/-- A key, perhaps dotted, as the path to its table and its last part; at most `steps` parts. -/
def key? : (steps : Nat) → Tokens → Option (List Key × Key × Tokens)
  | 0, _ => none
  | steps + 1, tokens => do
    let (k, rest) ← simpleKey? tokens
    match rest with
    | (.dot, _) :: rest => do
      let (path, last, rest) ← key? steps rest
      return (k :: path, last, rest)
    | _ => return ([], k, rest)

def skipLines : Tokens → Tokens
  | (.newline, _) :: rest => skipLines rest
  | tokens => tokens

/-- The unquoted run at the beginning, dots included, that starts at byte `start`: its text and the
byte after it.  The parts of a run touch each other. -/
def run : (start : Nat) → Tokens → List Char × Nat × Tokens
  | start, (.bare t, span) :: rest =>
    if span.start = start then
      let (text, stop, rest) := run span.stop rest
      (t ++ text, stop, rest)
    else ([], start, (.bare t, span) :: rest)
  | start, (.dot, span) :: rest =>
    if span.start = start then
      let (text, stop, rest) := run span.stop rest
      ('.' :: text, stop, rest)
    else ([], start, (.dot, span) :: rest)
  | start, tokens => ([], start, tokens)

mutual

/-- A value at the beginning.  A level of brackets takes two of the `steps` and at least one
token. -/
def value? : (steps : Nat) → Tokens → Option (Node × Tokens)
  | 0, _ => none
  | steps + 1, tokens =>
    match tokens with
    | (.string t _, span) :: rest => some ((span, .string (String.ofList t)), rest)
    | (.openBracket, first) :: rest => do
      let (items, last, rest) ← items? steps rest
      return ((first.upTo last, .array false items), rest)
    | (.openBrace, first) :: rest => do
      let (entries, last, rest) ← pairs? steps [] rest
      return ((first.upTo last, .table .inline entries), rest)
    | (.bare t, span) :: rest => do
      let (text, stop, rest) := run span.start ((.bare t, span) :: rest)
      let v ← Value.ofScalar? text
      return ((⟨span.start, stop - span.start⟩, v), rest)
    | _ => none

/-- The items of an array up to its closing bracket, whose place is answered too. -/
def items? : (steps : Nat) → Tokens → Option (List Node × Span × Tokens)
  | 0, _ => none
  | steps + 1, tokens =>
    match skipLines tokens with
    | (.closeBracket, last) :: rest => some ([], last, rest)
    | tokens => do
      let (item, rest) ← value? steps tokens
      match skipLines rest with
      | (.closeBracket, last) :: rest => return ([item], last, rest)
      | (.comma, _) :: rest => do
        let (items, last, rest) ← items? steps rest
        return (item :: items, last, rest)
      | _ => none

/-- The pairs of a table between braces, added to `entries`, up to the closing brace. -/
def pairs? : (steps : Nat) → Entries → Tokens → Option (Entries × Span × Tokens)
  | 0, _, _ => none
  | steps + 1, entries, tokens =>
    match skipLines tokens with
    | (.closeBrace, last) :: rest => some (entries, last, rest)
    | tokens => do
      let (path, k, rest) ← key? tokens.length tokens
      match rest with
      | (.equals, _) :: rest => do
        let (node, rest) ← value? steps rest
        let entries ← entries.assign? .header path k node
        match skipLines rest with
        | (.closeBrace, last) :: rest => return (entries, last, rest)
        | (.comma, _) :: rest => pairs? steps entries rest
        | _ => none
      | _ => none

end

/-- What a document has come to: its table, and the path of the header that holds. -/
structure State where
  root : Entries
  path : List Key

/-- A value under a key in the table of the header that holds. -/
def State.assign? (s : State) (path : List Key) (k : Key) (node : Node) : Option State := do
  let root ← s.root.under? false (fun form entries => entries.assign? form path k node) s.path .header
  return { s with root }

def State.openTable? (s : State) (path : List Key) (k : Key) (span : Span) : Option State := do
  let root ← s.root.under? false (fun _ entries => entries.openTable? k span) path .header
  return ⟨root, path ++ [k]⟩

/-- A table of an array of tables opened by a header. -/
def State.pushTable? (s : State) (path : List Key) (k : Key) (span : Span) : Option State := do
  let root ← s.root.under? false (fun _ entries => entries.pushTable? k span) path .header
  return ⟨root, path ++ [k]⟩

def header? (s : State) (tokens : Tokens) : Option (State × Tokens) :=
  match tokens with
  | (.openBracket, first) :: (.openBracket, second) :: rest => do
    guard (second.start = first.stop)
    let (path, k, rest) ← key? rest.length rest
    match rest with
    | (.closeBracket, third) :: (.closeBracket, last) :: rest =>
      guard (last.start = third.stop)
      return (← s.pushTable? path k (first.upTo last), rest)
    | _ => none
  | (.openBracket, first) :: rest => do
    let (path, k, rest) ← key? rest.length rest
    match rest with
    | (.closeBracket, last) :: rest => return (← s.openTable? path k (first.upTo last), rest)
    | _ => none
  | tokens => do
    let (path, k, rest) ← key? tokens.length tokens
    match rest with
    | (.equals, _) :: rest =>
      let (node, rest) ← value? (2 * rest.length + 2) rest
      return (← s.assign? path k node, rest)
    | _ => none

/-- A header or a pair at the beginning, and the line end after it. -/
def line? (s : State) (tokens : Tokens) : Option (State × Tokens) := do
  let (s, rest) ← header? s tokens
  match rest with
  | [] => return (s, [])
  | (.newline, _) :: rest => return (s, rest)
  | _ => none

/-- The lines of a document; each takes at least one token, so `steps` need not exceed their
number. -/
def lines? : (steps : Nat) → State → Tokens → Option State
  | steps, s, tokens =>
    match skipLines tokens, steps with
    | [], _ => some s
    | _, 0 => none
    | tokens, steps + 1 => do
      let (s, rest) ← line? s tokens
      lines? steps s rest

/-- The tree of a text; none if the text is no document. -/
def parse? (s : List Char) : Option Entries := do
  let tokens ← Token.scan? s
  let s ← lines? tokens.length ⟨[], []⟩ tokens
  return s.root

end Document
end SmaliBuild.Toml
