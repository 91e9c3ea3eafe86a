import SmaliBuild.CommandLine.Options
/-!
# Reading a command line

Words are read from left to right.  What an option or an argument was given is settled when the next
one begins, or at the end; a command's words are settled before those in front of it.  So of several
mistakes the one that is found first in this order is reported.
-/
namespace SmaliBuild

inductive UsageError where
  | unexpectedArgument (word : String)
  | unexpectedValue (value option : String)
  | unrecognizedCommand (word : String)
  | missingCommand
  | missingValue (option : String)
  | missingArgument (argument : String)
  | invalidValue (value argument : String)
  | invalidText
  | repeated (option : String)
  | conflict (option other : String)
deriving DecidableEq, Repr

namespace UsageError

def message : UsageError → String
  | unexpectedArgument w => s!"error: unexpected argument '{w}' found"
  | unexpectedValue v o => s!"error: unexpected value '{v}' for '{o}' found; no more were expected"
  | unrecognizedCommand w => s!"error: unrecognized subcommand '{w}'"
  | missingCommand => s!"error: '{programName}' requires a subcommand but one was not provided"
  | missingValue o => s!"error: a value is required for '{o}' but none was supplied"
  | missingArgument a => s!"error: the following required arguments were not provided:\n  {a}"
  | invalidValue v a => s!"error: invalid value '{v}' for '{a}'"
  | invalidText => "error: invalid UTF-8 was detected in one or more arguments"
  | repeated o => s!"error: the argument '{o}' cannot be used multiple times"
  | conflict o p => s!"error: the argument '{o}' cannot be used with '{p}'"

end UsageError

inductive Detour where
  | help (topic : HelpTopic)
  | version
  /-- nothing was asked for at all -/
  | nothing
  | mistake (e : UsageError)
deriving DecidableEq, Repr

def hyphen : UInt8 := 0x2D

/-- The byte in front of the value of an option. -/
def equalsSign : UInt8 := 0x3D

inductive Pending where
  | nothing
  /-- the value of the option that takes one, if it has come -/
  | config (value : Option OsString)
  | argument (value : OsString)
deriving DecidableEq, Repr

/-- The words that were read in one scope. -/
structure Words where
  scope : Scope
  config : Option OsString
  verbose : Nat
  /-- the options that were given, the one given last at the end -/
  given : List Flag
  argument : Option OsString
  pending : Pending
deriving DecidableEq, Repr

namespace Words

def empty (scope : Scope) : Words := ⟨scope, none, 0, [], none, .nothing⟩

def isWaiting (s : Words) : Bool := s.pending == .config none

def settle (s : Words) : Except Detour Words :=
  let argument := s.scope.argument?.getD ""
  match s.pending with
  | .nothing => .ok s
  | .config none => .error (.mistake (.missingValue Flag.config.shown))
  | .config (some v) =>
    if Flag.config ∈ s.given then .error (.mistake (.repeated Flag.config.shown))
    else if v = [] then .error (.mistake (.missingValue Flag.config.shown))
    else .ok { s with config := some v, given := s.given ++ [.config], pending := .nothing }
  | .argument v =>
    if v = [] then .error (.mistake (.missingValue argument))
    else if s.scope = .completions ∧ !Text.isText v then .error (.mistake .invalidText)
    else if s.scope = .completions ∧ CompletionShell.ofName? v.shown = none then
      .error (.mistake (.invalidValue v.shown argument))
    else .ok { s with argument := some v, pending := .nothing }

/-- The most that more talk can be asked for. -/
def verboseLimit : Nat := 255

def take (s : Words) (f : Flag) : Except Detour Words := do
  let s ← s.settle
  match f with
  | .help => throw (.help (.scope s.scope))
  | .version => throw .version
  | .verbose =>
    return { s with
      verbose := min verboseLimit (s.verbose + 1)
      given := s.given.filter (· ≠ .verbose) ++ [.verbose] }
  | f =>
    if f ∈ s.given then throw (.mistake (.repeated f.shown))
    else return { s with given := s.given ++ [f] }

/-- Takes the option that has a value; the value may have come with it. -/
def takeConfig (s : Words) (value : Option OsString) : Except Detour Words := do
  let s ← s.settle
  match value with
  | some v => settle { s with pending := .config (some v) }
  | none => return { s with pending := .config none }

/-- Takes an option by its word, with the value behind an equals sign. -/
def takeLong (s : Words) (word : OsString) (value : Option OsString) : Except Detour Words :=
  match s.scope.flags.find? fun f => .ofString f.word == word with
  | none => .error (.mistake (.unexpectedArgument s!"--{word.shown}"))
  | some f =>
    if f.takesValue then s.takeConfig value
    else match value with
      | some v => .error (.mistake (.unexpectedValue v.shown f.shown))
      | none => s.take f

/-- The character at the head of a word; if there is none, the whole word. -/
def headShown (w : OsString) : String :=
  match Text.pieces w with
  | some c :: _ => c.toString
  | _ => w.shown

/-- Takes options by their letters; what follows the letter of one that has a value is the value. -/
def takeLetters (s : Words) : OsString → Except Detour Words
  | [] => .ok s
  | b :: rest =>
    match s.scope.flags.find? fun f => f.letter?.map Char.toUInt8 == some b with
    | none => .error (.mistake (.unexpectedArgument s!"-{headShown (b :: rest)}"))
    | some f =>
      if f.takesValue then
        match rest with
        | [] => s.takeConfig none
        | b' :: value => s.takeConfig (some (if b' = equalsSign then value else b' :: value))
      else
        match s.take f with
        | .error e => .error e
        | .ok s => s.takeLetters rest

def takeArgument (s : Words) (word : OsString) : Except Detour Words :=
  let isKnown := (Scope.ofWord? word).isSome || word == .ofString helpCommand
  match s.scope.argument? with
  | none =>
    .error (.mistake
      (if isKnown then .unexpectedArgument word.shown else .unrecognizedCommand word.shown))
  | some _ =>
    if s.argument.isSome || s.pending matches .argument _ then
      .error (.mistake (.unexpectedArgument word.shown))
    else do
      let s ← s.settle
      return { s with pending := .argument word }

/-- What a word is, where it may be an option. -/
inductive Shape where
  | separator
  | long (word : OsString) (value : Option OsString)
  | letters (letters : OsString)
  | plain
deriving DecidableEq, Repr

def shape (w : OsString) : Shape :=
  if w = [hyphen, hyphen] then .separator
  else if [hyphen, hyphen].isPrefixOf w then
    let rest := w.drop 2
    let word := rest.takeWhile (· ≠ equalsSign)
    match rest.dropWhile (· ≠ equalsSign) with
    | [] => .long word none
    | _ :: value => .long word (some value)
  else match w with
    | b :: c :: rest => if b = hyphen then .letters (c :: rest) else .plain
    | _ => .plain

/-- Reads words up to a command, which is answered with the words behind it.  After a separator all
words are arguments. -/
def read (s : Words) (separated : Bool) : List OsString →
    Except Detour (Words × Option (Scope × List OsString))
  | [] => .ok (s, none)
  | w :: rest =>
    if separated then do
      let s ← s.takeArgument w
      s.read true rest
    else if s.scope = .program ∧ !s.isWaiting ∧ w = .ofString helpCommand then
      match HelpTopic.ofWords rest with
      | .ok topic => .error (.help topic)
      | .error word => .error (.mistake (.unrecognizedCommand word.shown))
    else
      match (if s.scope = .program ∧ !s.isWaiting then
          Scope.ofWord? w else none) with
      | some c => .ok (s, some (c, rest))
      | none =>
        match shape w with
        | .separator => s.read true rest
        | .long word value => do
          let s ← s.takeLong word value
          s.read false rest
        | .letters cs => do
          let s ← s.takeLetters cs
          s.read false rest
        | .plain =>
          if s.isWaiting then read { s with pending := .config (some w) } false rest
          else do
            let s ← s.takeArgument w
            s.read false rest

/-- Silence and more talk are not asked for together in one scope. -/
def checkConflict (s : Words) : Except Detour Unit :=
  match s.given.filter fun f => f = .quiet ∨ f = .verbose with
  | [f, g] => .error (.mistake (.conflict f.shown g.shown))
  | _ => .ok ()

def complete (s : Words) : Except Detour Words := do
  let s ← s.settle
  s.checkConflict
  match s.scope.argument?, s.argument with
  | some a, none => throw (.mistake (.missingArgument a))
  | _, _ => return s

def request (s : Words) (argument : OsString) : Except Detour Request :=
  let path : Path := ⟨argument⟩
  match s.scope with
  | .convert => .ok (.convert path (.noOptimize ∉ s.given))
  | .clean => .ok (.clean path (.dryRun ∈ s.given))
  | .completions =>
    match CompletionShell.ofName? argument.shown with
    | some shell => .ok (.completions shell)
    | none => .error (.mistake (.invalidValue argument.shown (s.scope.argument?.getD "")))
  | .program => .error (.mistake .missingCommand)

end Words

/-- The request that the words of a command line make.  A setting that is given behind the command
wins over the same one in front of it. -/
def CommandLine.parse (words : List OsString) : Except Detour CommandLine := do
  let (outer, command) ← (Words.empty .program).read false words
  match command with
  | none =>
    let outer ← outer.settle
    if outer.given = [] then throw .nothing else throw (.mistake .missingCommand)
  | some (scope, rest) =>
    let (inner, _) ← (Words.empty scope).read false rest
    let inner ← inner.complete
    let outer ← outer.settle
    outer.checkConflict
    let request ← inner.request (inner.argument.getD [])
    return {
      config := (inner.config.or outer.config).map fun v => ⟨v⟩
      verbose := if .verbose ∈ inner.given then inner.verbose else outer.verbose
      quiet := .quiet ∈ inner.given ∨ .quiet ∈ outer.given
      request }

end SmaliBuild
