import SmaliBuild.CommandLine.Basic
/-!
# The commands and their options

The program has three commands besides the one for help.  Each takes one argument and some
options, of which most are common to all; the options in front of a command are those of the program
itself.
-/
namespace SmaliBuild

/-- Where on a command line an option stands: in front of the command, or behind it. -/
inductive Scope where
  | program
  | convert
  | clean
  | completions
deriving DecidableEq, Repr

inductive Flag where
  | noOptimize
  | dryRun
  | config
  | verbose
  | quiet
  | help
  | version
deriving DecidableEq, Repr

namespace Flag

def letter? : Flag → Option Char
  | noOptimize => some 'n'
  | dryRun => none
  | config => some 'c'
  | verbose => some 'v'
  | quiet => some 'q'
  | help => some 'h'
  | version => some 'V'

def word : Flag → String
  | noOptimize => "no-optimize"
  | dryRun => "dry-run"
  | config => "config"
  | verbose => "verbose"
  | quiet => "quiet"
  | help => "help"
  | version => "version"

def takesValue : Flag → Bool
  | config => true
  | _ => false

def shown : Flag → String
  | config => "--config <CONFIG>"
  | verbose => "--verbose..."
  | f => s!"--{f.word}"

def about : Flag → String
  | noOptimize => "Package without dex optimizations"
  | dryRun => "Preview what would be deleted without actually deleting"
  | config => "Path to java2smali.toml (defaults to ./java2smali.toml when present)"
  | verbose => "Increase log verbosity (-v debug, -vv trace)"
  | quiet => "Only log errors"
  | help => "Print help"
  | version => "Print version"

end Flag

namespace Scope

def commands : List Scope := [.convert, .clean, .completions]

def name : Scope → String
  | program => programName
  | convert => "convert"
  | clean => "clean"
  | completions => "completions"

def about : Scope → String
  | program => "Convert Java sources to smali"
  | convert => "Compile, dex and disassemble a Java file or directory"
  | clean => "Remove intermediate artifacts left by an aborted conversion"
  | completions => "Generate shell completions"

def ofWord? (w : OsString) : Option Scope := commands.find? fun c => .ofString c.name == w

/-- The options that are understood here, in the order in which help lists them. -/
def flags : Scope → List Flag
  | program => [.config, .verbose, .quiet, .help, .version]
  | convert => [.noOptimize, .config, .verbose, .quiet, .help]
  | clean => [.dryRun, .config, .verbose, .quiet, .help]
  | completions => [.config, .verbose, .quiet, .help]

/-- The argument that the command needs, as it is shown. -/
def argument? : Scope → Option String
  | program => none
  | convert | clean => some "<PATH>"
  | completions => some "<SHELL>"

def argumentAbout : Scope → String
  | program => ""
  | convert => "Java source file or directory of sources"
  | clean => "Java source file or directory that was being converted"
  | completions =>
    let shells := ", ".intercalate (CompletionShell.all.map CompletionShell.name)
    s!"Shell to generate completions for [possible values: {shells}]"

end Scope

/-- The name of the command for help, which is understood in front of any other. -/
def helpCommand : String := "help"
def helpAbout : String := "Print this message or the help of the given subcommand(s)"

inductive HelpTopic where
  | scope (s : Scope)
  | help
deriving DecidableEq, Repr

namespace HelpTopic

/-- Rows of two columns, the first wide enough for the longest. -/
def columns (rows : List (String × String)) : String :=
  let width := (rows.map fun r => r.1.length).foldl max 0
  String.join (rows.map fun (left, right) =>
    "  " ++ left ++ String.ofList (List.replicate (width + 2 - left.length) ' ') ++ right ++ "\n")

/-- An option as help lists it; the words stand below each other. -/
def flagColumn (f : Flag) : String :=
  let letter := match f.letter? with
    | some c => s!"-{c}, "
    | none => "    "
  letter ++ f.shown

def text : HelpTopic → String
  | scope .program =>
    let commands := Scope.commands.map (fun c => (c.name, c.about)) ++ [(helpCommand, helpAbout)]
    s!"{Scope.program.about}\n\nUsage: {programName} [OPTIONS] <COMMAND>\n\n" ++
    "Commands:\n" ++ columns commands ++ "\n" ++
    "Options:\n" ++ columns (Scope.program.flags.map fun f => (flagColumn f, f.about))
  | scope s =>
    let argument := s.argument?.getD ""
    s!"{s.about}\n\nUsage: {programName} {s.name} [OPTIONS] {argument}\n\n" ++
    "Arguments:\n" ++ columns [(argument, s.argumentAbout)] ++ "\n" ++
    "Options:\n" ++ columns (s.flags.map fun f => (flagColumn f, f.about))
  | help =>
    s!"{helpAbout}\n\nUsage: {programName} {helpCommand} [COMMAND]...\n\n" ++
    "Arguments:\n" ++ columns [("[COMMAND]...", "Print help for the subcommand(s)")]

/-- The topic that the words after the command for help lead to, or the first that leads nowhere. -/
def ofWords : List OsString → Except OsString HelpTopic
  | [] => .ok (.scope .program)
  | w :: rest =>
    let topic := if w = .ofString helpCommand then some help else (Scope.ofWord? w).map scope
    match topic, rest with
    | none, _ => .error w
    | some t, [] => .ok t
    | some _, next :: _ => .error next

end HelpTopic
end SmaliBuild
