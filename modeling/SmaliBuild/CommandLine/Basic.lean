import SmaliBuild.Journal
/-!
# What a command line asks for

A request with the settings that go with every request.
-/
namespace SmaliBuild

/-- The name and the version that the program goes by. -/
def programName : String := "java2smali"
def programVersion : String := "0.3.0"

inductive CompletionShell where
  | bash
  | elvish
  | fish
  | powershell
  | zsh
deriving DecidableEq, Repr

namespace CompletionShell

def name : CompletionShell → String
  | bash => "bash"
  | elvish => "elvish"
  | fish => "fish"
  | powershell => "powershell"
  | zsh => "zsh"

def all : List CompletionShell := [.bash, .elvish, .fish, .powershell, .zsh]

def ofName? (s : String) : Option CompletionShell := all.find? fun shell => shell.name == s

@[simp] theorem ofName?_name (s : CompletionShell) : ofName? s.name = some s := by
  cases s <;> decide

end CompletionShell

inductive Request where
  | convert (path : Path) (optimize : Bool)
  | clean (path : Path) (dryRun : Bool)
  | completions (shell : CompletionShell)
deriving DecidableEq, Repr

/-- A request with its settings: the configuration file that the user named, how often more talk
was asked for, and whether silence was. -/
structure CommandLine where
  config : Option Path
  verbose : Nat
  quiet : Bool
  request : Request
deriving DecidableEq, Repr

/-- Up to which level log lines are shown. -/
def CommandLine.verbosity (c : CommandLine) : Level :=
  if c.quiet then .error
  else match c.verbose with
    | 0 => .info
    | 1 => .debug
    | _ => .trace

end SmaliBuild
