import SmaliBuild.Failure
/-!
# The configured tools

A configuration says for each external tool which program runs it and with which arguments in
front of its own.  Without a configuration each tool is the program of its usual name.
-/
namespace SmaliBuild

/-- A program with the arguments that come before those of a request. -/
structure Command where
  program : String
  arguments : List String
deriving DecidableEq, Repr, Inhabited

namespace Command

def ofProgram (program : String) : Command := ⟨program, []⟩

def words (c : Command) : List String := c.program :: c.arguments

/-- The command with its words divided by spaces, for people to read. -/
def text (c : Command) : String := " ".intercalate c.words

instance : ToString Command := ⟨text⟩

/-- The command of a list of words; none if no program is named. -/
def ofWords? : List String → Option Command
  | [] => none
  | program :: arguments =>
    if Text.isAllBlank program.toList then none else some ⟨program, arguments⟩

theorem ofWords?_eq_some_iff {ws : List String} {c : Command} :
    ofWords? ws = some c ↔ ws = c.words ∧ Text.isAllBlank c.program.toList = false := by
  cases ws with
  | nil => simp [ofWords?, words]
  | cons program arguments =>
    simp only [ofWords?, words, List.cons.injEq]
    split
    case isTrue h =>
      simp only [reduceCtorEq, false_iff, not_and, Bool.not_eq_false]
      rintro ⟨rfl, rfl⟩
      exact h
    case isFalse h =>
      rw [Option.some.injEq]
      constructor
      · rintro rfl
        exact ⟨⟨rfl, rfl⟩, by simpa using h⟩
      · rintro ⟨⟨rfl, rfl⟩, _⟩
        rfl

end Command

/-- The key under which a configuration names a tool, which is also its usual program. -/
def Tool.key : Tool → String
  | .compiler => "javac"
  | .packager => "dx"
  | .disassembler => "baksmali"

def Tool.all : List Tool := [.compiler, .packager, .disassembler]

def Tool.ofKey? (k : String) : Option Tool := Tool.all.find? fun t => t.key == k

@[simp] theorem Tool.ofKey?_key (t : Tool) : Tool.ofKey? t.key = some t := by cases t <;> decide

structure Config where
  compiler : Command
  packager : Command
  disassembler : Command
deriving DecidableEq, Repr

namespace Config

/-- Each tool is the program of its usual name. -/
def standard : Config where
  compiler := .ofProgram Tool.compiler.key
  packager := .ofProgram Tool.packager.key
  disassembler := .ofProgram Tool.disassembler.key

def command (c : Config) : Tool → Command
  | .compiler => c.compiler
  | .packager => c.packager
  | .disassembler => c.disassembler

def withCommand (c : Config) (t : Tool) (cmd : Command) : Config :=
  match t with
  | .compiler => { c with compiler := cmd }
  | .packager => { c with packager := cmd }
  | .disassembler => { c with disassembler := cmd }

@[simp] theorem command_withCommand_self (c : Config) (t : Tool) (cmd : Command) :
    (c.withCommand t cmd).command t = cmd := by cases t <;> rfl

theorem command_withCommand_of_ne (c : Config) {t u : Tool} (cmd : Command) (h : u ≠ t) :
    (c.withCommand t cmd).command u = c.command u := by
  cases t <;> cases u <;> first | rfl | exact absurd rfl h

end Config
end SmaliBuild
