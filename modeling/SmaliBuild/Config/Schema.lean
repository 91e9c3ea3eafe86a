import SmaliBuild.Config.Basic
import SmaliBuild.Decimal.Shortest
import SmaliBuild.Text.Quoted
import SmaliBuild.Toml.Value
/-!
# The schema of a configuration

Which TOML documents are configurations: a document may hold one table of tools, and a tool is a
program or a list of words.  `Config.ofDocument` reads a document's tree; a tree that does not fit
the schema has a first mistake, in the order of the keys' bytes, and that is what it answers.
-/
namespace SmaliBuild

def Config.tableKey : String := "toolchain"

/-- Why a document does not fit the schema. -/
inductive MistakeKind where
  | unknownKey (key : String) (known : List String)
  | notACommand
  | noProgram
  | notATable (found : String)
deriving DecidableEq, Repr

namespace MistakeKind

def listed : List String → String
  | [k] => s!"`{k}`"
  | ks => "one of " ++ ", ".intercalate (ks.map fun k => s!"`{k}`")

def message : MistakeKind → String
  | .unknownKey key known => s!"unknown field `{key}`, expected {listed known}"
  | .notACommand => "data did not match any variant of untagged enum RawToolCommand"
  | .noProgram => "tool command must name a program"
  | .notATable found => s!"invalid type: {found}, expected struct ToolchainConfig"

end MistakeKind

/-- A departure from the schema and the part of the text that it is blamed on. -/
structure Mistake where
  kind : MistakeKind
  span : Span
deriving DecidableEq, Repr

namespace Config
open Toml

def toolKeys : List String := Tool.all.map Tool.key

/-- The key that stands for a date or a time in the schema's messages. -/
def datetimeKey : String := "$__toml_private_datetime"

def string? : Value → Option String
  | .string s => some s
  | _ => none

/-- The words of a command: a program alone, or a list of strings. -/
def words? : Value → Option (List String)
  | .string s => some [s]
  | .array _ items => items.mapM fun item => string? item.2
  | _ => none

def ofValue (v : Value) : Except MistakeKind Command :=
  match words? v with
  | none => .error .notACommand
  | some ws =>
    match Command.ofWords? ws with
    | none => .error .noProgram
    | some c => .ok c

/-- The entries in the order of their keys' bytes. -/
def byKey (entries : Entries) : Entries := entries.mergeSort fun a b => a.1.text ≤ b.1.text

/-- An entry of the table of tools put into a configuration. -/
def setEntry (c : Config) (e : Key × Node) : Except Mistake Config :=
  match Tool.ofKey? e.1.text with
  | none => .error ⟨.unknownKey e.1.text toolKeys, e.1.span⟩
  | some t =>
    match ofValue e.2.2 with
    | .error kind => .error ⟨kind, e.2.1⟩
    | .ok cmd => .ok (c.withCommand t cmd)

/-- The configuration that a table of tools stands for. -/
def ofTable (entries : Entries) : Except Mistake Config := (byKey entries).foldlM setEntry standard

/-- The configuration that a list of tools stands for, in the order of the tools.  Tools that are
missing are standard, and what is left over is ignored; the list as a whole is blamed. -/
def ofList (span : Span) (items : List Node) : Except Mistake Config :=
  (Tool.all.zip items).foldlM
    (fun c (t, _, v) =>
      match ofValue v with
      | .error kind => .error ⟨kind, span⟩
      | .ok cmd => .ok (c.withCommand t cmd))
    standard

/-- The configuration that the value under the key of the tools stands for. -/
def ofTools : Node → Except Mistake Config
  | (_, .table _ entries) => ofTable entries
  | (span, .array _ items) => ofList span items
  | (span, .datetime) => .error ⟨.unknownKey datetimeKey toolKeys, span⟩
  | (span, .integer n) => .error ⟨.notATable s!"integer `{n}`", span⟩
  | (span, .float x) => .error ⟨.notATable s!"floating point `{x.text}`", span⟩
  | (span, .bool b) => .error ⟨.notATable s!"boolean `{b}`", span⟩
  | (span, .string s) =>
    .error ⟨.notATable s!"string {String.ofList (Text.quote s.toList)}", span⟩

/-- The configuration that a document stands for, or its first mistake. -/
def ofDocument (entries : Entries) : Except Mistake Config :=
  (byKey entries).foldlM
    (fun _ e =>
      if e.1.text = tableKey then ofTools e.2
      else .error ⟨.unknownKey e.1.text [tableKey], e.1.span⟩)
    standard

end Config
end SmaliBuild
