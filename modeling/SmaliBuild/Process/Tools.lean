import SmaliBuild.Config.Basic
import SmaliBuild.Process.Basic
import SmaliBuild.Text.Quoted
import SmaliBuild.Toolchain
/-!
# Tools that are programs

`Config.toolchain` answers the requests of a conversion by starting the configured programs.  What
the compiler prints is kept and becomes the compiler's log; the other two print for the user.  How a
program ends is only noted.
-/
namespace SmaliBuild

/-- The words that a tool is started with: the configured command, then the tool's own arguments. -/
def Command.with_ (c : Command) (arguments : List OsString) : List OsString :=
  c.words.map .ofString ++ arguments

/-- A word of a command as the log shows it; one that no program can be given has no text. -/
def shownWord (w : OsString) : String :=
  if 0 ∈ w then "\"<string-with-nul>\"" else String.ofList (Text.quoteWord w)

def shownCommand (words : List OsString) : String := " ".intercalate (words.map shownWord)

/-- Why a tool did not start.  A program that is not there is told apart from one that fails. -/
def Failure.ofStart (tool : Tool) (program : String) (e : IoError) : Failure :=
  if e.isAbsence then .toolchainMissing tool program else .toolInvocation tool program e

def Tool.note (message : String) (field : String × String) : Event :=
  .log ⟨.debug, none, message, [field]⟩

/-- The tool's name at the beginning of a sentence. -/
def Tool.title : Tool → String
  | .compiler => "Compiler"
  | .packager => "Packager"
  | .disassembler => "Disassembler"

/-- Starts a tool.  `finish` makes the answer of what was printed, and says what of it the user
sees. -/
def Config.start {α : Type} (c : Config) (launch : Launcher) (tool : Tool)
    (arguments : List OsString) (finish : Printed → α × Journal) (fs : FileSystem) : ToolRun α :=
  let words := (c.command tool).with_ arguments
  let begun := Tool.note s!"Running {tool}" ("command", shownCommand words)
  let run := launch words fs
  match run.ending with
  | .error e => ⟨.error (.ofStart tool (c.command tool).program e), run.files, [begun]⟩
  | .ok status =>
    let (answer, shown) := finish run.printed
    let ended := Tool.note s!"{tool.title} exited" ("status", status.text)
    ⟨.ok answer, run.files, begun :: shown ++ [ended]⟩

def Printed.events (p : Printed) : Journal := p.map fun (stream, bytes) => .output stream bytes

/-- The configured programs as the tools of a conversion. -/
def Config.toolchain (c : Config) (launch : Launcher) : Toolchain where
  compile r := c.start launch .compiler r.arguments fun p => (.ofOutput (p.on .out) (p.on .err), [])
  package r := c.start launch .packager r.arguments fun p => ((), p.events)
  disassemble r := c.start launch .disassembler r.arguments fun p => ((), p.events)

end SmaliBuild
