import SmaliBuild.Text.Blank
import SmaliBuild.Text.Utf8
/-!
# What the compiler printed

The compiler's exit status is not consulted.  A compile has failed exactly if the text it printed
mentions the word `error`, in lower case, wherever it stands.
-/
namespace SmaliBuild

/-- `needle` stands somewhere in the list, in one piece. -/
def occursIn {α : Type} [BEq α] (needle : List α) : List α → Bool
  | [] => needle.isEmpty
  | c :: cs => needle.isPrefixOf (c :: cs) || occursIn needle cs

theorem occursIn_iff {α : Type} [BEq α] [LawfulBEq α] (needle s : List α) :
    occursIn needle s = true ↔ needle <:+: s := by
  induction s with
  | nil => simp [occursIn]
  | cons c cs ih =>
    rw [occursIn, Bool.or_eq_true, List.isPrefixOf_iff_prefix, ih, List.infix_cons_iff]

def errorMarker : String := "error"

def mentionsError (s : List Char) : Bool := occursIn errorMarker.toList s

inductive Verdict where
  | passed
  | failed
deriving DecidableEq, Repr

/-- The text that one run of the compiler printed. -/
structure CompilerLog where
  text : List Char
deriving DecidableEq, Repr, Inhabited

namespace CompilerLog

def empty : CompilerLog := ⟨[]⟩

def push (log : CompilerLog) (s : List Char) : CompilerLog := ⟨log.text ++ s⟩

/-- The log of a run from its two streams, each decoded by itself, the error stream first. -/
def ofOutput (out err : Bytes) : CompilerLog :=
  (empty.push (Text.decodeLossy err)).push (Text.decodeLossy out)

def isBlank (log : CompilerLog) : Bool := Text.isAllBlank log.text

def verdict (log : CompilerLog) : Verdict := if mentionsError log.text then .failed else .passed

end CompilerLog
end SmaliBuild
