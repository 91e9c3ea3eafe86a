/-!
# The phases of a conversion

A conversion passes through its phases in one order and is aborted from any phase that runs a tool.
-/
namespace SmaliBuild

inductive Phase where
  | idle
  | compiling
  | packaging
  | disassembling
  | cleaning
  | done
  | aborted
deriving DecidableEq, Repr

namespace Phase

/-- The phase after this one if all goes well. -/
def next? : Phase → Option Phase
  | .idle => some .compiling
  | .compiling => some .packaging
  | .packaging => some .disassembling
  | .disassembling => some .cleaning
  | .cleaning => some .done
  | .done | .aborted => none

def isTerminal : Phase → Bool
  | .done | .aborted => true
  | _ => false

/-- A failure may end the conversion in this phase. -/
def canAbort : Phase → Bool
  | .compiling | .packaging | .disassembling => true
  | _ => false

def name : Phase → String
  | .idle => "idle"
  | .compiling => "compiling"
  | .packaging => "packaging"
  | .disassembling => "disassembling"
  | .cleaning => "cleaning"
  | .done => "done"
  | .aborted => "aborted"

def all : List Phase := [.idle, .compiling, .packaging, .disassembling, .cleaning, .done, .aborted]

def ofName? (s : String) : Option Phase := all.find? (·.name == s)

theorem ofName?_name (p : Phase) : ofName? p.name = some p := by cases p <;> decide

/-- The phase after `p`, or `p` if it is the last. -/
def step (p : Phase) : Phase := p.next?.getD p

/-- The phase that a failure leads to: aborted, where a failure is foreseen. -/
def abort (p : Phase) : Phase := if p.canAbort then .aborted else p

end Phase
end SmaliBuild
