import SmaliBuild.Decimal.Binary64
import SmaliBuild.Text.Span
/-!
# TOML documents as trees

A document is a table of keys and values, each with the place it has in the text.  What matters for
how a table may still be extended, its form, is part of the tree.
-/
namespace SmaliBuild.Toml

structure Key where
  text : String
  span : Span
deriving DecidableEq, Repr, Inhabited

inductive TableForm where
  /-- by a header of its own; also the whole document -/
  | header
  /-- by a header of a table below it -/
  | implied
  /-- by a dotted key -/
  | dotted
  /-- between braces -/
  | inline
deriving DecidableEq, Repr

inductive Value where
  | string (text : String)
  | integer (n : Int)
  | float (x : Binary64)
  | bool (b : Bool)
  | datetime
  | array (ofTables : Bool) (items : List (Span × Value))
  | table (form : TableForm) (entries : List (Key × Span × Value))
deriving Inhabited

/-- A value with its place in the text. -/
abbrev Node := Span × Value

/-- The keys of a table with their values, in the order in which they were first written. -/
abbrev Entries := List (Key × Node)

def Entries.lookup? (entries : Entries) (k : String) : Option Node :=
  (entries.find? fun e => e.1.text == k).map (·.2)

end SmaliBuild.Toml
