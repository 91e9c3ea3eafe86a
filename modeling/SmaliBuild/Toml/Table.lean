import SmaliBuild.Toml.Value
/-!
# Growing TOML tables

Headers and dotted keys reach into tables that exist already.  `Entries.under?` leads a change to
the table that a path names, making the tables that are missing; it refuses what would define
something twice.
-/
namespace SmaliBuild.Toml.Entries

/-- The value under a key changed by `f`; none if `f` refuses. -/
def change? (f : Node → Option Node) (k : String) : Entries → Option Entries
  | [] => none
  | (key, node) :: rest =>
    if key.text == k then (f node).map fun node => (key, node) :: rest
    else (change? f k rest).map ((key, node) :: ·)

/-- A new key with its value, at the end. -/
def add (entries : Entries) (k : Key) (node : Node) : Entries := entries ++ [(k, node)]

/-- A new key with its value; none if the key is there. -/
def define? (entries : Entries) (k : Key) (node : Node) : Option Entries :=
  match entries.lookup? k.text with
  | some _ => none
  | none => some (entries.add k node)

/-- The table that the path leads to, changed by `f`, which is given the table's form.  With
`dotted` the path is that of a dotted key, which cannot reach into a table with a header of its own;
no path can reach into a table between braces.  The last table of an array of tables stands for the
array. -/
def under? (dotted : Bool) (f : TableForm → Entries → Option Entries) :
    List Key → TableForm → Entries → Option Entries
  | [], form, entries => f form entries
  | k :: path, _, entries =>
    let into (form : TableForm) (inner : Entries) : Option Value :=
      (under? dotted f path form inner).map (.table form)
    match entries.lookup? k.text with
    | none => do
      let table ← into (if dotted then .dotted else .implied) []
      return entries.add k (k.span, table)
    | some (span, .table form inner) =>
      if form = .inline ∨ (dotted ∧ form = .header) then none
      else do
        let table ← into form inner
        entries.change? (fun _ => some (span, table)) k.text
    | some (span, .array true items) =>
      match items.getLast? with
      | some (last, .table form inner) => do
        let table ← into form inner
        entries.change? (fun _ => some (span, .array true (items.dropLast ++ [(last, table)])))
          k.text
      | _ => none
    | some _ => none

/-- A table under a header of its own that starts with the span.  A table that was only implied
keeps its entries; any other is defined twice. -/
def openTable? (entries : Entries) (k : Key) (span : Span) : Option Entries :=
  match entries.lookup? k.text with
  | none => some (entries.add k (span, .table .header []))
  | some (_, .table .implied inner) =>
    some (Entries.add (entries.filter (·.1.text != k.text)) k (span, .table .header inner))
  | some _ => none

/-- One more table in an array of tables. -/
def pushTable? (entries : Entries) (k : Key) (span : Span) : Option Entries :=
  let fresh : Node := (span, .table .header [])
  match entries.lookup? k.text with
  | none => some (entries.add k (span, .array true [fresh]))
  | some (first, .array true items) =>
    entries.change? (fun _ => some (first, .array true (items ++ [fresh]))) k.text
  | some _ => none

/-- A value under a dotted key.  A table that a path of another kind made takes no entry. -/
def assign? (entries : Entries) (form : TableForm) (path : List Key) (k : Key) (node : Node) :
    Option Entries :=
  under? true
    (fun form entries =>
      if (form = .dotted) = (path ≠ []) then entries.define? k node else none)
    path form entries

end SmaliBuild.Toml.Entries
