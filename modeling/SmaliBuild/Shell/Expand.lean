import SmaliBuild.Shell.Arithmetic
import SmaliBuild.Shell.Pattern
import SmaliBuild.Shell.Script
import SmaliBuild.Shell.Session
/-!
# What words stand for

A word becomes fields in three steps: its pieces are put in, what is not quoted is cut at blanks,
and a field with wild characters becomes the names of the files that fit it, if there are any.
-/
namespace SmaliBuild.Shell

/-- A part of what a word stands for. -/
inductive Fragment where
  | chars (s : List Char) (quoted : Bool)
  | cut

def isDivider (c : Char) : Bool := c == ' ' || c == '\t' || c == '\n'

/-- A value put in without quotes, cut at its blanks. -/
def cutAtBlanks (s : List Char) : List Fragment := go [] s
where
  go : List Char → List Char → List Fragment
    | acc, [] => if acc = [] then [] else [.chars acc.reverse false]
    | acc, c :: rest =>
      if isDivider c then
        (if acc = [] then [.cut] else [.chars acc.reverse false, .cut]) ++ go [] rest
      else go (c :: acc) rest

def ofValue (quoted : Bool) (s : List Char) : List Fragment :=
  if quoted then [.chars s true] else cutAtBlanks s

/-- Several values put in, each a field of its own. -/
def ofValues (quoted : Bool) : List String → List Fragment
  | [] => []
  | [v] => ofValue quoted v.toList
  | v :: vs => ofValue quoted v.toList ++ .cut :: ofValues quoted vs

/-- The characters of fragments, with their marks; cuts become blanks. -/
def marked (fs : List Fragment) : Marked :=
  fs.flatMap fun
    | .chars s quoted => s.map (·, quoted)
    | .cut => [(' ', true)]

/-- The fields that fragments make up.  A quoted fragment makes a field even if it is empty. -/
def fields (fs : List Fragment) : List Marked := go none fs
where
  go : Option Marked → List Fragment → List Marked
    | none, [] => []
    | some field, [] => [field]
    | none, .cut :: rest => go none rest
    | some field, .cut :: rest => field :: go none rest
    | field, .chars s quoted :: rest =>
      if s = [] ∧ !quoted then go field rest
      else go (some (field.getD [] ++ s.map (·, quoted))) rest

/-- The value of a parameter as it stands; none if it is not set. -/
def Session.parameter? (s : Session) (name : String) : Option String :=
  if name = "#" then some (toString s.arguments.length)
  else if name = "?" then some (toString s.status)
  else if name = "$" then some (toString processNumber)
  else if name = "!" ∨ name = "-" then some ""
  else if name = "0" then some s.name
  else if name = "@" ∨ name = "*" then
    if s.arguments = [] then none else some (" ".intercalate s.arguments)
  else match name.toNat? with
    | some n => s.arguments[n - 1]?
    | none => s.value? name

/-- A whole number as a variable holds it; other values count as 0. -/
def integerOf (s : String) : Int := s.toInt?.getD 0

/-- The number that a variable stands for in an expression. -/
def Session.number (s : Session) (name : String) : Int := ((s.value? name).map integerOf).getD 0

section
variable (run : List Char → Action (List Char))

mutual

/-- The fragments of a piece; `run` answers what a script prints. -/
def Piece.fragments : Piece → Action (List Fragment)
  | .text s quoted => return [.chars s quoted]
  | .parameter name .asItIs _ quoted => do
    let s ← get
    if name = "@" ∨ (name = "*" ∧ !quoted) then return ofValues quoted s.arguments
    else return ofValue quoted ((s.parameter? name).getD "").toList
  | .parameter name .length _ quoted => do
    let s ← get
    return ofValue quoted (toString ((s.parameter? name).getD "").length).toList
  | .parameter name (.default orEmpty) operand quoted => do
    match (← get).parameter? name with
    | some v =>
      if orEmpty ∧ v = "" then wordFragments operand else return ofValue quoted v.toList
    | none => wordFragments operand
  | .parameter name (.replaced orEmpty) operand _ => do
    match (← get).parameter? name with
    | some v => if orEmpty ∧ v = "" then return [] else wordFragments operand
    | none => return []
  | .parameter name (.assigned orEmpty) operand quoted => do
    let v? := ((← get).parameter? name).filter fun v => !(orEmpty && v == "")
    match v? with
    | some v => return ofValue quoted v.toList
    | none =>
      let v := (marked (← wordFragments operand)).map (·.1)
      modify fun s => s.assign name (String.ofList v)
      return ofValue quoted v
  | .parameter name (.withoutStart longest) operand quoted => do
    let p := marked (← wordFragments operand)
    let s ← get
    return ofValue quoted (withoutStart longest p ((s.parameter? name).getD "").toList)
  | .parameter name (.withoutEnd longest) operand quoted => do
    let p := marked (← wordFragments operand)
    let s ← get
    return ofValue quoted (withoutEnd longest p ((s.parameter? name).getD "").toList)
  | .arithmetic expression quoted => do
    let e := (marked (← wordFragments expression)).map (·.1)
    match Arithmetic.evaluate? (← get).number e with
    | some n => return ofValue quoted (toString n).toList
    | none =>
      leave 2
      return []
  | .substitution script quoted => do
    let s ← run script
    return ofValue quoted (s.reverse.dropWhile (· == '\n')).reverse

def wordFragments : List Piece → Action (List Fragment)
  | [] => return []
  | p :: ps => do
    let fs ← p.fragments
    let gs ← wordFragments ps
    return fs ++ gs

end

/-- What a word stands for where fields are not divided, with marks. -/
def markedWord (w : Word) : Action Marked := return marked (← wordFragments run w)

/-- What a word stands for where fields are not divided. -/
def textOf (w : Word) : Action String := return String.ofList ((← markedWord run w).map (·.1))

end

def cutAtSlashes : Marked → List Marked
  | [] => [[]]
  | (c, quoted) :: rest =>
    match cutAtSlashes rest with
    | [] => []
    | first :: more =>
      if c = '/' then [] :: first :: more else ((c, quoted) :: first) :: more

/-- The paths that begin with `path` and go on with segments that fit. -/
def expandPath (fs : FileSystem) (directory : Location) : List Char → List Marked → List (List Char)
  | path, [] => [path]
  | path, segment :: rest =>
    let next (name : List Char) : List (List Char) :=
      if rest.isEmpty then [path ++ name] else expandPath fs directory (path ++ name ++ ['/']) rest
    if isWild segment then
      let parent : Path := if path = [] then ⟨[dot]⟩ else ⟨toBytes path⟩
      match fs.list directory parent with
      | .error _ => []
      | .ok names =>
        let isShown (n : List Char) : Bool := n.head? != some '.' || segment.head? == some ('.', true)
          || (segment.head?.map (·.1)) == some '.'
        let fitting := (names.map (toChars ·.bytes)).filter fun n => isShown n && matchesPattern segment n
        (fitting.mergeSort fun a b => String.ofList a ≤ String.ofList b).flatMap next
    else next (segment.map (·.1))

/-- The paths of the files that a field with wild characters stands for, or the field itself. -/
def expandField (s : Session) (field : Marked) : List String :=
  let itself := String.ofList (field.map (·.1))
  if isWild field then
    let found := (expandPath s.files s.directory [] (cutAtSlashes field)).filter fun p =>
      match s.files.lstat s.directory ⟨toBytes p⟩ with
      | .ok _ => true
      | .error _ => false
    if found = [] then [itself] else found.map String.ofList
  else [itself]

def fieldsOf (run : List Char → Action (List Char)) : List Word → Action (List String)
  | [] => return []
  | w :: ws => do
    let fs ← wordFragments run w
    let s ← get
    let first := (fields fs).flatMap (expandField s)
    let rest ← fieldsOf run ws
    return first ++ rest

end SmaliBuild.Shell
