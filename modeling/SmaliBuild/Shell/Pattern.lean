/-!
# Shell patterns

A pattern is a list of atoms, each of which takes one character, but for `many`, which takes any
number.
-/
namespace SmaliBuild.Shell

/-- A character and whether it is quoted, and so stands for itself. -/
abbrev Marked := List (Char × Bool)

inductive Atom where
  | exactly (c : Char)
  | any
  | many
  | oneOf (negated : Bool) (ranges : List (Char × Char))
deriving Repr

def rangesOf : List Char → List (Char × Char)
  | a :: '-' :: b :: rest => (a, b) :: rangesOf rest
  | a :: rest => (a, a) :: rangesOf rest
  | [] => []

/-- The bracket expression that follows an opening bracket, and what comes after it.  A closing
bracket at the beginning belongs to the expression. -/
def bracket? (s : Marked) : Option (Atom × Marked) :=
  let (negated, s) := match s with
    | ('!', false) :: rest => (true, rest)
    | s => (false, s)
  let (first, s) := match s with
    | (']', false) :: rest => ([']'], rest)
    | s => ([], s)
  match s.dropWhile (· ≠ (']', false)) with
  | [] => none
  | _ :: rest =>
    some (.oneOf negated (rangesOf (first ++ (s.takeWhile (· ≠ (']', false))).map (·.1))), rest)

/-- The atoms of a pattern; at most `steps` of them. -/
def atoms : (steps : Nat) → Marked → List Atom
  | 0, _ | _, [] => []
  | steps + 1, (c, quoted) :: rest =>
    if quoted then .exactly c :: atoms steps rest
    else if c = '*' then .many :: atoms steps rest
    else if c = '?' then .any :: atoms steps rest
    else if c = '[' then
      match bracket? rest with
      | some (a, rest) => a :: atoms steps rest
      | none => .exactly c :: atoms steps rest
    else .exactly c :: atoms steps rest

/-- A single character is one that the atom takes. -/
def Atom.takes (a : Atom) (c : Char) : Bool :=
  match a with
  | .exactly d => c == d
  | .any => true
  | .many => false
  | .oneOf negated ranges => negated != ranges.any fun (a, b) => a ≤ c && c ≤ b

/-- The whole of a text is what the atoms take. -/
def fits : List Atom → List Char → Bool
  | [], s => s.isEmpty
  | .many :: p, [] => fits p []
  | .many :: p, c :: s => fits p (c :: s) || fits (.many :: p) s
  | _ :: _, [] => false
  | a :: p, c :: s => a.takes c && fits p s
termination_by p s => (s.length, p.length)

def matchesPattern (p : Marked) (s : List Char) : Bool := fits (atoms p.length p) s

/-- A pattern could stand for other texts than itself. -/
def isWild (p : Marked) : Bool := p.any fun (c, quoted) => !quoted && "*?[".toList.contains c

/-- The text without a beginning that fits the pattern. -/
def withoutStart (longest : Bool) (p : Marked) (s : List Char) : List Char :=
  let ends := List.range (s.length + 1)
  let ends := if longest then ends.reverse else ends
  match ends.find? fun n => matchesPattern p (s.take n) with
  | some n => s.drop n
  | none => s

/-- The text without an end that fits the pattern. -/
def withoutEnd (longest : Bool) (p : Marked) (s : List Char) : List Char :=
  let starts := List.range (s.length + 1)
  let starts := if longest then starts else starts.reverse
  match starts.find? fun n => matchesPattern p (s.drop n) with
  | some n => s.take n
  | none => s

end SmaliBuild.Shell
