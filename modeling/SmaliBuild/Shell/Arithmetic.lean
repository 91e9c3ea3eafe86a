import SmaliBuild.Decimal.Digits
/-!
# Shell arithmetic

Integer expressions with the operators and levels of precedence that scripts use.  Division goes
toward zero and has no value by zero.
-/
namespace SmaliBuild.Shell.Arithmetic

def truth (b : Bool) : Int := if b then 1 else 0

/-- An operator between two operands: its spelling, its level, and its value. -/
structure Operator where
  spelling : String
  level : Nat
  value : Int → Int → Option Int

def operators : List Operator := [
  ⟨"||", 0, fun x y => some (truth (x ≠ 0 ∨ y ≠ 0))⟩,
  ⟨"&&", 1, fun x y => some (truth (x ≠ 0 ∧ y ≠ 0))⟩,
  ⟨"==", 2, fun x y => some (truth (x = y))⟩,
  ⟨"!=", 2, fun x y => some (truth (x ≠ y))⟩,
  ⟨"<=", 3, fun x y => some (truth (x ≤ y))⟩,
  ⟨">=", 3, fun x y => some (truth (x ≥ y))⟩,
  ⟨"<", 3, fun x y => some (truth (x < y))⟩,
  ⟨">", 3, fun x y => some (truth (x > y))⟩,
  ⟨"+", 4, fun x y => some (x + y)⟩,
  ⟨"-", 4, fun x y => some (x - y)⟩,
  ⟨"*", 5, fun x y => some (x * y)⟩,
  ⟨"/", 5, fun x y => if y = 0 then none else some (x.tdiv y)⟩,
  ⟨"%", 5, fun x y => if y = 0 then none else some (x.tmod y)⟩]

def topLevel : Nat := 6

def skipBlanks (s : List Char) : List Char := s.dropWhile fun c => c == ' ' || c == '\t' || c == '\n'

/-- The operator at the beginning, and what follows it. -/
def operator? (s : List Char) : Option (Operator × List Char) :=
  (operators.find? fun o => o.spelling.toList.isPrefixOf s).map fun o =>
    (o, s.drop o.spelling.length)

mutual

def operand? (value : String → Int) : (steps : Nat) → List Char → Option (Int × List Char)
  | 0, _ => none
  | steps + 1, s =>
    match skipBlanks s with
    | '-' :: rest => (operand? value steps rest).map fun (x, r) => (-x, r)
    | '+' :: rest => operand? value steps rest
    | '!' :: rest => (operand? value steps rest).map fun (x, r) => (truth (x = 0), r)
    | '(' :: rest => do
      let (x, rest) ← level? value steps 0 rest
      match skipBlanks rest with
      | ')' :: rest => return (x, rest)
      | _ => none
    | c :: rest =>
      if c.isDigit then
        let digits := c :: rest.takeWhile Char.isDigit
        let base := if c = '0' then 8 else 10
        some (ofDigits base (digits.map digitValue), rest.dropWhile Char.isDigit)
      else if c.isAlpha || c == '_' then
        let isMore (c : Char) : Bool := c.isAlphanum || c == '_'
        some (value (String.ofList (c :: rest.takeWhile isMore)), rest.dropWhile isMore)
      else none
    | [] => none

/-- An expression of operators of the level and above. -/
def level? (value : String → Int) : (steps : Nat) → (level : Nat) → List Char →
    Option (Int × List Char)
  | 0, _, _ => none
  | steps + 1, level, s =>
    if level = topLevel then operand? value steps s
    else do
      let (x, s) ← level? value steps (level + 1) s
      more? value steps level x s

/-- What operators of the level add to a first operand; they group from the left. -/
def more? (value : String → Int) : (steps : Nat) → (level : Nat) → Int → List Char →
    Option (Int × List Char)
  | 0, _, _, _ => none
  | steps + 1, level, x, s =>
    match operator? (skipBlanks s) with
    | some (o, rest) =>
      if o.level = level then do
        let (y, rest) ← level? value steps (level + 1) rest
        more? value steps level (← o.value x y) rest
      else some (x, s)
    | none => some (x, s)

end

/-- The value of an expression; an empty one is 0. -/
def evaluate? (value : String → Int) (s : List Char) : Option Int :=
  if skipBlanks s = [] then some 0
  else match level? value (8 * s.length + 16) 0 s with
    | some (x, rest) => if skipBlanks rest = [] then some x else none
    | none => none

end SmaliBuild.Shell.Arithmetic
