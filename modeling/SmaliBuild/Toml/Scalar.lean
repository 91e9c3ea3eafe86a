import SmaliBuild.Decimal.Digits
import SmaliBuild.Toml.Value
/-!
# Unquoted TOML values

Integers, floats, booleans, dates and times.  `Value.ofScalar?` reads a run of characters as one of
them; the classes are disjoint, so the order of the attempts does not matter.
-/
namespace SmaliBuild.Toml

/-- The digits of a number in base `base`; single underscores may stand between two of them. -/
def digits? (base : Nat) : List Char → Option (List Nat)
  | [] => none
  | [c] => if digitValue c < base then some [digitValue c] else none
  | c :: '_' :: rest =>
    if digitValue c < base then (digits? base rest).map (digitValue c :: ·) else none
  | c :: rest => if digitValue c < base then (digits? base rest).map (digitValue c :: ·) else none

/-- A sign, if there is one, and what follows it. -/
def takeSign : List Char → Bool × List Char
  | '-' :: rest => (true, rest)
  | '+' :: rest => (false, rest)
  | s => (false, s)

/-- Decimal digits without a needless zero in front. -/
def plainDigits? (s : List Char) : Option (List Nat) :=
  match digits? 10 s with
  | some (0 :: _ :: _) => none
  | ds => ds

/-- An integer: decimal with an optional sign, or by a mark in base 16, 8 or 2; it must fit into 64
bits. -/
def integer? (s : List Char) : Option Int := do
  let n : Int ← match s with
    | '0' :: 'x' :: rest => (digits? 16 rest).map fun ds => (ofDigits 16 ds : Int)
    | '0' :: 'o' :: rest => (digits? 8 rest).map fun ds => (ofDigits 8 ds : Int)
    | '0' :: 'b' :: rest => (digits? 2 rest).map fun ds => (ofDigits 2 ds : Int)
    | _ =>
      let (negative, rest) := takeSign s
      (plainDigits? rest).map fun ds =>
        if negative then -(ofDigits 10 ds : Int) else (ofDigits 10 ds : Int)
  guard (-0x8000000000000000 ≤ n ∧ n < 0x8000000000000000)
  return n

/-- A float: digits, then a fraction or an exponent or both; or a number that is none or infinite.
A number beyond the format is refused. -/
def float? (s : List Char) : Option Binary64 := do
  let (negative, rest) := takeSign s
  if rest = ['i', 'n', 'f'] then return .infinite negative
  if rest = ['n', 'a', 'n'] then return .nan
  let isMark (c : Char) : Bool := c = 'e' ∨ c = 'E'
  let body := rest.takeWhile (!isMark ·)
  let power := rest.dropWhile (!isMark ·)
  let whole ← plainDigits? (body.takeWhile (· ≠ '.'))
  let fraction ← match body.dropWhile (· ≠ '.') with
    | [] => some []
    | _ :: f => digits? 10 f
  guard (power ≠ [] ∨ fraction ≠ [])
  let exponent : Int ← match power with
    | [] => some 0
    | _ :: p =>
      let (down, p) := takeSign p
      (digits? 10 p).map fun ds => if down then -(ofDigits 10 ds : Int) else (ofDigits 10 ds : Int)
  let ds := (whole ++ fraction).dropWhile (· = 0)
  match Binary64.ofDecimal negative (ofDigits 10 ds) ds.length (exponent - fraction.length) with
  | .infinite _ => none
  | x => return x

/-- Exactly `n` decimal digits as a number, and what follows. -/
def fixedDigits? (n : Nat) (s : List Char) : Option (Nat × List Char) :=
  let ds := s.take n
  if ds.length = n ∧ ds.all Char.isDigit then some (ofDigits 10 (ds.map digitValue), s.drop n)
  else none

def char? (c : Char) : List Char → Option (List Char)
  | d :: rest => if c = d then some rest else none
  | [] => none

def daysIn (year month : Nat) : Nat :=
  if month = 2 then
    if year % 4 = 0 ∧ (year % 100 ≠ 0 ∨ year % 400 = 0) then 29 else 28
  else if month = 4 ∨ month = 6 ∨ month = 9 ∨ month = 11 then 30
  else 31

def date? (s : List Char) : Option (List Char) := do
  let (year, s) ← fixedDigits? 4 s
  let (month, s) ← fixedDigits? 2 (← char? '-' s)
  let (day, s) ← fixedDigits? 2 (← char? '-' s)
  guard (1 ≤ month ∧ month ≤ 12 ∧ 1 ≤ day ∧ day ≤ daysIn year month)
  return s

/-- A time of day at the beginning, its seconds optional; answers what follows. -/
def time? (s : List Char) : Option (List Char) := do
  let (hour, s) ← fixedDigits? 2 s
  let (minute, s) ← fixedDigits? 2 (← char? ':' s)
  guard (hour ≤ 23 ∧ minute ≤ 59)
  match s with
  | ':' :: s =>
    let (second, s) ← fixedDigits? 2 s
    guard (second ≤ 60)
    match s with
    | '.' :: s =>
      guard (s.takeWhile Char.isDigit ≠ [])
      return s.dropWhile Char.isDigit
    | s => return s
  | s => return s

/-- The distance from universal time, up to the end. -/
def isOffset : List Char → Bool
  | ['Z'] | ['z'] => true
  | sign :: s =>
    (sign == '+' || sign == '-') &&
    match fixedDigits? 2 s with
    | some (hours, ':' :: s) =>
      match fixedDigits? 2 s with
      | some (minutes, []) => minutes ≤ 59 && hours * 60 + minutes ≤ 24 * 60
      | _ => false
    | _ => false
  | [] => false

/-- A date, a time, or both, the latter perhaps with its distance from universal time. -/
def isDatetime (s : List Char) : Bool :=
  match date? s with
  | some [] => true
  | some (c :: rest) =>
    (c == 'T' || c == 't' || c == ' ') &&
    match time? rest with
    | some [] => true
    | some rest => isOffset rest
    | none => false
  | none => time? s == some []

/-- The value that a run of unquoted characters spells. -/
def Value.ofScalar? (s : List Char) : Option Value :=
  if s = ['t', 'r', 'u', 'e'] then some (.bool true)
  else if s = ['f', 'a', 'l', 's', 'e'] then some (.bool false)
  else if isDatetime s then some .datetime
  else match integer? s with
    | some n => some (.integer n)
    | none => (float? s).map .float

end SmaliBuild.Toml
