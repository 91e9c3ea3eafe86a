import SmaliBuild.Decimal.Digits
import SmaliBuild.Shell.Spelling
/-!
# Text with escapes and conversions

How `echo` and `printf` make bytes of their arguments.
-/
namespace SmaliBuild.Shell

/-- The digits in base 8 at the beginning, at most `n`, as a byte. -/
def octalByte (n : Nat) (s : List Char) : UInt8 × List Char :=
  let digits := (s.take n).takeWhile fun c => '0' ≤ c && c ≤ '7'
  (UInt8.ofNat (ofDigits 8 (digits.map digitValue)), s.drop digits.length)

/-- The byte that an escape stands for, given what follows the backslash.  With `zero` a number has
three digits behind a zero. -/
def escape? (zero : Bool) : List Char → Option (UInt8 × List Char)
  | 'a' :: rest => some (7, rest)
  | 'b' :: rest => some (8, rest)
  | 't' :: rest => some (9, rest)
  | 'n' :: rest => some (10, rest)
  | 'v' :: rest => some (11, rest)
  | 'f' :: rest => some (12, rest)
  | 'r' :: rest => some (13, rest)
  | '\\' :: rest => some (92, rest)
  | c :: rest =>
    if '0' ≤ c ∧ c ≤ '7' then
      some (if zero && c == '0' then octalByte 3 rest else octalByte 3 (c :: rest))
    else none
  | [] => none

/-- The bytes of a text with escapes, and whether one of them ends all output. -/
def escaped (s : List Char) : Bytes × Bool := go (s.length + 1) s
where
  go : Nat → List Char → Bytes × Bool
    | 0, _ | _, [] => ([], false)
    | steps + 1, '\\' :: rest =>
      match rest with
      | 'c' :: _ => ([], true)
      | _ =>
        match escape? true rest with
        | some (b, rest) => let (t, stop) := go steps rest; (b :: t, stop)
        | none => let (t, stop) := go steps rest; (92 :: t, stop)
    | steps + 1, c :: rest => let (t, stop) := go steps rest; (toBytes [c] ++ t, stop)

def echoed (arguments : List String) : Bytes :=
  let (silent, words) := match arguments with
    | "-n" :: rest => (true, rest)
    | rest => (false, rest)
  let (bytes, stop) := escaped (" ".intercalate words).toList
  if stop || silent then bytes else bytes ++ [10]

structure Padding where
  left : Bool
  zeros : Bool
  width : Nat
  precision : Option Nat

def Padding.fill (p : Padding) (bytes : Bytes) : Bytes :=
  let missing := p.width - bytes.length
  if p.left then bytes ++ List.replicate missing 32
  else List.replicate missing (if p.zeros then 48 else 32) ++ bytes

/-- The demands at the beginning of a conversion, and what follows them. -/
def padding (s : List Char) : Padding × List Char :=
  let isFlag (c : Char) : Bool := "-0+ #".toList.contains c
  let flags := s.takeWhile isFlag
  let s := s.dropWhile isFlag
  let number (s : List Char) : Nat := ofDigits 10 ((s.takeWhile Char.isDigit).map digitValue)
  let width := number s
  let s := s.dropWhile Char.isDigit
  let (precision, s) := match s with
    | '.' :: rest => (some (number rest), rest.dropWhile Char.isDigit)
    | _ => (none, s)
  (⟨flags.contains '-', flags.contains '0' && !flags.contains '-', width, precision⟩, s)

/-- What one use of a format came to: its bytes, the arguments left, whether it took any, and
whether all output ends. -/
structure Formatted where
  bytes : Bytes
  left : List String
  took : Bool
  stop : Bool

/-- The value of a conversion, without padding; none if there is no such conversion. -/
def converted? (c : Char) (precision : Option Nat) (argument : String) : Option (Bytes × Bool) :=
  let cut (b : Bytes) : Bytes := match precision with
    | some n => b.take n
    | none => b
  let integer : Int := argument.toInt?.getD 0
  let inBase (base : Nat) : Bytes := toBytes (Nat.toDigits base integer.toNat)
  match c with
  | 's' => some (cut (toBytes argument.toList), false)
  | 'b' =>
    let (bytes, stop) := escaped argument.toList
    some (cut bytes, stop)
  | 'c' => some (toBytes (argument.toList.take 1), false)
  | 'd' | 'i' | 'u' => some (toBytes (toString integer).toList, false)
  | 'x' => some (inBase 16, false)
  | 'X' => some (toBytes ((Nat.toDigits 16 integer.toNat).map Char.toUpper), false)
  | 'o' => some (inBase 8, false)
  | _ => none

/-- A format used once.  An argument that is missing is empty. -/
def formatOnce (format : List Char) (arguments : List String) : Formatted :=
  go (format.length + 1) format arguments
where
  go : Nat → List Char → List String → Formatted
    | 0, _, as | _, [], as => ⟨[], as, false, false⟩
    | steps + 1, '\\' :: rest, as =>
      let (b, rest) := (escape? false rest).getD (92, rest)
      let f := go steps rest as
      { f with bytes := b :: f.bytes }
    | steps + 1, '%' :: '%' :: rest, as =>
      let f := go steps rest as
      { f with bytes := 37 :: f.bytes }
    | steps + 1, '%' :: rest, as =>
      match padding rest with
      | (p, c :: rest) =>
        match converted? c p.precision (as.headD "") with
        | none => ⟨[], as, false, true⟩
        | some (bytes, true) => ⟨p.fill bytes, as.tail, true, true⟩
        | some (bytes, false) =>
          let f := go steps rest as.tail
          { f with bytes := p.fill bytes ++ f.bytes, took := true }
      | (_, []) => ⟨[37], as, false, true⟩
    | steps + 1, c :: rest, as =>
      let f := go steps rest as
      { f with bytes := toBytes [c] ++ f.bytes }

/-- What `printf` writes: the format is used again as long as arguments are left. -/
def formatted (format : List Char) (arguments : List String) : Bytes :=
  go (arguments.length + 1) arguments
where
  go : Nat → List String → Bytes
    | 0, _ => []
    | uses + 1, as =>
      let f := formatOnce format as
      if f.stop ∨ f.left = [] ∨ !f.took then f.bytes else f.bytes ++ go uses f.left

end SmaliBuild.Shell
