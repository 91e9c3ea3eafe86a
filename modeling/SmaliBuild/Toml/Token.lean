import SmaliBuild.Decimal.Digits
import SmaliBuild.Toml.Value
/-!
# TOML tokens

`Token.scan?` cuts a text into tokens, each with its place.  Blanks and comments leave no token.  A
text with a string that does not end, an escape that does not exist or a control character outside
its place has no tokens at all.
-/
namespace SmaliBuild.Toml

inductive Token where
  | newline
  | dot
  | equals
  | comma
  | openBracket
  | closeBracket
  | openBrace
  | closeBrace
  /-- a string; only one on a single line can be a key -/
  | string (text : List Char) (singleLine : Bool)
  /-- characters without quotes: a bare key or part of a value -/
  | bare (text : List Char)
deriving DecidableEq, Repr

namespace Token

/-- A control character, which no string and no comment may hold; the tab is none. -/
def isControl (c : Char) : Bool := (c.toNat < 0x20 && c != '\t') || c.toNat == 0x7f

/-- The character with the number that the first `n` characters spell in base 16. -/
def byNumber? (n : Nat) (s : List Char) : Option (Char × List Char) :=
  let ds := (s.take n).map digitValue
  if ds.length = n ∧ ds.all (· < 16) ∧ (ofDigits 16 ds).isValidChar then
    some (Char.ofNat (ofDigits 16 ds), s.drop n)
  else none

/-- The character that an escape stands for, given what follows the backslash. -/
def escape? : List Char → Option (Char × List Char)
  | 'b' :: s => some ('\x08', s)
  | 't' :: s => some ('\t', s)
  | 'n' :: s => some ('\n', s)
  | 'f' :: s => some ('\x0c', s)
  | 'r' :: s => some ('\r', s)
  | 'e' :: s => some ('\x1b', s)
  | '"' :: s => some ('"', s)
  | '\\' :: s => some ('\\', s)
  | 'x' :: s => byNumber? 2 s
  | 'u' :: s => byNumber? 4 s
  | 'U' :: s => byNumber? 8 s
  | _ => none

theorem length_byNumber? {n : Nat} {s rest : List Char} {c : Char}
    (h : byNumber? n s = some (c, rest)) : rest.length ≤ s.length := by
  unfold byNumber? at h
  dsimp only at h
  split at h
  · simp only [Option.some.injEq, Prod.mk.injEq] at h
    rw [← h.2, List.length_drop]
    omega
  · exact nomatch h

theorem length_escape? {s rest : List Char} {c : Char} (h : escape? s = some (c, rest)) :
    rest.length < s.length := by
  unfold escape? at h
  split at h
  case h_12 => exact nomatch h
  case h_9 | h_10 | h_11 => have := length_byNumber? h; simp only [List.length_cons]; omega
  all_goals
    simp only [Option.some.injEq, Prod.mk.injEq] at h
    simp [h.2]

/-- The rest of a string between double quotes on one line: its text, and what follows it. -/
def basic? (s : List Char) : Option (List Char × List Char) :=
  match s with
  | [] => none
  | '"' :: rest => some ([], rest)
  | '\\' :: rest =>
    match h : escape? rest with
    | none => none
    | some (c, rest') =>
      have := length_escape? h
      (basic? rest').map fun (t, r) => (c :: t, r)
  | c :: rest =>
    if isControl c then none else (basic? rest).map fun (t, r) => (c :: t, r)
termination_by s.length

/-- The rest of a string between single quotes on one line. -/
def literal? : List Char → Option (List Char × List Char)
  | [] => none
  | '\'' :: rest => some ([], rest)
  | c :: rest => if isControl c then none else (literal? rest).map fun (t, r) => (c :: t, r)

/-- A character that a backslash at the end of a line removes. -/
def isGap (c : Char) : Bool := c == ' ' || c == '\t' || c == '\n' || c == '\r'

/-- What follows a backslash at the end of a line, the gap left out; none if more stands on the
line or the gap holds a return that ends no line. -/
def afterLine? (s : List Char) : Option (List Char) :=
  let gap := s.takeWhile isGap
  let rest := s.dropWhile isGap
  if '\n' ∈ gap.dropWhile (fun c => c == ' ' || c == '\t') ∧ returnsEndLines gap then some rest
  else none
where
  returnsEndLines : List Char → Bool
    | '\r' :: '\n' :: r => returnsEndLines r
    | '\r' :: _ => false
    | _ :: r => returnsEndLines r
    | [] => true

theorem length_afterLine? {s rest : List Char} (h : afterLine? s = some rest) :
    rest.length ≤ s.length := by
  unfold afterLine? at h
  simp only at h
  split at h
  · rw [← Option.some.inj h]
    exact (List.dropWhile_sublist _).length_le
  · exact nomatch h

/-- The rest of a string of several lines that three double quotes end.  Up to two more quotes
directly before the end belong to the text. -/
def basicLines? (s : List Char) : Option (List Char × List Char) :=
  match s with
  | [] => none
  | '"' :: '"' :: '"' :: '"' :: '"' :: rest => some (['"', '"'], rest)
  | '"' :: '"' :: '"' :: '"' :: rest => some (['"'], rest)
  | '"' :: '"' :: '"' :: rest => some ([], rest)
  | '\\' :: rest =>
    match h : afterLine? rest with
    | some rest' =>
      have := length_afterLine? h
      basicLines? rest'
    | none =>
      match h : escape? rest with
      | none => none
      | some (c, rest') =>
        have := length_escape? h
        (basicLines? rest').map fun (t, r) => (c :: t, r)
  | '\r' :: '\n' :: rest => (basicLines? rest).map fun (t, r) => ('\r' :: '\n' :: t, r)
  | c :: rest =>
    if isControl c && c != '\n' then none else (basicLines? rest).map fun (t, r) => (c :: t, r)
termination_by s.length

/-- The rest of a string of several lines that three single quotes end. -/
def literalLines? : List Char → Option (List Char × List Char)
  | [] => none
  | '\'' :: '\'' :: '\'' :: '\'' :: '\'' :: rest => some (['\'', '\''], rest)
  | '\'' :: '\'' :: '\'' :: '\'' :: rest => some (['\''], rest)
  | '\'' :: '\'' :: '\'' :: rest => some ([], rest)
  | '\r' :: '\n' :: rest => (literalLines? rest).map fun (t, r) => ('\r' :: '\n' :: t, r)
  | c :: rest =>
    if isControl c && c != '\n' then none else (literalLines? rest).map fun (t, r) => (c :: t, r)

/-- The text after the line end that may follow the opening of a string of several lines. -/
def skipLineEnd : List Char → List Char
  | '\n' :: s => s
  | '\r' :: '\n' :: s => s
  | s => s

def isBare (c : Char) : Bool := !" \t\n\r#=,.[]\x7b\x7d\"'".toList.contains c

/-- The run looks like a date, so that a blank and a time may follow in the same value. -/
def isDateLike (s : List Char) : Bool :=
  s.length == 10 && (s.zipIdx.all fun (c, i) => if i == 4 || i == 7 then c == '-' else c.isDigit)

/-- The run of unquoted characters at the beginning, and what follows it. -/
def bareRun (s : List Char) : List Char × List Char :=
  let run := s.takeWhile isBare
  let rest := s.dropWhile isBare
  match rest with
  | ' ' :: d :: rest' =>
    if isDateLike run ∧ d.isDigit then
      (run ++ ' ' :: (d :: rest').takeWhile isBare, (d :: rest').dropWhile isBare)
    else (run, rest)
  | _ => (run, rest)

/-- What the beginning of a text is: a token, or something that leaves none; and the rest. -/
def next? : List Char → Option (Option Token × List Char)
  | [] => none
  | ' ' :: s | '\t' :: s => some (none, s)
  | '\n' :: s => some (some .newline, s)
  | '\r' :: '\n' :: s => some (some .newline, s)
  | '#' :: s =>
    let comment := s.takeWhile (fun c => c != '\n' && c != '\r')
    if comment.any isControl then none
    else some (none, s.dropWhile (fun c => c != '\n' && c != '\r'))
  | '.' :: s => some (some .dot, s)
  | '=' :: s => some (some .equals, s)
  | ',' :: s => some (some .comma, s)
  | '[' :: s => some (some .openBracket, s)
  | ']' :: s => some (some .closeBracket, s)
  | '\x7b' :: s => some (some .openBrace, s)
  | '\x7d' :: s => some (some .closeBrace, s)
  | '"' :: '"' :: '"' :: s =>
    (basicLines? (skipLineEnd s)).map fun (t, r) => (some (.string t false), r)
  | '"' :: s => (basic? s).map fun (t, r) => (some (.string t true), r)
  | '\'' :: '\'' :: '\'' :: s =>
    (literalLines? (skipLineEnd s)).map fun (t, r) => (some (.string t false), r)
  | '\'' :: s => (literal? s).map fun (t, r) => (some (.string t true), r)
  | s =>
    match bareRun s with
    | ([], _) => none
    | (run, rest) => some (some (.bare run), rest)

/-- The tokens of a text that starts at byte `offset`; none if it cannot be cut.  Each step takes at
least one character, so `steps` need not exceed their number. -/
def scanFrom? : (steps : Nat) → (offset : Nat) → List Char → Option (List (Token × Span))
  | _, _, [] => some []
  | 0, _, _ :: _ => none
  | steps + 1, offset, s => do
    let (token, rest) ← next? s
    let length := Text.byteLength s - Text.byteLength rest
    let tokens ← scanFrom? steps (offset + length) rest
    return match token with
      | none => tokens
      | some t => (t, ⟨offset, length⟩) :: tokens

/-- The mark that may stand before a text in UTF-8. -/
def byteOrderMark : Char := '\uFEFF'

def scan? (s : List Char) : Option (List (Token × Span)) :=
  match s with
  | c :: rest =>
    if c = byteOrderMark then scanFrom? rest.length c.utf8Size rest else scanFrom? s.length 0 s
  | [] => some []

end Token
end SmaliBuild.Toml
