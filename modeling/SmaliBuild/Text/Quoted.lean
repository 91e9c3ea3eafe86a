import SmaliBuild.Text.Hidden
import SmaliBuild.Text.Utf8
/-!
# Quoted text

A text between double quotes with what would be misread spelled out.  `quote` serves messages that
show a value; `quoteWord` serves log lines that show a command, one word at a time.  The two differ
in the control characters of ASCII and in the single quote.
-/
namespace SmaliBuild.Text

def hexDigits (n : Nat) : List Char := Nat.toDigits 16 n

def byNumber (c : Char) : List Char := ['\\', 'u', '\x7b'] ++ hexDigits c.toNat ++ ['\x7d']

def quoteChar (c : Char) : List Char :=
  if c = '\x00' then ['\\', '0']
  else if c = '\t' then ['\\', 't']
  else if c = '\r' then ['\\', 'r']
  else if c = '\n' then ['\\', 'n']
  else if c = '\\' ∨ c = '"' then ['\\', c]
  else if c.toNat < 0x20 ∨ c.toNat = 0x7f ∨ (0x80 ≤ c.toNat ∧ isHidden c) then byNumber c
  else [c]

def quote (s : List Char) : List Char := '"' :: s.flatMap quoteChar ++ ['"']

def quoteWordChar (c : Char) : List Char :=
  if c = '\'' then ['\\', '\'']
  else if (c.toNat < 0x20 ∧ c ≠ '\t' ∧ c ≠ '\r' ∧ c ≠ '\n' ∧ c ≠ '\x00') ∨ c.toNat = 0x7f then
    ['\\', 'x'] ++ (if c.toNat < 0x10 then ['0'] else []) ++ hexDigits c.toNat
  else quoteChar c

/-- A piece of a quoted word: a character, or bytes that are no text, spelled by number. -/
def quotePiece (part : Bytes) : Option Char → List Char
  | some c => quoteWordChar c
  | none => part.flatMap fun b => ['\\', 'x'] ++ hexDigits b.toNat

/-- A word of a command as log lines show it. -/
def quoteWord (w : OsString) : List Char := '"' :: go w ++ ['"']
where
  go : OsString → List Char
    | [] => []
    | b :: rest =>
      let part := (b :: rest).take (rest.length + 1 - (firstPiece b rest).2.length)
      quotePiece part (firstPiece b rest).1 ++ go (firstPiece b rest).2
  termination_by w => w.length
  decreasing_by
    have := length_firstPiece_le b rest
    simp only [List.length_cons]
    omega

end SmaliBuild.Text
