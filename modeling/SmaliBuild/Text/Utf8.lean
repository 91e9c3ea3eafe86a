/-!
# UTF-8

Bytes to characters in two manners.  `Text.decode?` accepts well-formed UTF-8 only;
`Text.decodeLossy` accepts every byte string and puts one replacement character for each maximal
part that is no beginning of a well-formed sequence or breaks one off.  Both read the pieces that
`Text.pieces` cuts the bytes into.
-/
namespace SmaliBuild

/-- A string of bytes, as a file or a stream holds it. -/
abbrev Bytes := List UInt8

namespace Text

def encode (s : List Char) : Bytes := s.flatMap String.utf8EncodeChar

/-- What may follow the first byte of a sequence of several bytes: the bounds of the second byte,
the number of ordinary continuation bytes after that one, and the bits of the first byte that
count. -/
structure Lead where
  low : UInt8
  high : UInt8
  more : Nat
  bits : Nat

/-- The rule of the standard for a first byte of 0x80 or more; none for a byte that cannot begin
a sequence. -/
def lead? (b : UInt8) : Option Lead :=
  if 0xC2 ≤ b ∧ b ≤ 0xDF then some ⟨0x80, 0xBF, 0, b.toNat - 0xC0⟩
  else if b = 0xE0 then some ⟨0xA0, 0xBF, 1, 0⟩
  else if b = 0xED then some ⟨0x80, 0x9F, 1, 13⟩
  else if 0xE1 ≤ b ∧ b ≤ 0xEF then some ⟨0x80, 0xBF, 1, b.toNat - 0xE0⟩
  else if b = 0xF0 then some ⟨0x90, 0xBF, 2, 0⟩
  else if 0xF1 ≤ b ∧ b ≤ 0xF3 then some ⟨0x80, 0xBF, 2, b.toNat - 0xF0⟩
  else if b = 0xF4 then some ⟨0x80, 0x8F, 2, 4⟩
  else none

def isContinuation (b : UInt8) : Bool := 0x80 ≤ b && b ≤ 0xBF

/-- The bytes that continue a sequence begun by `l`, as far as they are in order. -/
def Lead.tail (l : Lead) : Bytes → Bytes
  | [] => []
  | b :: rest =>
    if l.low ≤ b ∧ b ≤ l.high then b :: (rest.take l.more).takeWhile isContinuation else []

def Lead.character (l : Lead) (tail : Bytes) : Char :=
  Char.ofNat (tail.foldl (fun n b => n * 64 + (b.toNat - 0x80)) l.bits)

/-- The piece that begins with `b`: a character, or none for a malformed part; and what follows
it. -/
def firstPiece (b : UInt8) (rest : Bytes) : Option Char × Bytes :=
  if b < 0x80 then (some (Char.ofNat b.toNat), rest)
  else match lead? b with
    | none => (none, rest)
    | some l =>
      let tail := l.tail rest
      (if tail.length = l.more + 1 then some (l.character tail) else none, rest.drop tail.length)

theorem length_firstPiece_le (b : UInt8) (rest : Bytes) :
    (firstPiece b rest).2.length ≤ rest.length := by
  unfold firstPiece
  split
  · exact Nat.le_refl _
  · split
    · exact Nat.le_refl _
    · simp

/-- The bytes cut into characters and malformed parts. -/
def pieces : Bytes → List (Option Char)
  | [] => []
  | b :: rest => (firstPiece b rest).1 :: pieces (firstPiece b rest).2
termination_by bytes => bytes.length
decreasing_by
  have := length_firstPiece_le b rest
  simp only [List.length_cons]; omega

/-- The text of the bytes, U+FFFD standing for each malformed part. -/
def decodeLossy (bytes : Bytes) : List Char := (pieces bytes).map (·.getD '\uFFFD')

/-- The text of the bytes if they are well-formed. -/
def decode? (bytes : Bytes) : Option (List Char) := (pieces bytes).mapM id

def isText (bytes : Bytes) : Bool := (decode? bytes).isSome

end Text

/-- A name or an argument as the system takes it: bytes, which only by custom are UTF-8. -/
abbrev OsString := Bytes

namespace OsString

def ofString (s : String) : OsString := Text.encode s.toList

/-- The string as people are shown it, with a replacement for what is no text. -/
def shown (s : OsString) : String := String.ofList (Text.decodeLossy s)

end OsString
end SmaliBuild
