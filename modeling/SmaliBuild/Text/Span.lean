/-!
# Places in a text

Bytes are what places are counted in.
-/
namespace SmaliBuild

/-- A part of a text by its first byte and its number of bytes. -/
structure Span where
  start : Nat
  length : Nat
deriving DecidableEq, Repr, Inhabited

namespace Span

def stop (s : Span) : Nat := s.start + s.length

/-- The smallest span that covers both, the first of which starts earlier. -/
def upTo (s t : Span) : Span := ⟨s.start, t.stop - s.start⟩

end Span

def Text.byteLength : List Char → Nat
  | [] => 0
  | c :: s => c.utf8Size + byteLength s

end SmaliBuild
