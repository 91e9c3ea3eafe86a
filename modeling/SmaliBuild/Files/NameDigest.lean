/-!
# The listing order of names

A directory that grows keeps its entries by a digest of their names, three rounds of mixing over
the name's bytes in blocks of 32, and lists them in the order of the digests.  `digest` computes
it; `precedes` is the order.  Nothing rests on the order being this one: it only fixes where a new
entry is put.
-/
namespace SmaliBuild.NameDigest

structure State where
  a : UInt32
  b : UInt32
  c : UInt32
  d : UInt32
deriving DecidableEq, Repr

def State.initial : State := ⟨0x67452301, 0xefcdab89, 0x98badcfe, 0x10325476⟩

def turn (x n : UInt32) : UInt32 := (x <<< n) ||| (x >>> (32 - n))

/-- How a round mixes three words, the constant it adds, the order in which it takes the words of
a block, and how far it turns. -/
structure Round where
  mix : UInt32 → UInt32 → UInt32 → UInt32
  constant : UInt32
  order : List Nat
  turns : List UInt32

def rounds : List Round := [
  ⟨fun x y z => z ^^^ (x &&& (y ^^^ z)), 0, [0, 1, 2, 3, 4, 5, 6, 7], [3, 7, 11, 19]⟩,
  ⟨fun x y z => (x &&& y) + ((x ^^^ y) &&& z), 0x5A827999, [1, 3, 5, 7, 0, 2, 4, 6],
    [3, 5, 9, 13]⟩,
  ⟨fun x y z => x ^^^ y ^^^ z, 0x6ED9EBA1, [3, 7, 2, 6, 1, 5, 0, 4], [3, 9, 11, 15]⟩]

/-- One step: the first word takes up the mixture of the others and a word of the block. -/
def State.step (mix : UInt32 → UInt32 → UInt32 → UInt32) (s : State) (x n : UInt32) : State :=
  ⟨s.d, turn (s.a + mix s.b s.c s.d + x) n, s.b, s.c⟩

def Round.run (r : Round) (block : List UInt32) (s : State) : State :=
  (r.order.zip (r.turns ++ r.turns)).foldl
    (fun s (i, n) => s.step r.mix (block.getD i 0 + r.constant) n) s

def State.absorb (s : State) (block : List UInt32) : State :=
  let t := rounds.foldl (fun t r => r.run block t) s
  ⟨s.a + t.a, s.b + t.b, s.c + t.c, s.d + t.d⟩

def signed (b : UInt8) : UInt32 := if b < 0x80 then b.toUInt32 else b.toUInt32 - 0x100

/-- The eight words of the block at the beginning of `bytes`; where bytes are missing, their number
fills the word. -/
def block (bytes : List UInt8) : List UInt32 :=
  let n := UInt32.ofNat bytes.length
  let pair := n ||| (n <<< 8)
  let fill := pair ||| (pair <<< 16)
  (List.range 8).map fun i =>
    ((bytes.drop (4 * i)).take 4).foldl (fun v b => (v <<< 8) + signed b) fill

def absorbAll (s : State) : List UInt8 → State
  | [] => s
  | b :: rest => absorbAll (s.absorb (block (b :: rest))) (rest.drop 31)
termination_by bytes => bytes.length
decreasing_by simp only [List.length_drop, List.length_cons]; omega

/-- The digest of a name and what decides between equal digests. -/
def digest (bytes : List UInt8) : UInt32 × UInt32 :=
  let s := absorbAll .initial bytes
  (s.b &&& 0xfffffffe, s.c)

/-- The first name is listed before the second. -/
def precedes (x y : List UInt8) : Bool :=
  let (d, m) := digest x
  let (d', m') := digest y
  d < d' || (d == d' && m < m')

end SmaliBuild.NameDigest
