import SmaliBuild.Decimal.Binary64
/-!
# The shortest decimal of a binary number

The decimal with the fewest digits among those that are nearer to a number than to any other of its
format; of two such decimals the nearer one.  It is searched digit count by digit count: the
number's two neighbours on the grid of decimals with that many digits are tested.
-/
namespace SmaliBuild.Binary64

structure Decimal where
  digits : Nat
  exponent : Int
deriving DecidableEq, Repr

/-- The decimals that read back as `m * 2 ^ e`: their bounds in quarters of `2 ^ e`, and whether the
bounds belong to them.  Below a power of two the numbers lie twice as close. -/
structure Basin where
  low : Nat
  high : Nat
  closed : Bool

def basin (m : Nat) (e : Int) : Basin where
  low := if m = 1 <<< 52 ∧ -1074 < e then 4 * m - 1 else 4 * m - 2
  high := 4 * m + 2
  closed := m % 2 = 0

def Basin.contains (b : Basin) (n d : Nat) : Bool :=
  if b.closed then b.low * d ≤ n && n ≤ b.high * d else b.low * d < n && n < b.high * d

/-- The decimal on the grid `10 ^ u` that is in the basin of `m * 2 ^ e` and nearest to it. -/
def onGrid? (m : Nat) (e : Int) (u : Int) : Option Decimal :=
  -- `m * 2 ^ e = g * 10 ^ u` for `g = n / d`
  let (n, d₁) := scale 2 m e
  let (a, b) := scale 10 1 u
  let n := n * b
  let d := d₁ * a
  let g := n / d
  -- `k * 10 ^ u` in quarters of `2 ^ e` is `4 * k * m / g`
  let inside (k : Nat) : Bool := k != 0 && (basin m e).contains (4 * k * m * d) n
  let below := inside g
  let above := inside (g + 1)
  if below && above then
    some ⟨if 2 * (n - g * d) < d ∨ (2 * (n - g * d) = d ∧ g % 2 = 0) then g else g + 1, u⟩
  else if below then some ⟨g, u⟩
  else if above then some ⟨g + 1, u⟩
  else none

/-- The decimal exponent of the first digit of `n / d`, starting the search at `k`. -/
def firstDigit (n d : Nat) : Nat → Int → Int
  | 0, k => k
  | steps + 1, k =>
    let (a, b) := scale 10 1 k
    if n * b < a * d then firstDigit n d steps (k - 1) else k

/-- The shortest decimal of `m * 2 ^ e`, for `m` above 0. -/
def shortest (m : Nat) (e : Int) : Decimal :=
  let (n, d) := scale 2 m e
  let k := firstDigit n d 700 (floorLog2 n d * 30103 / 100000 + 2)
  -- the next power of ten may round to the number too, so the search starts on its grid
  let grids := (List.range 18).map fun (i : Nat) => k + 1 - (i : Int)
  (grids.findSome? (onGrid? m e)).getD ⟨0, 0⟩

/-- A decimal without exponent: digits, and a point where it has a fraction. -/
def Decimal.positional (x : Decimal) : String :=
  let s := Nat.toDigits 10 x.digits
  if 0 ≤ x.exponent then String.ofList (s ++ List.replicate x.exponent.toNat '0')
  else
    let places := (-x.exponent).toNat
    let s := List.replicate (places + 1 - s.length) '0' ++ s
    String.ofList (s.take (s.length - places) ++ '.' :: s.drop (s.length - places))

/-- The number written positionally with the fewest digits, and always with a point. -/
def text : Binary64 → String
  | .nan => "NaN"
  | .infinite negative => if negative then "-inf" else "inf"
  | .finite negative m e =>
    let s := if m = 0 then "0" else (shortest m e).positional
    (if negative then "-" else "") ++ if '.' ∈ s.toList then s else s ++ ".0"

end SmaliBuild.Binary64
