/-!
# Binary64 numbers

A number of the format binary64 as sign, significand and exponent, and the one nearest to a
decimal.  All of it is arithmetic on natural numbers, so nothing is rounded but once.
-/
namespace SmaliBuild

/-- A number of the format binary64.  The value of `finite` is `significand * 2 ^ exponent`, with
at most 53 bits in the significand and an exponent of -1074 or more. -/
inductive Binary64 where
  | finite (negative : Bool) (significand : Nat) (exponent : Int)
  | infinite (negative : Bool)
  | nan
deriving DecidableEq, Repr

namespace Binary64

/-- The quotient rounded to the nearest whole number, a tie to the even one. -/
def roundDiv (n d : Nat) : Nat :=
  let q := n / d
  let r := n % d
  if d < 2 * r ∨ (2 * r = d ∧ q % 2 = 1) then q + 1 else q

/-- `n * base ^ e` as a quotient of two natural numbers. -/
def scale (base n : Nat) (e : Int) : Nat × Nat :=
  if 0 ≤ e then (n * base.pow e.toNat, 1) else (n, base.pow (-e).toNat)

/-- The whole number below the binary logarithm of `n / d`, for `n` and `d` above 0. -/
def floorLog2 (n d : Nat) : Int :=
  let l : Int := (Nat.log2 n : Int) - Nat.log2 d
  let (a, b) := scale 2 d l
  if n * b < a then l - 1 else l

def ofQuotient (negative : Bool) (n d : Nat) : Binary64 :=
  if n = 0 then .finite negative 0 0
  else
    let e := max (-1074) (floorLog2 n d - 52)
    let (a, b) := scale 2 n (-e)
    let m := roundDiv a (b * d)
    let (m, e) := if m = 1 <<< 53 then (1 <<< 52, e + 1) else (m, e)
    if 971 < e then .infinite negative else .finite negative m e

/-- The number nearest to `digits * 10 ^ e`, where `digits` has `count` decimal digits.  Far outside
the range of the format the answer is known without the powers. -/
def ofDecimal (negative : Bool) (digits count : Nat) (e : Int) : Binary64 :=
  if digits = 0 then .finite negative 0 0
  else if 400 < e + count then .infinite negative
  else if e + count < -400 then .finite negative 0 0
  else
    let (n, d) := scale 10 digits e
    ofQuotient negative n d

end Binary64
end SmaliBuild
