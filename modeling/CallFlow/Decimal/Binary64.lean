/-!
# Rounding to binary floating point

A decimal number is read as the nearest number of the form `m · 2 ^ q` with `m < 2 ^ 53` and
`-1074 ≤ q`; of two that are equally near, the one with the even `m`.
-/

namespace CallFlow

/-- The number `digits · 10 ^ exponent`. -/
structure Decimal where
  digits : Nat
  exponent : Int
deriving DecidableEq, Repr, Inhabited

/-- The number `significand · 2 ^ exponent`. -/
structure Binary64 where
  significand : Nat
  exponent : Int
deriving DecidableEq, Repr, Inhabited

/-- `num / den` rounded to the nearest integer, a half to the even one. -/
def roundHalfEven (num den : Nat) : Nat :=
  let quotient := num / den
  let twice := 2 * (num % den)
  if twice < den then quotient
  else if den < twice then quotient + 1
  else quotient + quotient % 2

namespace Decimal

def numerator (x : Decimal) : Nat :=
  x.digits * Nat.pow 10 x.exponent.toNat

def denominator (x : Decimal) : Nat :=
  Nat.pow 10 (-x.exponent).toNat

end Decimal

namespace Binary64

/-- Every significand is below this. -/
def significandBound : Nat := Nat.pow 2 53

/-- The least significand of a number that is not near zero. -/
def leastNormal : Nat := Nat.pow 2 52

/-- `num / den / 2 ^ q` as a fraction of natural numbers. -/
def scaled (num den : Nat) (q : Int) : Nat × Nat :=
  (num * Nat.pow 2 (-q).toNat, den * Nat.pow 2 q.toNat)

/-- The number nearest to `num / den`, or `none` if that is too large. -/
def nearest? (num den : Nat) : Option Binary64 :=
  if num = 0 then some ⟨0, -1074⟩
  else
    -- the quotient has `size` or `size + 1` bits before the point
    let size : Int := (num.log2 : Int) - (den.log2 : Int) - 1
    let q0 : Int := max (size - 52) (-1074)
    let (n0, d0) := scaled num den q0
    let q := if n0 / d0 < significandBound then q0 else q0 + 1
    let (n, d) := scaled num den q
    let m := roundHalfEven n d
    let (m, q) := if m = significandBound then (leastNormal, q + 1) else (m, q)
    if q > 971 then none else some ⟨m, q⟩

/-- The number nearest to a decimal. Exponents far outside the range decide alone: a decimal from
`10 ^ 311` up is too large, one below `10 ^ (-330)` is next to zero. -/
def ofDecimal? (x : Decimal) : Option Binary64 :=
  if x.digits = 0 then some ⟨0, -1074⟩
  else if x.exponent > 310 then none
  else if x.exponent + x.digits.log2 + 1 < -330 then some ⟨0, -1074⟩
  else nearest? x.numerator x.denominator

def numerator (x : Binary64) : Nat :=
  x.significand * Nat.pow 2 x.exponent.toNat

def denominator (x : Binary64) : Nat :=
  Nat.pow 2 (-x.exponent).toNat

end Binary64

end CallFlow
