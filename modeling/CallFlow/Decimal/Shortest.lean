import CallFlow.Decimal.Binary64

/-!
# The shortest decimal that reads back

`Binary64.shortest` finds the decimal with the fewest digits that rounds to a given number, and
of those the nearest one. `Binary64.text` writes it with all places and no exponent.
-/

namespace CallFlow

namespace Binary64

/-- The numbers that round to `x` lie between two bounds, which are given as multiples of
`2 ^ (exponent - 2)` and belong to them if the significand is even. -/
def lowerBound (x : Binary64) : Nat :=
  if x.significand = leastNormal ∧ x.exponent > -1074 then 4 * x.significand - 1
  else 4 * x.significand - 2

def upperBound (x : Binary64) : Nat :=
  4 * x.significand + 2

/-- Whether the decimal rounds to `x`. -/
def covers (x : Binary64) (candidate : Decimal) : Bool :=
  let unit := x.exponent - 2
  -- compare `candidate` with `bound · 2 ^ unit` as products of natural numbers
  let left := candidate.numerator * Nat.pow 2 (-unit).toNat
  let scale := candidate.denominator * Nat.pow 2 unit.toNat
  if x.significand % 2 = 0 then
    x.lowerBound * scale ≤ left && left ≤ x.upperBound * scale
  else
    x.lowerBound * scale < left && left < x.upperBound * scale

/-- The exponent of the first decimal digit of `num / den`, or one less. Shifts a fraction by up
to `n` further places after `k`; a logarithm to base 2 has `4096 / 1233` times the value of one
to base 10. -/
def leadingExponent (num den : Nat) : Nat → Nat → Int
  | 0, k => -(k : Int)
  | n + 1, k =>
    if Nat.pow 10 k * num < den then leadingExponent num den n (k + 1)
    else ((num * Nat.pow 10 k / den).log2 * 1233 / 4096 : Nat) - (k : Int)

/-- The two neighbours of `x` among the multiples of `10 ^ e`. -/
def neighbours (x : Binary64) (e : Int) : Decimal × Decimal :=
  let num := x.numerator * Nat.pow 10 (-e).toNat
  let den := x.denominator * Nat.pow 10 e.toNat
  (⟨num / den, e⟩, ⟨num / den + 1, e⟩)

/-- Whether the lower neighbour is at least as near to `x` as the upper one. -/
def prefersLower (x : Binary64) (e : Int) : Bool :=
  let num := x.numerator * Nat.pow 10 (-e).toNat
  let den := x.denominator * Nat.pow 10 e.toNat
  2 * (num % den) ≤ den

/-- Tries the places from `10 ^ e` down, at most `n` of them. -/
def shortestFrom (x : Binary64) : Nat → Int → Decimal
  | 0, e => (x.neighbours e).1
  | n + 1, e =>
    let (low, high) := x.neighbours e
    match x.covers low, x.covers high with
    | true, true => if x.prefersLower e then low else high
    | true, false => low
    | false, true => high
    | false, false => shortestFrom x n (e - 1)

/-- The decimal with the fewest digits that rounds to `x`. -/
def shortest (x : Binary64) : Decimal :=
  x.shortestFrom 20 (leadingExponent x.numerator x.denominator 400 0 + 1)

end Binary64

/-- The digits of a number, with as many zeros in front as are missing to `width`. -/
def paddedDigits (n width : Nat) : String :=
  let digits := Nat.toDigits 10 n
  String.ofList (List.replicate (width - digits.length) '0' ++ digits)

/-- The digits after the point without the zeros at their end. -/
def trimZeros (digits : List Char) : List Char :=
  (digits.reverse.dropWhile (· = '0')).reverse

namespace Decimal

/-- The number with all its places: no exponent, and no point behind an integer. -/
def text (x : Decimal) : String :=
  if x.exponent ≥ 0 then toString (x.digits * Nat.pow 10 x.exponent.toNat)
  else
    let places := (-x.exponent).toNat
    let whole := toString (x.digits / Nat.pow 10 places)
    let fraction := trimZeros (paddedDigits (x.digits % Nat.pow 10 places) places).toList
    if fraction = [] then whole else whole ++ "." ++ String.ofList fraction

/-- The number as it is after rounding to `Binary64`: the fewest digits that read back. -/
def roundedText (x : Decimal) : String :=
  match Binary64.ofDecimal? x with
  | none => "inf"
  | some b => if b.significand = 0 then "0" else b.shortest.text

end Decimal

end CallFlow
