import CallFlow.Decimal.Shortest

/-!
# TOML values

The values of a TOML document. A table is a list of keys with their values, in the order of the
document.
-/

namespace CallFlow.Toml

/-- A floating point number. -/
inductive Number
  | finite (negative : Bool) (magnitude : Binary64)
  | infinite (negative : Bool)
  | undefined
deriving DecidableEq, Repr, Inhabited

inductive Value
  | string (text : String)
  | integer (value : Int)
  | float (value : Number)
  | boolean (value : Bool)
  /-- A date, a time, or both. -/
  | date
  | array (elements : List Value)
  | table (entries : List (String × Value))
deriving Repr, Inhabited

/-- Keys with their values. -/
abbrev Table := List (String × Value)

namespace Number

/-- The number of a sign and a decimal; a positive number that is too large is none. -/
def ofDecimal? (negative : Bool) (x : Decimal) : Option Number :=
  match Binary64.ofDecimal? x with
  | some b => some (.finite negative b)
  | none => if negative then some (.infinite true) else none

def sign (negative : Bool) : String :=
  if negative then "-" else ""

/-- The number without an exponent, with a point in any case. -/
def text : Number → String
  | .undefined => "NaN.0"
  | .infinite negative => sign negative ++ "inf.0"
  | .finite negative b =>
    let digits := if b.significand = 0 then "0" else b.shortest.text
    sign negative ++ digits ++ (if digits.toList.contains '.' then "" else ".0")

end Number

/-- The value of a key. -/
def Table.get? (table : Table) (key : String) : Option Value :=
  (table.find? fun entry => entry.1 = key).map Prod.snd

end CallFlow.Toml
