/-!
# Places in a source text

A `Span` is a pair of byte offsets, a `Position` a line and a column, and a `Location` holds
both for one piece of source.
-/

namespace CallFlow

/-- A line, counted from 1, and a column, counted from 0 in UTF-16 units. -/
structure Position where
  line : Nat
  column : Nat
deriving DecidableEq, Repr, Inhabited

/-- The byte offsets at which a piece of source starts and stops. -/
structure Span where
  start : Nat
  stop : Nat
deriving DecidableEq, Repr, Inhabited

/-- Where a piece of source lies, both as positions for a reader and as byte offsets. -/
structure Location where
  start : Position
  stop : Position
  span : Span
deriving DecidableEq, Repr, Inhabited

end CallFlow
