import CallFlow.Regex.CharSet

/-!
# Regular expressions

A regular expression is searched for in a text by following all ways to match it at once. The
places of a text, before its first character, between two and behind the last one, are a list of
marks, one longer than the text. Reading an expression takes the marks of the places where it may
begin to those of the places where it may end.
-/

namespace CallFlow.Regex

/-- A condition on a place, given the characters before and behind it. -/
inductive Look
  | textStart
  | textEnd
  /-- The start or the end of a line; `returns` if a carriage return ends lines too. -/
  | lineStart (returns : Bool)
  | lineEnd (returns : Bool)
  | wordBoundary
  | notWordBoundary
  | wordStart
  | wordEnd
  /-- No word character stands before the place. -/
  | wordStartHalf
  /-- No word character stands behind the place. -/
  | wordEndHalf
deriving DecidableEq, Repr, Inhabited

/-- Whether there is a word character. -/
def isWordAt (c : Option Char) : Bool := c.any isWordChar

/-- Whether a condition holds between two characters, of which either may be missing. -/
def Look.holds (before behind : Option Char) : Look → Bool
  | .textStart => before.isNone
  | .textEnd => behind.isNone
  | .lineStart returns =>
    before.isNone || before = some '\n' ||
      (returns && before = some '\r' && behind != some '\n')
  | .lineEnd returns =>
    behind.isNone || (behind = some '\n' && !(returns && before = some '\r')) ||
      (returns && behind = some '\r')
  | .wordBoundary => isWordAt before != isWordAt behind
  | .notWordBoundary => isWordAt before = isWordAt behind
  | .wordStart => !isWordAt before && isWordAt behind
  | .wordEnd => isWordAt before && !isWordAt behind
  | .wordStartHalf => !isWordAt before
  | .wordEndHalf => !isWordAt behind

/-- The marks of the places where a condition holds, behind the character `before`. -/
def Look.marks (look : Look) (before : Option Char) : List Char → List Bool
  | [] => [look.holds before none]
  | c :: rest => look.holds before (some c) :: look.marks (some c) rest

end Regex

/-- A regular expression. -/
inductive Regex
  /-- Matches the empty text. -/
  | empty
  | set (chars : Regex.CharSet)
  | look (condition : Regex.Look)
  | seq (first second : Regex)
  | alt (first second : Regex)
  /-- At least `min` times in a row, and at most `max` times. -/
  | rep (inner : Regex) (min : Nat) (max : Option Nat)
deriving DecidableEq, Repr, Inhabited

namespace Regex

/-- Places that have either mark. -/
def either (a b : List Bool) : List Bool := List.zipWith (· || ·) a b

/-- Takes a step `n` times, or until it changes nothing. -/
def stepTimes (step : List Bool → List Bool) : Nat → List Bool → List Bool
  | 0, marks => marks
  | n + 1, marks =>
    let next := step marks
    if next = marks then marks else stepTimes step n next

/-- The places where an expression may end that begins at a marked place. On a text of `n`
characters more than `n + 1` repetitions lead nowhere else. -/
def ends (text : List Char) : Regex → List Bool → List Bool
  | .empty, marks => marks
  | .set s, marks => false :: List.zipWith (fun mark c => mark && s.contains c) marks text
  | .look l, marks => List.zipWith (· && ·) marks (l.marks none text)
  | .seq a b, marks => ends text b (ends text a marks)
  | .alt a b, marks => either (ends text a marks) (ends text b marks)
  | .rep r min max, marks =>
    let bound := text.length + 1
    let needed := stepTimes (ends text r) (Nat.min min bound) marks
    let more := match max with
      | none => bound
      | some max => Nat.min (max - min) bound
    stepTimes (fun marks => either marks (ends text r marks)) more needed

/-- Whether an expression matches some piece of a text. -/
def isMatch (r : Regex) (text : String) : Bool :=
  let chars := text.toList
  (r.ends chars (List.replicate (chars.length + 1) true)).any id

end Regex

end CallFlow
