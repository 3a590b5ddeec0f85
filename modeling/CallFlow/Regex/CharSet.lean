import CallFlow.Regex.CaseFolding
import CallFlow.Text.CharClass

/-!
# Sets of characters

The sets that one position of a pattern may stand for, and which characters are in them.
-/

namespace CallFlow.Regex

/-- Whether a character belongs to a word: letters, marks, digits and connectors do. -/
def isWordChar (c : Char) : Bool :=
  Text.isLetter c || Text.isMark c || Text.isEnclosing c || Text.isDecimalDigit c ||
    Text.isConnector c || Text.isEnclosedLetter c || c = '\u200c' || c = '\u200d'

inductive CharSet
  /-- The characters from one to another one, by code point. -/
  | range (first last : Nat)
  | digit
  | space
  | word
  | union (a b : CharSet)
  | inter (a b : CharSet)
  | compl (a : CharSet)
  /-- What differs from a member in case only. -/
  | folded (a : CharSet)
deriving DecidableEq, Repr, Inhabited

namespace CharSet

def empty : CharSet := .range 1 0

def singleton (c : Char) : CharSet := .range c.toNat c.toNat

def diff (a b : CharSet) : CharSet := .inter a (.compl b)

def symmDiff (a b : CharSet) : CharSet := .union (a.diff b) (b.diff a)

/-- Whether a set has a code point that is a character's. -/
def hasCode : CharSet → Nat → Bool
  | .range first last, code => first ≤ code && code ≤ last
  | .digit, code => Text.isDecimalDigit (Char.ofNat code)
  | .space, code => Text.isWhiteSpace (Char.ofNat code)
  | .word, code => isWordChar (Char.ofNat code)
  | .union a b, code => a.hasCode code || b.hasCode code
  | .inter a b, code => a.hasCode code && b.hasCode code
  | .compl a, code => !a.hasCode code
  | .folded a, code => (caseVariants code).any a.hasCode

def contains (s : CharSet) (c : Char) : Bool := s.hasCode c.toNat

end CharSet

end CallFlow.Regex
