import CallFlow.Text.CharClass
import CallFlow.Text.Digits

/-!
# Characters of the source

What separates tokens, what ends a line, and what a name may consist of.
-/

namespace CallFlow.Syntax

def isLineEnd (c : Char) : Bool :=
  c = '\n' || c = '\r' || c = '\u2028' || c = '\u2029'

/-- Blanks inside a line: tabs, form feeds, a byte order mark and the spaces of Unicode. -/
def isBlank (c : Char) : Bool :=
  c = ' ' || c = '\t' || c = '\x0b' || c = '\x0c' || c = '\u00a0' || c = '\ufeff' ||
    c = '\u1680' || ('\u2000' ≤ c && c ≤ '\u200a') || c = '\u202f' || c = '\u205f' ||
    c = '\u3000'

def isAsciiLetter (c : Char) : Bool :=
  ('a' ≤ c && c ≤ 'z') || ('A' ≤ c && c ≤ 'Z')

/-- Characters outside the letters that may begin a name all the same. -/
def isOtherNameStart (c : Char) : Bool :=
  c = '\u1885' || c = '\u1886' || c = '\u2118' || c = '\u212e' || c = '\u309b' || c = '\u309c'

/-- Characters outside marks, digits and connectors that may continue a name all the same. -/
def isOtherNamePart (c : Char) : Bool :=
  c = '\u00b7' || c = '\u0387' || ('\u1369' ≤ c && c ≤ '\u1371') || c = '\u19da' ||
    c = '\u200c' || c = '\u200d' || c = '\u30fb' || c = '\uff65'

/-- Whether a name may begin with this character. -/
def isNameStart (c : Char) : Bool :=
  if c.toNat < 128 then isAsciiLetter c || c = '$' || c = '_'
  else (Text.isLetter c && c != '\u2e2f') || isOtherNameStart c

/-- Whether a name may go on with this character. -/
def isNamePart (c : Char) : Bool :=
  if c.toNat < 128 then isAsciiLetter c || Text.isDigit c || c = '$' || c = '_'
  else isNameStart c || Text.isMark c || Text.isDecimalDigit c || Text.isConnector c ||
    isOtherNamePart c

end CallFlow.Syntax
