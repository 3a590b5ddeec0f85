import CallFlow.Text.CharClass

/-!
# Text in quotes

How a text is shown between quotes in a message: what would not be seen is written as an escape.
-/

namespace CallFlow.Text

/-- Characters that are not set aside for one use by a standard, but by agreement. -/
def isPrivate (c : Char) : Bool :=
  ('\ue000' ≤ c && c ≤ '\uf8ff') || 0xF0000 ≤ c.toNat

/-- Vowels and final consonants that join the letter before them. They have a form of their own. -/
def isJoiningLetter (c : Char) : Bool :=
  '\u1160' ≤ c && c ≤ '\u11ff'

/-- Whether a character cannot be seen by itself. -/
def isUnseen (c : Char) : Bool :=
  (isWhiteSpace c && c != ' ') || isPrivate c || c = '\u00ad' ||
    (inRanges zeroWidthRanges c.toNat && !isJoiningLetter c)

/-- A character in a text in quotes. -/
def shown (c : Char) : List Char :=
  if c = '"' then ['\\', '"']
  else if c = '\\' then ['\\', '\\']
  else if c = '\n' then ['\\', 'n']
  else if c = '\r' then ['\\', 'r']
  else if c = '\t' then ['\\', 't']
  else if c.toNat = 0 then ['\\', '0']
  else if isUnseen c then '\\' :: 'u' :: '\x7b' :: Nat.toDigits 16 c.toNat ++ ['\x7d']
  else [c]

/-- A text in quotes. -/
def quoted (s : String) : String :=
  String.ofList ('"' :: s.toList.flatMap shown ++ ['"'])

end CallFlow.Text
