/-!
# JSON text

Values and their text over several lines: each member of an object or an array stands on a line of
its own, indented by two blanks more than what it is in.
-/

namespace CallFlow.Json

inductive Value
  | null
  | nat (n : Nat)
  | string (s : String)
  | array (items : List Value)
  | object (members : List (String × Value))
deriving Repr, Inhabited

/-- A hexadecimal digit in lower case. -/
def hexDigit (n : Nat) : Char :=
  if n < 10 then Char.ofNat (48 + n) else Char.ofNat (87 + n)

/-- How a character is written in a string. -/
def escape (c : Char) : List Char :=
  if c = '"' then ['\\', '"']
  else if c = '\\' then ['\\', '\\']
  else if c = '\x08' then ['\\', 'b']
  else if c = '\x0c' then ['\\', 'f']
  else if c = '\n' then ['\\', 'n']
  else if c = '\r' then ['\\', 'r']
  else if c = '\t' then ['\\', 't']
  else if c.toNat < 0x20 then
    ['\\', 'u', '0', '0', hexDigit (c.toNat / 16), hexDigit (c.toNat % 16)]
  else [c]

/-- A string in quotes. -/
def quoted (s : String) : List Char :=
  '"' :: s.toList.flatMap escape ++ ['"']

/-- A line end, and `depth` steps of indentation behind it. -/
def newLine (depth : Nat) : List Char :=
  '\n' :: List.replicate (2 * depth) ' '

namespace Value

mutual

/-- The text of a value that stands `depth` steps deep. -/
def pretty (depth : Nat) : Value → List Char
  | .null => "null".toList
  | .nat n => (toString n).toList
  | .string s => quoted s
  | .array [] => ['[', ']']
  | .array (item :: items) =>
    '[' :: newLine (depth + 1) ++ pretty (depth + 1) item ++ prettyItems (depth + 1) items
      ++ newLine depth ++ [']']
  | .object [] => ['\x7b', '\x7d']
  | .object ((name, value) :: members) =>
    '\x7b' :: newLine (depth + 1) ++ quoted name ++ [':', ' '] ++ pretty (depth + 1) value
      ++ prettyMembers (depth + 1) members ++ newLine depth ++ ['\x7d']

/-- The text of all items but the first. -/
def prettyItems (depth : Nat) : List Value → List Char
  | [] => []
  | item :: items => ',' :: newLine depth ++ pretty depth item ++ prettyItems depth items

/-- The text of all members but the first. -/
def prettyMembers (depth : Nat) : List (String × Value) → List Char
  | [] => []
  | (name, value) :: members =>
    ',' :: newLine depth ++ quoted name ++ [':', ' '] ++ pretty depth value
      ++ prettyMembers depth members

end

/-- The text of a value on its own. -/
def text (v : Value) : String := String.ofList (v.pretty 0)

end Value

end CallFlow.Json
