/-!
# Names in bytes

Names of files are bytes, and bytes need not be text. Here a name is written as text all the same:
a byte that belongs to no character is spelled by U+0000, which stands in no name, and the
character that has the number of the byte.
-/

namespace CallFlow.Text.Name

/-- What a name is made of. -/
inductive Unit
  | char (c : Char)
  /-- A byte that belongs to no character. -/
  | stray (byte : UInt8)
deriving DecidableEq, Repr, Inhabited

/-- Whether a character behind U+0000 spells a byte. A byte below is a character of its own. -/
def spellsByte (c : Char) : Bool :=
  0x80 ≤ c.toNat && c.toNat ≤ 0xff

/-- What a spelled name is made of. -/
def units : List Char → List Unit
  | [] => []
  | [c] => [.char c]
  | c :: d :: rest =>
    if c = '\x00' ∧ spellsByte d then .stray d.toNat.toUInt8 :: units rest
    else .char c :: units (d :: rest)

def Unit.bytes : Unit → List UInt8
  | .char c => String.utf8EncodeChar c
  | .stray byte => [byte]

def Unit.isChar : Unit → Bool
  | .char _ => true
  | .stray _ => false

/-- The bytes of a spelled name. -/
def bytes (name : List Char) : List UInt8 :=
  (units name).flatMap Unit.bytes

/-- Whether a spelled name is text. -/
def isText (name : List Char) : Bool :=
  (units name).all Unit.isChar

/-! ### Names as they are shown -/

/-- Whether a byte can follow others in a character. -/
def continues (byte : UInt8) : Bool :=
  0x80 ≤ byte && byte ≤ 0xbf

/-- Whether a character of more than two bytes can start with these two. -/
def starts (first second : UInt8) : Bool :=
  if first = 0xe0 then 0xa0 ≤ second && second ≤ 0xbf
  else if first = 0xed then 0x80 ≤ second && second ≤ 0x9f
  else if first = 0xf0 then 0x90 ≤ second && second ≤ 0xbf
  else if first = 0xf4 then 0x80 ≤ second && second ≤ 0x8f
  else 0xe1 ≤ first && first ≤ 0xf3 && continues second

/-- How many of the units behind a stray byte are the rest of the character that it starts. -/
def brokenBehind (byte : UInt8) : List Unit → Nat
  | .stray second :: .stray third :: _ =>
    if starts byte second then if 0xf0 ≤ byte && continues third then 2 else 1 else 0
  | .stray second :: _ => if starts byte second then 1 else 0
  | _ => 0

/-- The text of units, of which so many at the start are passed over. Each broken character is
shown by one U+FFFD. -/
def shownFrom : Nat → List Unit → List Char
  | _, [] => []
  | _, .char c :: rest => c :: shownFrom 0 rest
  | n + 1, .stray _ :: rest => shownFrom n rest
  | 0, .stray byte :: rest => '\ufffd' :: shownFrom (brokenBehind byte rest) rest

/-- The text that a spelled name is shown as. -/
def shown (name : List Char) : List Char :=
  shownFrom 0 (units name)

end CallFlow.Text.Name
