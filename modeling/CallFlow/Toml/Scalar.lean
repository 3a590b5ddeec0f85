import CallFlow.Text.Digits
import CallFlow.Toml.Value

/-!
# TOML scalars

Strings, numbers, dates and what stands between values. Each function reads one thing from the
front of a text and gives the rest of it; `none` says that the text is malformed or does not begin
with such a thing. A number may be followed by anything here: what may follow a value is checked
where values stand.
-/

namespace CallFlow.Toml

/-! ### Blanks, lines and comments -/

def isBlank (c : Char) : Bool := c = ' ' || c = '\t'

/-- Characters that may stand in comments and in strings on one line. -/
def isTextChar (c : Char) : Bool :=
  c = '\t' || (' ' ≤ c && c != '\x7f')

def skipBlanks (cs : List Char) : List Char := cs.dropWhile isBlank

/-- The text behind the end of a line. -/
def lineBreak? : List Char → Option (List Char)
  | '\n' :: rest => some rest
  | '\r' :: '\n' :: rest => some rest
  | _ => none

/-- Leaves out a comment, if there is one. -/
def skipComment : List Char → List Char
  | '#' :: rest => rest.dropWhile isTextChar
  | cs => cs

/-- The text behind a line on which nothing but blanks and a comment stands. -/
def lineEnd? (cs : List Char) : Option (List Char) :=
  match skipComment (skipBlanks cs) with
  | [] => some []
  | rest => lineBreak? rest

/-- Leaves out blanks, line breaks and comments. -/
def skipLayout : List Char → Bool → List Char
  | [], _ => []
  | c :: rest, inComment =>
    if c = '\n' then skipLayout rest false
    else if c = '\r' && rest.head? = some '\n' then skipLayout rest false
    else if inComment && isTextChar c then skipLayout rest true
    else if !inComment && isBlank c then skipLayout rest false
    else if !inComment && c = '#' then skipLayout rest true
    else c :: rest

/-! ### Strings -/

/-- The character of `count` hexadecimal digits. -/
def codeEscape? (count : Nat) (cs : List Char) : Option (Char × List Char) := do
  if cs.length < count then none
  else
    let code ← Text.hexValue? (cs.take count)
    return (← Text.charOf? code, cs.drop count)

/-- The character that an escape behind its backslash stands for. -/
def escape? : List Char → Option (Char × List Char)
  | 'b' :: rest => some ('\x08', rest)
  | 't' :: rest => some ('\t', rest)
  | 'n' :: rest => some ('\n', rest)
  | 'f' :: rest => some ('\x0c', rest)
  | 'r' :: rest => some ('\r', rest)
  | '"' :: rest => some ('"', rest)
  | '\\' :: rest => some ('\\', rest)
  | 'u' :: rest => codeEscape? 4 rest
  | 'U' :: rest => codeEscape? 8 rest
  | _ => none

/-- Puts characters before what is read behind them. -/
def prepend (chars : List Char) (read : Option (List Char × List Char)) :
    Option (List Char × List Char) :=
  read.map fun (more, rest) => (chars ++ more, rest)

/-- Reads a string on one line with escapes, behind its quote. -/
def basicFrom : Nat → List Char → Option (List Char × List Char)
  | 0, _ => none
  | n + 1, cs =>
    match cs with
    | [] => none
    | '"' :: rest => some ([], rest)
    | '\\' :: rest =>
      match escape? rest with
      | some (c, rest) => prepend [c] (basicFrom n rest)
      | none => none
    | c :: rest => if isTextChar c then prepend [c] (basicFrom n rest) else none

/-- Reads a string on one line without escapes, behind its quote. -/
def literalFrom : List Char → Option (List Char × List Char)
  | [] => none
  | '\x27' :: rest => some ([], rest)
  | c :: rest => if isTextChar c then prepend [c] (literalFrom rest) else none

/-- Three to five quotes end a string of several lines; those before the last three belong to
it. Fewer quotes are text, and more are refused. -/
inductive QuoteRun
  | text
  | ending (before : Nat)
  | refused
deriving DecidableEq, Repr

def QuoteRun.ofLength (n : Nat) : QuoteRun :=
  if n < 3 then .text else if n < 6 then .ending (n - 3) else .refused

/-- The text behind a backslash at the end of a line: what is blank before the next character is
left out. -/
def continuedLine? (cs : List Char) : Option (List Char) :=
  (lineBreak? (skipBlanks cs)).map skipGap
where
  skipGap : List Char → List Char
    | [] => []
    | c :: rest =>
      if isBlank c || c = '\n' || (c = '\r' && rest.head? = some '\n') then skipGap rest
      else c :: rest

/-- Reads a string of several lines behind its quotes; `escapes` says whether a backslash begins an
escape. -/
def linesFrom (quote : Char) (escapes : Bool) : Nat → List Char → Option (List Char × List Char)
  | 0, _ => none
  | n + 1, cs =>
    match cs with
    | [] => none
    | c :: rest =>
      if c = quote then
        let quotes := cs.takeWhile (· = quote)
        let rest := cs.dropWhile (· = quote)
        match QuoteRun.ofLength quotes.length with
        | .text => prepend quotes (linesFrom quote escapes n rest)
        | .ending before => some (quotes.take before, rest)
        | .refused => none
      else if c = '\\' && escapes then
        match continuedLine? rest with
        | some rest => linesFrom quote escapes n rest
        | none =>
          match escape? rest with
          | some (c, rest) => prepend [c] (linesFrom quote escapes n rest)
          | none => none
      else
        match lineBreak? cs with
        | some rest => prepend ['\n'] (linesFrom quote escapes n rest)
        | none => if isTextChar c then prepend [c] (linesFrom quote escapes n rest) else none

/-- Reads a string of several lines behind its quotes. A line break right there is left out. -/
def linesBehind (quote : Char) (escapes : Bool) (cs : List Char) :
    Option (List Char × List Char) :=
  linesFrom quote escapes (cs.length + 1) ((lineBreak? cs).getD cs)

/-- Reads a string on one line. -/
def lineString? : List Char → Option (List Char × List Char)
  | '"' :: rest => basicFrom (rest.length + 1) rest
  | '\x27' :: rest => literalFrom rest
  | _ => none

/-- Reads a string. -/
def string? : List Char → Option (List Char × List Char)
  | '"' :: '"' :: '"' :: rest => linesBehind '"' true rest
  | '\x27' :: '\x27' :: '\x27' :: rest => linesBehind '\x27' false rest
  | cs => lineString? cs

/-! ### Numbers -/

/-- The digits of a base at the front of a text, which may have single `_` between them. -/
def digitsOf (base : Nat) : List Char → List Char × List Char
  | [] => ([], [])
  | c :: rest =>
    if Text.isDigitIn base c ||
        (c = '_' && rest.head?.any (Text.isDigitIn base)) then
      let (digits, after) := digitsOf base rest
      (c :: digits, after)
    else ([], c :: rest)

/-- Reads one or more digits of a base, the first of which is no `_`. -/
def digits? (base : Nat) (cs : List Char) : Option (List Char × List Char) :=
  if cs.head?.any (Text.isDigitIn base) then
    let (digits, rest) := digitsOf base cs
    some (digits.filter (· ≠ '_'), rest)
  else none

/-- The integers of 64 bits. -/
def fits (value : Int) : Bool := -9223372036854775808 ≤ value && value ≤ 9223372036854775807

def integer? (value : Int) : Option Value :=
  if fits value then some (.integer value) else none

/-- Reads an integer of base 2, 8 or 16 behind its prefix. -/
def prefixed? (base : Nat) (cs : List Char) : Option (Value × List Char) := do
  let (digits, rest) ← digits? base cs
  return (← integer? (Text.valueOf base digits), rest)

/-- Reads the digits behind the point of a number, if there is one. -/
def fraction? : List Char → Option (Option (List Char) × List Char)
  | '.' :: rest => do
    let (digits, rest) ← digits? 10 rest
    return (some digits, rest)
  | cs => some (none, cs)

/-- Reads an exponent, if there is one. -/
def exponent? (cs : List Char) : Option (Option Int × List Char) :=
  match cs with
  | e :: rest =>
    if e = 'e' || e = 'E' then do
      let negative := rest.head? = some '-'
      let signed := rest.head? = some '-' || rest.head? = some '+'
      let (digits, rest) ← digits? 10 (if signed then rest.drop 1 else rest)
      let value : Int := Text.valueOf 10 digits
      return (some (if negative then -value else value), rest)
    else some (none, cs)
  | [] => some (none, cs)

/-- Reads a decimal number behind its sign. A `0` at its front stands alone. -/
def decimal? (negative : Bool) (cs : List Char) : Option (Value × List Char) := do
  let (whole, rest) ←
    match cs with
    | '0' :: rest => some (['0'], rest)
    | _ => digits? 10 cs
  let (fraction, rest) ← fraction? rest
  let (exponent, rest) ← exponent? rest
  let places := fraction.getD []
  let digits := Text.valueOf 10 (whole ++ places)
  if fraction.isNone && exponent.isNone then
    return (← integer? (if negative then -(digits : Int) else digits), rest)
  else
    let number ← Number.ofDecimal? negative ⟨digits, exponent.getD 0 - places.length⟩
    return (.float number, rest)

/-- Reads a number behind its sign. -/
def unsigned? (negative : Bool) : List Char → Option (Value × List Char)
  | 'i' :: 'n' :: 'f' :: rest => some (.float (.infinite negative), rest)
  | 'n' :: 'a' :: 'n' :: rest => some (.float .undefined, rest)
  | cs => decimal? negative cs

/-- Reads a number. -/
def number? : List Char → Option (Value × List Char)
  | '+' :: rest => unsigned? false rest
  | '-' :: rest => unsigned? true rest
  | '0' :: 'x' :: rest => prefixed? 16 rest
  | '0' :: 'o' :: rest => prefixed? 8 rest
  | '0' :: 'b' :: rest => prefixed? 2 rest
  | cs => unsigned? false cs

/-! ### Dates and times -/

/-- Reads exactly `count` digits as a number between two bounds. -/
def field? (count low high : Nat) (cs : List Char) : Option (Nat × List Char) :=
  let digits := cs.take count
  let value := Text.valueOf 10 digits
  if digits.length = count ∧ digits.all Text.isDigit ∧ low ≤ value ∧ value ≤ high then
    some (value, cs.drop count)
  else none

/-- The text behind a character. -/
def behind? (expected : Char) : List Char → Option (List Char)
  | c :: rest => if c = expected then some rest else none
  | [] => none

def isLeapYear (year : Nat) : Bool :=
  year % 4 = 0 && (year % 100 != 0 || year % 400 = 0)

def daysIn (year month : Nat) : Nat :=
  if month = 2 then (if isLeapYear year then 29 else 28)
  else if month = 4 ∨ month = 6 ∨ month = 9 ∨ month = 11 then 30
  else 31

/-- The text behind a date. -/
def day? (cs : List Char) : Option (List Char) := do
  let (year, rest) ← field? 4 0 9999 cs
  let (month, rest) ← field? 2 1 12 (← behind? '-' rest)
  let (_, rest) ← field? 2 1 (daysIn year month) (← behind? '-' rest)
  return rest

/-- The text behind a time; a minute may have a 61st second. -/
def time? (cs : List Char) : Option (List Char) := do
  let (_, rest) ← field? 2 0 23 cs
  let (_, rest) ← field? 2 0 59 (← behind? ':' rest)
  let (_, rest) ← field? 2 0 60 (← behind? ':' rest)
  match rest with
  | '.' :: digits =>
    if digits.head?.any Text.isDigit then some (digits.dropWhile Text.isDigit) else none
  | _ => some rest

/-- Leaves out what tells the time zone, if it is there. -/
def skipZone (cs : List Char) : List Char :=
  match cs with
  | c :: rest =>
    if c = 'Z' || c = 'z' then rest
    else if c = '+' || c = '-' then (zone? rest).getD cs
    else cs
  | [] => []
where
  zone? (cs : List Char) : Option (List Char) := do
    let (_, rest) ← field? 2 0 23 cs
    let (_, rest) ← field? 2 0 59 (← behind? ':' rest)
    return rest

/-- The text behind a date, a time, or both. -/
def date? (cs : List Char) : Option (List Char) :=
  match day? cs with
  | none => time? cs
  | some [] => some []
  | some (c :: rest) =>
    if c = 'T' || c = 't' || c = ' ' then
      match time? rest with
      | some after => some (skipZone after)
      | none => some (c :: rest)
    else some (c :: rest)

/-! ### All scalars -/

/-- Reads a word and gives its value. -/
def word? (word : String) (value : Value) (cs : List Char) : Option (Value × List Char) :=
  if word.toList.isPrefixOf cs then some (value, cs.drop word.length) else none

/-- Reads a value that is no array and no table. -/
def scalar? (cs : List Char) : Option (Value × List Char) :=
  match cs with
  | '"' :: _ | '\x27' :: _ =>
    (string? cs).map fun (text, rest) => (.string (String.ofList text), rest)
  | 't' :: _ => word? "true" (.boolean true) cs
  | 'f' :: _ => word? "false" (.boolean false) cs
  | _ =>
    match date? cs with
    | some rest => some (.date, rest)
    | none => number? cs

end CallFlow.Toml
