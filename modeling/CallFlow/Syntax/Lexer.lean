import CallFlow.Syntax.Token

/-!
# Reading tokens

A `Reader` is the unread rest of a source text with its byte offset. Each function here reads one
thing from it. Where a loop has no shorter argument it is bounded by `limit`, which callers take
at least as large as the text is long.
-/

namespace CallFlow.Syntax

/-- The unread rest of a text, and the byte offset at which it begins. -/
structure Reader where
  rest : List Char
  offset : Nat
deriving DecidableEq, Repr, Inhabited

namespace Reader

/-- Reads past `n` characters. -/
def drop : Nat → Reader → Reader
  | 0, r => r
  | n + 1, r =>
    match r.rest with
    | [] => r
    | c :: rest => drop n ⟨rest, r.offset + c.utf8Size⟩

/-- Reads the longest run of characters that satisfy `p`. -/
def takeWhile (p : Char → Bool) : List Char → Nat → List Char × Reader
  | [], offset => ([], ⟨[], offset⟩)
  | c :: rest, offset =>
    if p c then
      let (taken, r) := takeWhile p rest (offset + c.utf8Size)
      (c :: taken, r)
    else ([], ⟨c :: rest, offset⟩)

def span (p : Char → Bool) (r : Reader) : List Char × Reader :=
  takeWhile p r.rest r.offset

def skipWhile (p : Char → Bool) (r : Reader) : Reader :=
  (r.span p).2

/-! ### Blanks and comments -/

/-- Reads to behind the next `*/`. Says whether a line ended before it. -/
def skipBlockComment : Nat → Reader → Bool → Option (Reader × Bool)
  | 0, _, _ => none
  | n + 1, r, newline =>
    match r.rest with
    | [] => none
    | '*' :: '/' :: _ => some (r.drop 2, newline)
    | c :: _ => skipBlockComment n (r.drop 1) (newline || isLineEnd c)

/-- Reads past blanks and comments. `newline` says whether a line has ended since the token
before; `-->` begins a comment only then, `<!--` always. -/
def skipBlanks : Nat → Reader → Bool → Except LexicalError (Reader × Bool)
  | 0, r, newline => .ok (r, newline)
  | n + 1, r, newline =>
    match r.rest with
    | '/' :: '/' :: _ => skipBlanks n (r.skipWhile (!isLineEnd ·)) newline
    | '/' :: '*' :: _ =>
      match skipBlockComment n (r.drop 2) newline with
      | none => .error .unterminatedComment
      | some (r, newline) => skipBlanks n r newline
    | '<' :: '!' :: '-' :: '-' :: _ => skipBlanks n (r.skipWhile (!isLineEnd ·)) newline
    | '-' :: '-' :: '>' :: _ =>
      if newline then skipBlanks n (r.skipWhile (!isLineEnd ·)) newline else .ok (r, newline)
    | c :: _ =>
      if isLineEnd c then skipBlanks n (r.drop 1) true
      else if isBlank c then skipBlanks n (r.drop 1) newline
      else .ok (r, newline)
    | [] => .ok (r, newline)

/-! ### Escapes -/

/-- Reads the code point behind `\u`: four hexadecimal digits, or any number in braces. -/
def unicodeEscape? (r : Reader) : Option (Nat × Reader) :=
  match r.rest with
  | '\x7b' :: _ =>
    let (digits, r) := (r.drop 1).span (Text.isDigitIn 16)
    match r.rest, Text.hexValue? digits with
    | '\x7d' :: _, some code => if code < 0x110000 then some (code, r.drop 1) else none
    | _, _ => none
  | a :: b :: c :: d :: _ => (Text.hexValue? [a, b, c, d]).map fun code => (code, r.drop 4)
  | _ => none

def isHighSurrogate (code : Nat) : Bool := 0xD800 ≤ code && code < 0xDC00

def isLowSurrogate (code : Nat) : Bool := 0xDC00 ≤ code && code < 0xE000

/-- The characters for half a surrogate pair: its escape, in lower case. -/
def loneSurrogate (code : Nat) : List Char :=
  '\\' :: 'u' :: Nat.toDigits 16 code

/-- Reads what follows `\u` in a string; two halves of a surrogate pair make one character. -/
def stringUnicode? (r : Reader) : Option (List Char × Reader) :=
  (unicodeEscape? r).bind fun (code, r) =>
    if isHighSurrogate code then
      match r.rest with
      | '\\' :: 'u' :: _ =>
        match unicodeEscape? (r.drop 2) with
        | some (low, r') =>
          if isLowSurrogate low then
            some ([Char.ofNat (0x10000 + (code - 0xD800) * 0x400 + (low - 0xDC00))], r')
          else some (loneSurrogate code, r)
        | none => some (loneSurrogate code, r)
      | _ => some (loneSurrogate code, r)
    else if isLowSurrogate code then some (loneSurrogate code, r)
    else some ([Char.ofNat code], r)

/-- Reads an octal escape of up to three digits, at most `\377`. -/
def octalEscape (r : Reader) : List Char × Reader :=
  let (digits, _) := r.span (Text.isDigitIn 8)
  let kept := match digits with
    | a :: _ => if '4' ≤ a then digits.take 2 else digits.take 3
    | [] => []
  let code := kept.foldl (fun value c => 8 * value + (c.toNat - 48)) 0
  ([Char.ofNat code], r.drop kept.length)

/-- Reads an escape in a string or template, behind its backslash. -/
def stringEscape? (r : Reader) : Option (List Char × Reader) :=
  match r.rest with
  | [] => none
  | c :: _ =>
    if c = 'n' then some (['\n'], r.drop 1)
    else if c = 't' then some (['\t'], r.drop 1)
    else if c = 'r' then some (['\r'], r.drop 1)
    else if c = 'b' then some (['\x08'], r.drop 1)
    else if c = 'v' then some (['\x0b'], r.drop 1)
    else if c = 'f' then some (['\x0c'], r.drop 1)
    else if c = '\r' then
      match r.rest with
      | _ :: '\n' :: _ => some ([], r.drop 2)
      | _ => some ([], r.drop 1)
    else if isLineEnd c then some ([], r.drop 1)
    else if c = 'x' then
      match r.rest with
      | _ :: a :: b :: _ => (Text.hexValue? [a, b]).map fun code => ([Char.ofNat code], r.drop 3)
      | _ => none
    else if c = 'u' then stringUnicode? (r.drop 1)
    else if (Text.digitIn? 8 c).isSome then some (octalEscape r)
    else some ([c], r.drop 1)

/-! ### Words, strings and numbers -/

/-- Reads the characters of a name, the last one read first in `read`. -/
def nameFrom : Nat → List Char → Bool → Reader → Option (List Char × Bool × Reader)
  | 0, read, escaped, r => some (read.reverse, escaped, r)
  | n + 1, read, escaped, r =>
    match r.rest with
    | '\\' :: 'u' :: _ =>
      match unicodeEscape? (r.drop 2) with
      | some (code, r) =>
        let c := Char.ofNat code
        if (if read = [] then isNameStart c else isNamePart c) then
          nameFrom n (c :: read) true r
        else none
      | none => none
    | '\\' :: _ => none
    | c :: _ =>
      if (if read = [] then isNameStart c else isNamePart c) then
        nameFrom n (c :: read) escaped (r.drop 1)
      else some (read.reverse, escaped, r)
    | [] => some (read.reverse, escaped, r)

/-- Reads a string up to its closing quote; `read` holds what was read, last first. -/
def stringFrom (quote : Char) : Nat → List Char → Reader → Except LexicalError (String × Reader)
  | 0, _, _ => .error .unterminatedString
  | n + 1, read, r =>
    match r.rest with
    | [] => .error .unterminatedString
    | '\\' :: _ =>
      match stringEscape? (r.drop 1) with
      | some (chars, r) => stringFrom quote n (chars.reverse ++ read) r
      | none => .error .malformedEscape
    | c :: _ =>
      if c = quote then .ok (String.ofList read.reverse, r.drop 1)
      else if c = '\n' || c = '\r' then .error .unterminatedString
      else stringFrom quote n (c :: read) (r.drop 1)

/-- Whether separators stand between digits only. -/
def separatorsFit : List Char → Bool
  | [] => true
  | '_' :: _ => false
  | [_, '_'] => false
  | _ :: '_' :: '_' :: _ => false
  | _ :: '_' :: rest => separatorsFit rest
  | _ :: rest => separatorsFit rest

/-- Reads digits of a base, which may have separators between them. -/
def digits? (base : Nat) (r : Reader) : Option (List Char × Reader) :=
  let (chars, r) := r.span fun c => Text.isDigitIn base c || c = '_'
  if separatorsFit chars then some (chars.filter (· != '_'), r) else none

/-- Reads a number written in base 2, 8 or 16, behind its prefix. -/
def prefixedNumber? (base : Nat) (r : Reader) : Option (Token × Reader) :=
  match digits? base r with
  | some ([], _) => none
  | some (digits, r) =>
    match r.rest with
    | 'n' :: _ => some (.bigint, r.drop 1)
    | _ => some (.number ⟨Text.valueOf base digits, 0⟩, r)
  | none => none

/-- Reads an exponent, if there is one; `none` if it has no digits. -/
def exponent? (r : Reader) : Option (Int × Reader) :=
  let signed (negative : Bool) (r : Reader) : Option (Int × Reader) :=
    match digits? 10 r with
    | some ([], _) | none => none
    | some (digits, r) =>
      let value : Int := Text.valueOf 10 digits
      some (if negative then -value else value, r)
  match r.rest with
  | e :: sign :: _ =>
    if e = 'e' || e = 'E' then
      if sign = '-' then signed true (r.drop 2)
      else if sign = '+' then signed false (r.drop 2)
      else signed false (r.drop 1)
    else some (0, r)
  | [e] => if e = 'e' || e = 'E' then none else some (0, r)
  | [] => some (0, r)

/-- Reads a decimal number from its first digit or its point. -/
def decimalNumber? (r : Reader) : Option (Token × Reader) :=
  (digits? 10 r).bind fun (whole, r) =>
    match r.rest with
    | 'n' :: _ => if whole = [] then none else some (.bigint, r.drop 1)
    | '.' :: _ =>
      let after := r.drop 1
      if after.rest.head? = some '_' then none
      else
        (digits? 10 after).bind fun (fraction, r) =>
          (exponent? r).map fun (e, r) =>
            (.number ⟨Text.valueOf 10 (whole ++ fraction), e - fraction.length⟩, r)
    | _ => (exponent? r).map fun (e, r) => (.number ⟨Text.valueOf 10 whole, e⟩, r)

/-- Reads a number that begins with `0` and another digit: octal unless it has an 8 or a 9. -/
def legacyNumber? (r : Reader) : Option (Token × Reader) :=
  let (digits, r') := r.span Text.isDigit
  if digits.all (Text.isDigitIn 8) then
    some (.number ⟨Text.valueOf 8 digits, 0⟩, r')
  else decimalNumber? r

/-- Reads a number. A name may not follow it directly. -/
def number (r : Reader) : Token × Reader :=
  let read := match r.rest with
    | '0' :: c :: _ =>
      if c = 'x' || c = 'X' then prefixedNumber? 16 (r.drop 2)
      else if c = 'o' || c = 'O' then prefixedNumber? 8 (r.drop 2)
      else if c = 'b' || c = 'B' then prefixedNumber? 2 (r.drop 2)
      else if Text.isDigit c then legacyNumber? r
      else decimalNumber? r
    | _ => decimalNumber? r
  match read with
  | some (token, after) =>
    match after.rest with
    | c :: _ =>
      (if isNameStart c || c = '\\' then .invalid .malformedNumber else token, after)
    | [] => (token, after)
  | none => (.invalid .malformedNumber, r.drop 1)

/-- The punctuators as characters, in the same order. -/
def punctuatorChars : List (List Char × Token) :=
  punctuators.map fun p => (p.toList, .punct p)

/-- The first punctuator that the text begins with. -/
def punctuator? (r : Reader) : Option (Token × Reader) :=
  (punctuatorChars.find? fun p => p.1.isPrefixOf r.rest).map fun p =>
    (p.2, r.drop p.1.length)

/-- Reads a token from a text that does not begin with a blank or a comment. -/
def token (limit : Nat) (r : Reader) : Token × Reader :=
  match r.rest with
  | [] => (.eof, r)
  | c :: rest =>
    if c = '"' || c = '\x27' then
      match stringFrom c limit [] (r.drop 1) with
      | .ok (value, r) => (.string value, r)
      | .error e => (.invalid e, r.drop 1)
    else if Text.isDigit c || (c = '.' && (rest.head?.map Text.isDigit).getD false) then number r
    else if c = '#' && (rest.head?.map fun d => isNameStart d || d = '\\').getD false then
      match nameFrom limit [] false (r.drop 1) with
      | some (name, _, r) => (.privateName (String.ofList ('#' :: name)), r)
      | none => (.invalid .malformedName, r.drop 1)
    else if isNameStart c || c = '\\' then
      match nameFrom limit [] false r with
      | some (name, escaped, r) => (.word (String.ofList name) escaped, r)
      | none => (.invalid .malformedName, r.drop 1)
    else
      match r.rest with
      | '?' :: '.' :: d :: _ =>
        if Text.isDigit d then (.punct "?", r.drop 1) else (.punct "?.", r.drop 2)
      | _ => (punctuator? r).getD (.invalid .unexpectedCharacter, r.drop 1)

/-! ### Text that is not made of tokens -/

/-- Reads the body of a regular expression up to the `/` that ends it. -/
def regexBody : Nat → Bool → Reader → Option Reader
  | 0, _, _ => none
  | n + 1, inClass, r =>
    match r.rest with
    | [] => none
    | '\\' :: c :: _ => if isLineEnd c then none else regexBody n inClass (r.drop 2)
    | c :: _ =>
      if isLineEnd c then none
      else if c = '/' && !inClass then some (r.drop 1)
      else if c = '[' then regexBody n true (r.drop 1)
      else if c = ']' then regexBody n false (r.drop 1)
      else regexBody n inClass (r.drop 1)

/-- How a piece of template text ends. -/
inductive TemplateEnd
  | closed
  | substitution
deriving DecidableEq, Repr, Inhabited

/-- Reads the text of a template up to a substitution or its end. Says whether all escapes in it
are well formed. -/
def templateText : Nat → Bool → Reader → Option (TemplateEnd × Bool × Reader)
  | 0, _, _ => none
  | n + 1, valid, r =>
    match r.rest with
    | [] => none
    | '`' :: _ => some (.closed, valid, r.drop 1)
    | '$' :: '\x7b' :: _ => some (.substitution, valid, r.drop 2)
    | '\\' :: c :: _ =>
      let isFine := match stringEscape? (r.drop 1), Text.digitIn? 10 c with
        | none, _ => false
        | some _, none => true
        | some _, some 0 => ((r.rest.drop 2).head?.bind (Text.digitIn? 10)).isNone
        | some _, some _ => false
      templateText n (valid && isFine) (r.drop 2)
    | _ :: _ => templateText n valid (r.drop 1)

/-- Reads a name of markup, which may hold dashes. -/
def markupName (r : Reader) : List Char × Reader :=
  r.span fun c => isNamePart c || c = '-'

/-- Reads an attribute string of markup, which has no escapes, behind its opening quote. -/
def markupString? (quote : Char) (r : Reader) : Option Reader :=
  let after := r.skipWhile (· != quote)
  if after.rest = [] then none else some (after.drop 1)

/-- Reads text between markup tags. -/
def markupText (r : Reader) : Reader :=
  r.skipWhile fun c => c != '<' && c != '\x7b'

end Reader

end CallFlow.Syntax
