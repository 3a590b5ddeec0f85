import CallFlow.Discovery.Filter
import CallFlow.Regex.Basic
import CallFlow.Text.Digits

/-!
# Reading regular expressions

An expression is read from left to right. Text that is no expression is refused: an operator
without an operand, a bracket that is not closed, an unknown escape, and what would need more than
one pass over the text to match (references to groups and conditions on what surrounds a match).
-/

namespace CallFlow.Regex

/-- How the characters behind are understood. -/
structure Flags where
  ignoreCase : Bool := false
  multiLine : Bool := false
  dotAll : Bool := false
  /-- Whether a carriage return ends lines too. -/
  returns : Bool := false
  /-- Whether blanks and comments may stand between the parts. -/
  spaced : Bool := false
deriving DecidableEq, Repr, Inhabited

namespace Parse

/-! ### Blanks -/

/-- Leaves out blanks, and comments from `#` to the end of the line. -/
def skipSpaced : List Char → Bool → List Char
  | [], _ => []
  | c :: rest, inComment =>
    if inComment then skipSpaced rest (c != '\n')
    else if c = '#' then skipSpaced rest true
    else if Text.isWhiteSpace c then skipSpaced rest false
    else c :: rest

/-- Leaves out what the flags say. -/
def skipBlanks (flags : Flags) (cs : List Char) : List Char :=
  if flags.spaced then skipSpaced cs false else cs

/-! ### Escapes -/

/-- A part of an expression that a backslash may begin. -/
inductive Primitive
  | char (c : Char)
  | chars (s : CharSet)
  | look (l : Look)
deriving Repr, Inhabited

/-- Characters that have a meaning of their own. -/
def metaChars : List Char :=
  ['\\', '.', '+', '*', '?', '(', ')', '|', '[', ']', '\x7b', '\x7d', '^', '$', '#', '&', '-', '~']

/-- Whether a backslash before a character stands for the character itself. -/
def isEscapable (c : Char) : Bool :=
  metaChars.contains c ||
    (c.toNat < 128 && !c.isAlphanum && c != '<' && c != '>')

/-- Reads the digits of a hexadecimal escape: `count` of them, or any number in braces. -/
def hexEscape? (count : Nat) (cs : List Char) : Option (Primitive × List Char) :=
  match cs with
  | '\x7b' :: rest =>
    match rest.dropWhile (· != '\x7d') with
    | _ :: after => do
      let code ← Text.hexValue? (rest.takeWhile (· != '\x7d'))
      return (.char (← Text.charOf? code), after)
    | [] => none
  | _ =>
    if cs.length < count then none
    else do
      let code ← Text.hexValue? (cs.take count)
      return (.char (← Text.charOf? code), cs.drop count)

/-- The conditions that are written as a word in braces behind `\b`. -/
def namedLook? (name : List Char) : Option Look :=
  if name = "start".toList then some .wordStart
  else if name = "end".toList then some .wordEnd
  else if name = "start-half".toList then some .wordStartHalf
  else if name = "end-half".toList then some .wordEndHalf
  else none

/-- Reads what follows `\b`. A brace that no letter follows is left to be a repetition. -/
def boundary? (cs : List Char) : Option (Primitive × List Char) :=
  match cs with
  | '\x7b' :: c :: rest =>
    if c.isAlpha || c = '-' then
      match (c :: rest).dropWhile (· != '\x7d') with
      | _ :: after =>
        (namedLook? ((c :: rest).takeWhile (· != '\x7d'))).map fun l => (.look l, after)
      | [] => none
    else some (.look .wordBoundary, cs)
  | _ => some (.look .wordBoundary, cs)

/-- Reads an escape behind its backslash. -/
def escape? (cs : List Char) : Option (Primitive × List Char) :=
  match cs with
  | [] => none
  | c :: rest =>
    if isEscapable c then some (.char c, rest)
    else if c = 'd' then some (.chars .digit, rest)
    else if c = 'D' then some (.chars (.compl .digit), rest)
    else if c = 's' then some (.chars .space, rest)
    else if c = 'S' then some (.chars (.compl .space), rest)
    else if c = 'w' then some (.chars .word, rest)
    else if c = 'W' then some (.chars (.compl .word), rest)
    else if c = 'n' then some (.char '\n', rest)
    else if c = 't' then some (.char '\t', rest)
    else if c = 'r' then some (.char '\r', rest)
    else if c = 'f' then some (.char '\x0c', rest)
    else if c = 'v' then some (.char '\x0b', rest)
    else if c = 'a' then some (.char '\x07', rest)
    else if c = 'A' then some (.look .textStart, rest)
    else if c = 'z' then some (.look .textEnd, rest)
    else if c = 'B' then some (.look .notWordBoundary, rest)
    else if c = '<' then some (.look .wordStart, rest)
    else if c = '>' then some (.look .wordEnd, rest)
    else if c = 'b' then boundary? rest
    else if c = 'x' then hexEscape? 2 rest
    else if c = 'u' then hexEscape? 4 rest
    else if c = 'U' then hexEscape? 8 rest
    else none

/-! ### Sets in brackets -/

def rangeOf (first last : Char) : CharSet := .range first.toNat last.toNat

def unionOf (sets : List CharSet) : CharSet := sets.foldl .union .empty

/-- The sets of ASCII characters that have names. -/
def namedSet? (name : List Char) : Option CharSet :=
  let lower := rangeOf 'a' 'z'
  let upper := rangeOf 'A' 'Z'
  let decimal := rangeOf '0' '9'
  match String.ofList name with
  | "alnum" => some (unionOf [lower, upper, decimal])
  | "alpha" => some (unionOf [lower, upper])
  | "ascii" => some (.range 0 127)
  | "blank" => some (unionOf [.singleton '\t', .singleton ' '])
  | "cntrl" => some (unionOf [.range 0 31, .range 127 127])
  | "digit" => some decimal
  | "graph" => some (rangeOf '!' '~')
  | "lower" => some lower
  | "print" => some (rangeOf ' ' '~')
  | "punct" =>
    some (unionOf [rangeOf '!' '/', rangeOf ':' '@', rangeOf '[' '`', rangeOf '\x7b' '~'])
  | "space" => some (unionOf [rangeOf '\t' '\r', .singleton ' '])
  | "upper" => some upper
  | "word" => some (unionOf [lower, upper, decimal, .singleton '_'])
  | "xdigit" => some (unionOf [decimal, rangeOf 'a' 'f', rangeOf 'A' 'F'])
  | _ => none

/-- Reads `[:name:]`, behind its first bracket and colon. -/
def namedClass? (cs : List Char) : Option (CharSet × List Char) :=
  let (negated, cs) := match cs with
    | '^' :: rest => (true, rest)
    | _ => (false, cs)
  let name := cs.takeWhile fun c => c != ':' && c != ']'
  match cs.drop name.length with
  | ':' :: ']' :: rest =>
    (namedSet? name).map fun s => (if negated then .compl s else s, rest)
  | _ => none

/-- Reads one character or escape of a set. -/
def setItem? (cs : List Char) : Option (Primitive × List Char) :=
  match cs with
  | [] => none
  | '\\' :: rest => escape? rest
  | c :: rest => some (.char c, rest)

/-- The set that an item alone stands for; a condition is none. -/
def Primitive.toSet? : Primitive → Option CharSet
  | .char c => some (.singleton c)
  | .chars s => some s
  | .look _ => none

/-- Whether a dash stands between the ends of a range. -/
def isRangeDash (flags : Flags) (cs : List Char) : Bool :=
  match cs with
  | '-' :: rest =>
    match skipBlanks flags rest with
    | c :: _ => c != ']' && c != '-'
    | [] => true
  | _ => false

/-- Reads one item of a set, or a range between two characters. -/
def setRange? (flags : Flags) (cs : List Char) : Option (CharSet × List Char) := do
  let (first, rest) ← setItem? cs
  let rest := skipBlanks flags rest
  if isRangeDash flags rest then
    let (last, rest) ← setItem? (skipBlanks flags (rest.drop 1))
    match first, last with
    | .char a, .char b => if a ≤ b then some (rangeOf a b, rest) else none
    | _, _ => none
  else return (← first.toSet?, rest)

/-- How two sets are combined. -/
inductive SetOp
  | inter
  | diff
  | symmDiff
deriving DecidableEq, Repr, Inhabited

def SetOp.apply : SetOp → CharSet → CharSet → CharSet
  | .inter, a, b => .inter a b
  | .diff, a, b => a.diff b
  | .symmDiff, a, b => a.symmDiff b

/-- A set whose brackets are open. -/
structure OpenSet where
  negated : Bool
  /-- What stands left of the last operator, and that operator. -/
  left : Option (CharSet × SetOp) := none
  /-- What was read since. -/
  union : CharSet := .empty
deriving Repr, Inhabited

namespace OpenSet

def fold (flags : Flags) (s : CharSet) : CharSet :=
  if flags.ignoreCase then .folded s else s

def add (o : OpenSet) (s : CharSet) : OpenSet := { o with union := .union o.union s }

/-- What was read, the last operator being applied. -/
def value (flags : Flags) (o : OpenSet) : CharSet :=
  match o.left with
  | none => o.union
  | some (left, op) => op.apply (fold flags left) (fold flags o.union)

/-- Begins the right side of an operator. -/
def operator (flags : Flags) (o : OpenSet) (op : SetOp) : OpenSet :=
  { o with left := some (o.value flags, op), union := .empty }

/-- The set, its brackets being closed. -/
def close (flags : Flags) (o : OpenSet) : CharSet :=
  let s := fold flags (o.value flags)
  if o.negated then .compl s else s

end OpenSet

/-- Reads the beginning of a set, behind its bracket. Dashes there stand for themselves, and so
does a bracket that closes. -/
def openSet? (flags : Flags) (cs : List Char) : Option (OpenSet × List Char) :=
  let cs := skipBlanks flags cs
  let (negated, cs) := match cs with
    | '^' :: rest => (true, skipBlanks flags rest)
    | _ => (false, cs)
  let isLeading (c : Char) : Bool := c = '-' || (flags.spaced && Text.isWhiteSpace c)
  let hasDash := (cs.takeWhile isLeading).contains '-'
  let o : OpenSet := if hasDash then OpenSet.add { negated } (.singleton '-') else { negated }
  match cs.dropWhile isLeading with
  | [] => none
  | ']' :: rest => if hasDash then some (o, ']' :: rest) else some (o.add (.singleton ']'), rest)
  | cs => some (o, cs)

/-- Reads a set from behind the beginning of its innermost bracket. The sets around it that are
open too are in `outer`, innermost first. -/
def setFrom (flags : Flags) : Nat → OpenSet → List OpenSet → List Char →
    Option (CharSet × List Char)
  | 0, _, _, _ => none
  | n + 1, o, outer, cs =>
    match skipBlanks flags cs with
    | [] => none
    | '[' :: rest =>
      let named := match rest with
        | ':' :: name => namedClass? name
        | _ => none
      match named with
      | some (s, rest) => setFrom flags n (o.add s) outer rest
      | none =>
        match openSet? flags rest with
        | some (inner, rest) => setFrom flags n inner (o :: outer) rest
        | none => none
    | ']' :: rest =>
      match outer with
      | [] => some (o.close flags, rest)
      | next :: outer => setFrom flags n (next.add (o.close flags)) outer rest
    | '&' :: '&' :: rest => setFrom flags n (o.operator flags .inter) outer rest
    | '-' :: '-' :: rest => setFrom flags n (o.operator flags .diff) outer rest
    | '~' :: '~' :: rest => setFrom flags n (o.operator flags .symmDiff) outer rest
    | cs =>
      match setRange? flags cs with
      | some (s, rest) => setFrom flags n (o.add s) outer rest
      | none => none

/-- Reads a set behind its first bracket. -/
def set? (flags : Flags) (cs : List Char) : Option (CharSet × List Char) :=
  (openSet? flags cs).bind fun (o, rest) => setFrom flags (rest.length + 1) o [] rest

/-! ### Repetitions -/

/-- Reads a decimal number with blanks around it. -/
def decimal? (cs : List Char) : Option (Nat × List Char) :=
  let cs := cs.dropWhile Text.isWhiteSpace
  let digits := cs.takeWhile Char.isDigit
  let value := digits.foldl (fun v c => 10 * v + (c.toNat - 48)) 0
  if digits.isEmpty || value ≥ 4294967296 then none
  else some (value, (cs.drop digits.length).dropWhile Text.isWhiteSpace)

/-- Reads the bounds of a repetition, behind the brace. -/
def bounds? (cs : List Char) : Option ((Nat × Option Nat) × List Char) := do
  let (min, rest) ← decimal? cs
  match rest with
  | '\x7d' :: rest => some ((min, some min), rest)
  | ',' :: '\x7d' :: rest => some ((min, none), rest)
  | ',' :: rest =>
    let (max, rest) ← decimal? rest
    match rest with
    | '\x7d' :: rest => if min ≤ max then some ((min, some max), rest) else none
    | _ => none
  | _ => none

/-- Reads past the mark of a repetition that prefers to be short, which changes no answer. -/
def skipLazy (flags : Flags) (cs : List Char) : List Char :=
  match skipBlanks flags cs with
  | '?' :: rest => rest
  | _ => cs

/-! ### Groups -/

/-- Sets one flag; `none` if there is no such flag. Which repetitions are preferred changes no
answer, and text is always read as characters. -/
def setFlag? (flags : Flags) (on : Bool) (c : Char) : Option Flags :=
  if c = 'i' then some { flags with ignoreCase := on }
  else if c = 'm' then some { flags with multiLine := on }
  else if c = 's' then some { flags with dotAll := on }
  else if c = 'R' then some { flags with returns := on }
  else if c = 'x' then some { flags with spaced := on }
  else if c = 'U' then some flags
  else if c = 'u' && on then some flags
  else none

/-- Reads flags up to `:` or `)`, which is returned. No flag may be repeated, and something has to
follow a minus. `seen` holds what was read. -/
def flags? : List Char → Flags → Bool → List Char → Option (Flags × Bool × Char × List Char)
  | [], _, _, _ => none
  | c :: rest, flags, on, seen =>
    if c = ':' || c = ')' then
      if seen.head? = some '-' then none else some (flags, seen.isEmpty, c, rest)
    else if seen.contains c then none
    else if c = '-' then flags? rest flags false (c :: seen)
    else
      match setFlag? flags on c with
      | some flags => flags? rest flags on (c :: seen)
      | none => none

/-- Whether a character may be part of the name of a group. -/
def isNameChar (isFirst : Bool) (c : Char) : Bool :=
  c = '_' || Text.isLetter c ||
    (!isFirst && (c = '.' || c = '[' || c = ']' || Text.isDecimalDigit c))

/-- Reads the name of a group up to `>`. -/
def groupName? (cs : List Char) : Option (List Char × List Char) :=
  let name := cs.takeWhile (· != '>')
  match name, cs.drop name.length with
  | c :: more, _ :: rest =>
    if isNameChar true c && more.all (isNameChar false) then some (name, rest) else none
  | _, _ => none

/-- How a group begins. -/
inductive GroupHead
  /-- A group with the flags inside it, and perhaps a name. -/
  | group (flags : Flags) (name : Option (List Char))
  /-- No group, but flags for what follows. -/
  | flags (flags : Flags)
deriving Repr, Inhabited

/-- Reads the head of a group behind its parenthesis. -/
def groupHead? (flags : Flags) (cs : List Char) : Option (GroupHead × List Char) :=
  match skipBlanks flags cs with
  | '?' :: 'P' :: '<' :: rest => (groupName? rest).map fun (name, rest) => (.group flags name, rest)
  | '?' :: '<' :: rest =>
    match rest with
    | '=' :: _ | '!' :: _ => none
    | _ => (groupName? rest).map fun (name, rest) => (.group flags name, rest)
  | '?' :: rest =>
    (flags? rest flags true []).bind fun (inner, isEmpty, close, rest) =>
      if close = ')' then if isEmpty then none else some (.flags inner, rest)
      else some (.group inner none, rest)
  | cs => some (.group flags none, cs)

/-! ### Expressions -/

/-- What was read of a group. -/
structure OpenGroup where
  flags : Flags := {}
  /-- The alternatives before the last bar. -/
  alternatives : List Regex := []
  /-- The parts since then, last first; a setting of flags is a part, but no operand. -/
  parts : List (Option Regex) := []
  /-- The names of all groups so far. -/
  names : List (List Char) := []
deriving Repr, Inhabited

/-- Parts in a row, given last first. -/
def inRow (parts : List (Option Regex)) : Regex :=
  parts.foldl
    (fun row part =>
      match part with
      | some r => .seq r row
      | none => row) .empty

namespace OpenGroup

def push (o : OpenGroup) (r : Regex) : OpenGroup := { o with parts := some r :: o.parts }

/-- Ends an alternative. -/
def bar (o : OpenGroup) : OpenGroup :=
  { o with alternatives := o.alternatives ++ [inRow o.parts], parts := [] }

/-- All that was read. -/
def value (o : OpenGroup) : Regex :=
  match o.alternatives with
  | [] => inRow o.parts
  | first :: more => (more ++ [inRow o.parts]).foldl .alt first

/-- Repeats the last part. -/
def repeat? (o : OpenGroup) (min : Nat) (max : Option Nat) : Option OpenGroup :=
  match o.parts with
  | some r :: parts => some { o with parts := some (.rep r min max) :: parts }
  | _ => none

end OpenGroup

/-- A character by itself. -/
def charRegex (flags : Flags) (c : Char) : Regex :=
  .set (OpenSet.fold flags (.singleton c))

/-- The set of a dot: all characters, but without the flag for it none that ends a line. -/
def dotSet (flags : Flags) : CharSet :=
  if flags.dotAll then .compl .empty
  else if flags.returns then .compl (.union (.singleton '\n') (.singleton '\r'))
  else .compl (.singleton '\n')

/-- The expression that an escape stands for. -/
def Primitive.toRegex (flags : Flags) : Primitive → Regex
  | .char c => charRegex flags c
  | .chars s => .set s
  | .look l => .look l

/-- Reads one part that is no group and no operator. -/
def part? (flags : Flags) (c : Char) (rest : List Char) : Option (Regex × List Char) :=
  if c = '\\' then (escape? rest).map fun (p, rest) => (p.toRegex flags, rest)
  else if c = '[' then (set? flags rest).map fun (s, rest) => (.set s, rest)
  else if c = '.' then some (.set (dotSet flags), rest)
  else if c = '^' then
    some (.look (if flags.multiLine then .lineStart flags.returns else .textStart), rest)
  else if c = '$' then
    some (.look (if flags.multiLine then .lineEnd flags.returns else .textEnd), rest)
  else some (charRegex flags c, rest)

/-- The bounds of a repetition that is written as one character. -/
def mark? (c : Char) : Option (Nat × Option Nat) :=
  if c = '*' then some (0, none)
  else if c = '+' then some (1, none)
  else if c = '?' then some (0, some 1)
  else none

/-- Reads a group up to the parenthesis that closes it, or to the end of the text. Returns the
names of groups too. -/
def groupFrom : Nat → OpenGroup → List Char → Option (Regex × List (List Char) × List Char)
  | 0, _, _ => none
  | n + 1, o, cs =>
    match skipBlanks o.flags cs with
    | [] => some (o.value, o.names, [])
    | ')' :: rest => some (o.value, o.names, ')' :: rest)
    | '|' :: rest => groupFrom n o.bar rest
    | '(' :: rest =>
      match groupHead? o.flags rest with
      | none => none
      | some (.flags flags, rest) => groupFrom n { o with flags, parts := none :: o.parts } rest
      | some (.group flags name, rest) =>
        if name.any o.names.contains then none
        else
          match groupFrom n { flags, names := name.toList ++ o.names } rest with
          | some (inner, names, ')' :: rest) => groupFrom n { o.push inner with names } rest
          | _ => none
    | '\x7b' :: rest =>
      match bounds? rest with
      | some ((min, max), rest) =>
        match o.repeat? min max with
        | some o => groupFrom n o (skipLazy o.flags rest)
        | none => none
      | none => none
    | c :: rest =>
      match mark? c with
      | some (min, max) =>
        match o.repeat? min max with
        | some o => groupFrom n o (skipLazy o.flags rest)
        | none => none
      | none =>
        match part? o.flags c rest with
        | some (r, rest) => groupFrom n (o.push r) rest
        | none => none

end Parse

/-- The expression that a text stands for, if it is one. -/
def ofText? (text : String) : Option Regex :=
  let cs := text.toList
  match Parse.groupFrom (cs.length + 1) {} cs with
  | some (r, _, []) => some r
  | _ => none

/-- The engine for these expressions. -/
def engine : RegexEngine Regex where
  compile? := ofText?
  isMatch := isMatch

end CallFlow.Regex
