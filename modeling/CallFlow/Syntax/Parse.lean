import CallFlow.Syntax.Error
import CallFlow.Syntax.Lexer
import CallFlow.Syntax.Tree

/-!
# Parsing

A `Parse` reads a piece of syntax from a token onwards. It sees one token at a time, and can look
at the ones behind it or try one reading before another.
-/

namespace CallFlow.Syntax

/-- The dialect of a source, and what the surrounding syntax allows. -/
structure Setting where
  typed : Bool
  markup : Bool
  /-- Bounds every loop; at least as large as the source is long. -/
  limit : Nat
  inFunction : Bool := false
  inGenerator : Bool := false
  canBreak : Bool := false
  canContinue : Bool := false
  /-- Whether `in` is an operator. -/
  hasIn : Bool := true
  /-- Whether what is declared here need not be initialized or have a body. -/
  ambient : Bool := false
  /-- Whether a conditional type may follow. -/
  conditionalTypes : Bool := true
  /-- Inside the middle of a conditional expression, where `:` may belong to it. -/
  colonAwaited : Bool := false
  inConditional : Bool := false
  labels : List String := []
deriving Inhabited

/-- The token at hand and what surrounds it. -/
structure Progress where
  token : Token
  /-- Whether a line ended before the token. -/
  newline : Bool
  /-- The text from the token on. -/
  here : Reader
  /-- The text behind the token. -/
  after : Reader
  /-- The offset at which the token before stopped. -/
  lastStop : Nat
  /-- Where an expression began that an arrow function may take up. -/
  arrowStart : Option Nat := none
  /-- The errors recorded so far, last first. -/
  recorded : List SyntaxError := []
deriving Inhabited

/-- Reading ends with a result, or with all errors up to the one that ended it. -/
abbrev Parse := ReaderT Setting (StateT Progress (Except (List SyntaxError)))

namespace Progress

/-- Takes the next token from `r`. -/
def advanceTo (p : Progress) (limit : Nat) (r : Reader) (newline : Bool) (lastStop : Nat) :
    Progress :=
  match r.skipBlanks limit newline with
  | .ok (here, newline) =>
    let (token, after) := here.token limit
    { p with token, newline, here, after, lastStop }
  | .error e => { p with token := .invalid e, newline, here := r, after := r, lastStop }

end Progress

namespace Parse

variable {α : Type}

/-! ### Looking -/

def token : Parse Token := do return (← get).token

/-- The offset at which the token at hand starts. -/
def start : Parse Nat := do return (← get).here.offset

/-- The offset at which the last token read stopped. -/
def lastStop : Parse Nat := do return (← get).lastStop

def newline : Parse Bool := do return (← get).newline

/-- The span from `start` to the last token read. -/
def spanFrom (start : Nat) : Parse Span := do return ⟨start, ← lastStop⟩

def isPunct (text : String) : Parse Bool := do return (← token).isPunct text

def isWord (name : String) : Parse Bool := do return (← token).isWord name

def isEof : Parse Bool := do return (← token) = .eof

def isTyped : Parse Bool := do return (← read).typed

/-- Whether the token at hand is the end of the source or one of these punctuators. -/
def isOneOf (texts : List String) : Parse Bool := do
  match ← token with
  | .punct t => return texts.contains t
  | _ => return false

/-- The state behind the token at hand. -/
def advanced : Parse Progress := do
  let p ← get
  return p.advanceTo (← read).limit p.after false p.after.offset

/-- Reads past the token at hand. -/
def next : Parse Unit := do set (← advanced)

/-! ### Failing -/

/-- The text of the token at hand as it stands in an error. -/
def found : Parse String := do
  let p ← get
  if p.token = .eof then return "<eof>"
  else return String.ofList (p.here.rest.take (p.here.rest.length - p.after.rest.length))

def failAt (problem : Problem) (span : Span) : Parse α := do
  throw ((⟨problem, span⟩ :: (← get).recorded).reverse)

/-- Fails at the token at hand. -/
def fail (problem : Problem) : Parse α := do
  let p ← get
  let problem := match p.token with
    | .invalid e => .lexical e
    | _ => problem
  failAt problem ⟨p.here.offset, p.after.offset⟩

def record (problem : Problem) (span : Span) : Parse Unit :=
  modify fun p => { p with recorded := ⟨problem, span⟩ :: p.recorded }

def failEnd : Parse Unit := do
  if ← isEof then fail .unexpectedEnd

/-! ### Reading tokens -/

/-- Reads a punctuator if it is at hand. -/
def eatPunct (text : String) : Parse Bool := do
  if ← isPunct text then
    next
    return true
  else return false

def eatWord (name : String) : Parse Bool := do
  if ← isWord name then
    next
    return true
  else return false

def expectPunct (text : String) : Parse Unit := do
  unless ← eatPunct text do
    fail (.expected text (← found))

def expectWord (name : String) : Parse Unit := do
  unless ← eatWord name do
    fail (.expected name (← found))

/-- Whether a statement may end before the token at hand. -/
def mayEnd : Parse Bool := do
  return (← isEof) || (← isPunct ";") || (← isPunct "\x7d") || (← newline)

/-- Reads the end of a statement: a semicolon, or nothing where one may be left out. -/
def semicolon : Parse Unit := do
  unless ← eatPunct ";" do
    unless ← mayEnd do
      fail (.expected ";" (← found))

/-- Takes the token that begins at `r`. -/
def continueAt (r : Reader) : Parse Unit := do
  let p ← get
  set (p.advanceTo (← read).limit r false r.offset)

/-- Reads past the first character of a punctuator that begins with it. -/
def eatFirst (c : Char) : Parse Bool := do
  match (← get).token, (← get).here.rest with
  | .punct _, d :: _ =>
    if c = d then
      continueAt ((← get).here.drop 1)
      return true
    else return false
  | _, _ => return false

def expectFirst (c : Char) : Parse Unit := do
  unless ← eatFirst c do
    fail (.expected (String.singleton c) (← found))

/-! ### Trying -/

/-- Runs a reading that may fail or return nothing; then the state is as before. -/
def attempt (parse : Parse (Option α)) : Parse (Option α) := fun setting p =>
  match parse setting p with
  | .ok (some a, p') => .ok (some a, p')
  | .ok (none, _) | .error _ => .ok (none, p)

/-- Looks ahead: runs a reading and puts the state back. A failure is `none`. -/
def ahead (parse : Parse α) : Parse (Option α) := fun setting p =>
  match parse setting p with
  | .ok (a, _) => .ok (some a, p)
  | .error _ => .ok (none, p)

/-- What `look` says of the state behind the token at hand. -/
def peek (look : Progress → α) : Parse α := do return look (← advanced)

/-- Whether the next token satisfies `p` and stands on the same line. -/
def nextOnLine (p : Token → Bool) : Parse Bool :=
  peek fun s => !s.newline && p s.token

/-- Whether the next token satisfies `p`. -/
def nextIs (p : Token → Bool) : Parse Bool := peek fun s => p s.token

/-! ### Repeating -/

/-- Repeats a reading while it returns a new value, at most `n` times. -/
def repeatFrom (step : α → Parse (Option α)) : Nat → α → Parse α
  | 0, _ => fail .tooDeep
  | n + 1, a => do
    match ← step a with
    | none => return a
    | some a => repeatFrom step n a

/-- Repeats a reading while it returns a new value. -/
def iterate (step : α → Parse (Option α)) (a : α) : Parse α := do
  repeatFrom step ((← read).limit + 1) a

/-- Reads items until `stop`, and collects them. -/
def many (stop : Parse Bool) (item : Parse α) : Parse (List α) := do
  let items ← iterate
    (fun read => do
      if ← stop then return none else return some ((← item) :: read)) []
  return items.reverse

/-- Reads items with commas between them, and perhaps one behind them, up to a punctuator that is
read too. -/
def commaList (close : String) (item : Parse α) : Parse (List α) := do
  let items ← many (isPunct close) do
    let a ← item
    unless ← isPunct close do expectPunct ","
    return a
  expectPunct close
  return items

/-- Reads items with commas between them, at least one. -/
def commaSeparated (item : Parse α) : Parse (List α) := do
  let first ← item
  let items ← iterate
    (fun read => do
      if ← eatPunct "," then return some ((← item) :: read) else return none) [first]
  return items.reverse

/-- Runs a reading in a changed setting. -/
def within (change : Setting → Setting) (parse : Parse α) : Parse α :=
  withReader change parse

/-- Expressions with `in` as an operator. -/
def withIn (parse : Parse α) : Parse α :=
  within (fun s => { s with hasIn := true }) parse

end Parse

end CallFlow.Syntax
