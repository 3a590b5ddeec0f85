import CallFlow.Syntax.Grammar.Patterns

/-!
# Functions, classes and objects

Parameters, bodies and the members of classes and objects.
-/

namespace CallFlow.Syntax.Parse

/-! ### Decorators -/

/-- Reads what stands behind `@`: a path of names or an expression in parentheses, and perhaps
arguments. -/
def decorator (g : Grammar) (arguments : Parse (List Expr)) : Parse Expr := do
  expectPunct "@"
  let (origin, callee) ← (do
    if ← eatPunct "(" then
      let origin ← start
      let e ← withIn g.expr
      expectPunct ")"
      return (origin, e)
    else
      let origin ← start
      let name ← anyWord
      let e ← iterate
        (fun e => do
          if ← eatPunct "." then
            match ← token with
            | .privateName name =>
              next
              return some (.member false e (.privateName name))
            | _ => return some (.member false e (.named (← anyWord)))
          else return none) (Expr.ident name)
      return (origin, e))
  if ← isTyped then
    if ← isPunct "<" then typeArgs g
  if ← isPunct "(" then
    let args ← arguments
    return .call false (← spanFrom origin) callee args
  else return callee

def decorators (g : Grammar) (arguments : Parse (List Expr)) : Parse (List Expr) :=
  many (do return !(← isPunct "@")) (decorator g arguments)

/-! ### Parameters -/

/-- Reads an argument: an expression, perhaps with dots before it. -/
def argument (g : Grammar) : Parse Expr := do
  if ← eatPunct "..." then return .spread (← g.assignment)
  else g.assignment

/-- Reads arguments in parentheses. -/
def arguments (g : Grammar) : Parse (List Expr) := do
  expectPunct "("
  nested (commaList ")" (argument g))

/-- Words that make a parameter of a constructor a field. -/
def paramWords : List String := ["public", "private", "protected", "readonly", "override"]

/-- Reads the words before a parameter that is a field too. Says whether there were any. -/
def paramModifiers : Parse Bool := do
  iterate
    (fun _ => do
      match ← token with
      | .word name false =>
        if paramWords.contains name then
          if ← nextIs fun t => t.word?.isSome || t.isPunct "\x7b" || t.isPunct "[" then
            next
            return some true
          else return none
        else return none
      | _ => return none) false

/-- Reads a name or a pattern, its `?` and its type. In typed sources `this` may stand for a
name. -/
def paramTarget (g : Grammar) : Parse Pattern := do
  let p ← (do
    if ← (do return (← isTyped) && (← isWord "this")) then
      next
      return Pattern.ident "this"
    else g.binding)
  if ← isTyped then
    let _ ← eatPunct "?"
  annotationOption g
  return p

/-- Reads a parameter. -/
def param (g : Grammar) : Parse Param := do
  failEnd
  let decorators ← decorators g (arguments g)
  if ← eatPunct "..." then
    let p ← paramTarget g
    return .pattern decorators (.rest p)
  let isField ← (do if ← isTyped then paramModifiers else return false)
  let p ← paramTarget g
  let default ← (do
    if ← eatPunct "=" then return some (← withIn g.assignment) else return none)
  match isField, p, default with
  | true, .ident name, default => return .property decorators name default
  | true, p, some default => return .propertyPattern decorators p default
  | _, p, some default => return .pattern decorators (.withDefault p default)
  | _, p, none => return .pattern decorators p

/-- Reads parameters in parentheses. -/
def params (g : Grammar) : Parse (List Param) := do
  expectPunct "("
  nested (commaList ")" (param g))

/-! ### Bodies -/

/-- The setting inside a function. -/
def functionSetting (isGenerator : Bool) (s : Setting) : Setting :=
  { s with
    inFunction := true
    inGenerator := isGenerator
    canBreak := false
    canContinue := false
    labels := []
    hasIn := true
    ambient := false
    colonAwaited := false
    inConditional := false }

/-- Reads a function from its type parameters to its end. In typed sources the body may be
missing; then a semicolon ends it. -/
def functionFrom (g : Grammar) (origin : Nat) (isGenerator : Bool) : Parse Func := do
  if ← isTyped then typeParamsOption g
  let params ← within (fun s => { s with inGenerator := isGenerator }) (params g)
  returnTypeOption g
  if ← (do return (← isTyped) && !(← isPunct "\x7b")) then
    semicolon
    return .mk params .absent (← spanFrom origin)
  else
    let stmts ← within (functionSetting isGenerator) (braced g)
    return .mk params (.block stmts) (← spanFrom origin)

/-- Reads a function expression or declaration behind its name. -/
def functionName? : Parse (Option String) := do
  match ← token with
  | .word name escaped =>
    if isBindable (.word name escaped) || name = "await" then
      next
      return some name
    else return none
  | _ => return none

/-! ### Classes -/

/-- Punctuators that end the name of a field. -/
def endsField (typed : Bool) : Token → Bool
  | .punct p => p ∈ ["=", ";", "\x7d"] || (typed && p ∈ [":", "?", "!"])
  | .eof => true
  | _ => false

/-- Whether the token begins the parameters of a method. -/
def beginsMethod (typed : Bool) : Token → Bool
  | .punct p => p = "(" || (typed && p = "<")
  | _ => false

/-- Words that may stand before the name of a member, apart from `async`, `get` and `set`. -/
def memberWords (typed : Bool) : List String :=
  if typed then
    ["declare", "public", "private", "protected", "static", "abstract", "override", "readonly",
      "accessor"]
  else ["static"]

/-- Reads the words before the name of a member. Returns those that it read. -/
def memberModifiers : Parse (List String) := do
  iterate
    (fun read => do
      let typed ← isTyped
      match ← token with
      | .word name false =>
        if (memberWords typed).contains name then
          let follows ← advanced
          if endsField typed follows.token || beginsMethod typed follows.token then return none
          else if follows.token.isPunct "\x7b" then return none
          else if follows.newline && name != "static" && name != "public" && name != "private"
              && name != "protected" then return none
          else
            next
            return some (name :: read)
        else return none
      | _ => return none) []

/-- How a member is made a function by the words before its name. -/
inductive MemberForm
  | plain
  | accessor
  | special (isGenerator : Bool)
deriving DecidableEq, Repr, Inhabited

/-- Reads `async`, `*`, `get` or `set` before the name of a member. -/
def memberForm (endsName : Token → Bool) : Parse MemberForm := do
  let typed ← isTyped
  let isPrefix ← (do
    let follows ← advanced
    return !(endsName follows.token || beginsMethod typed follows.token))
  if ← (do return (← isWord "async") && isPrefix && (← nextOnLine fun _ => true)) then
    next
    return .special (← eatPunct "*")
  else if ← (do return ((← isWord "get") || (← isWord "set")) && isPrefix) then
    if ← peek fun s => s.newline && s.token.isPunct "*" then return .plain
    else
      next
      return .accessor
  else if ← eatPunct "*" then return .special true
  else return .plain

/-- Reads the type, the value and the end of a field. -/
def fieldRest (g : Grammar) : Parse (Option Expr) := do
  annotationOption g
  let value ← (do
    if ← eatPunct "=" then
      let e ← within (fun s => { functionSetting false s with inFunction := s.inFunction })
        g.assignment
      return some e
    else return none)
  semicolon
  return value

/-- Reads a member whose name is at hand, the words before it having been read. -/
def memberRest (g : Grammar) (origin : Nat) (decorators : List Expr) (words : List String) :
    Parse (Option Member) := do
  let typed ← isTyped
  if ← (do return typed && (← isIndexSignature)) then
    indexSignature g
    unless ← eatPunct "," do semicolon
    return none
  let form ← memberForm (endsField typed)
  let key ← propertyKey g
  if typed then
    unless ← eatPunct "?" do
      let _ ← eatPunct "!"
  if beginsMethod typed (← token) then
    let f ← functionFrom g origin (form = .special true)
    match form, key with
    | .plain, .named "constructor" => return some (.constructor f)
    | _, _ => return some (.method decorators key f)
  else if form = .plain then
    let value ← fieldRest g
    if words.contains "accessor" then return none
    else return some (.field decorators key value)
  else fail (.expected "(" (← found))

/-- Reads a member of a class; a semicolon is none. -/
def member (g : Grammar) : Parse (Option Member) := do
  if ← eatPunct ";" then return none
  else
    let origin ← start
    let decorators ← decorators g (arguments g)
    if ← (do return (← isWord "static") && (← nextIs (·.isPunct "\x7b"))) then
      next
      let stmts ← within (fun s => { functionSetting false s with inFunction := false }) (braced g)
      return some (.staticBlock stmts)
    else
      let words ← memberModifiers
      memberRest g origin decorators words

/-- Reads the members of a class in braces; the last brace may be missing at the end of the
source. -/
def classMembers (g : Grammar) : Parse (List Member) := do
  expectPunct "\x7b"
  let members ← nested
    (many (do return (← isPunct "\x7d") || (← isEof)) (member g))
  if ← isEof then
    let offset ← start
    record (.unclosed "\x7d") ⟨offset, offset⟩
  else next
  return members.filterMap id

/-- Reads a class behind its name. -/
def classFrom (g : Grammar) (decorators : List Expr) (heritage : Parse Expr) : Parse Class := do
  if ← isTyped then typeParamsOption g
  let base ← (do
    if ← eatWord "extends" then
      let base ← within (fun s => { s with colonAwaited := false }) heritage
      if ← isTyped then
        if ← isPunct "<" then typeArgs g
      return some base
    else return none)
  if ← isTyped then
    if ← eatWord "implements" then
      let _ ← commaSeparated g.type
  return .mk decorators base (← classMembers g)

/-- Reads the name of a class, if it has one. -/
def className? : Parse (Option String) := do
  match ← token with
  | .word name escaped =>
    if isBindable (.word name escaped) && !(name = "implements" && (← isTyped)) then
      next
      return some name
    else return none
  | _ => return none

/-! ### Objects -/

/-- Punctuators that end the name of a property. -/
def endsProperty : Token → Bool
  | .punct p => p ∈ [":", ",", "\x7d", "="]
  | .eof => true
  | _ => false

/-- A setter has one parameter; of several, the first is taken for a receiver. -/
def setterParams : List Param → List Param
  | [] => [.pattern [] Pattern.void]
  | [p] => [p]
  | _ :: p :: _ => [p]

/-- Reads a property of an object. -/
def property (g : Grammar) : Parse Property := do
  failEnd
  if ← eatPunct "..." then return .spread (← g.assignment)
  else
    let origin ← start
    let isGetter ← isWord "get"
    let form ← memberForm endsProperty
    let first ← token
    let key ← propertyKey g
    if form = .accessor then
      let .mk params body span ← functionFrom g origin false
      let params := if isGetter then [] else setterParams params
      return .method key (.mk params body span)
    else if beginsMethod (← isTyped) (← token) then
      return .method key (← functionFrom g origin (form = .special true))
    else if form = .plain then
      if ← eatPunct ":" then return .keyValue key (← g.assignment)
      else
        match first with
        | .word name _ =>
          if ← eatPunct "=" then return .shorthandDefault name (← g.assignment)
          else return .shorthand name
        | _ => fail (.expected ":" (← found))
    else fail (.expected "(" (← found))

/-- Reads an object behind its opening brace. -/
def objectRest (g : Grammar) : Parse Expr := do
  return .object (← nested (commaList "\x7d" (property g)))

end CallFlow.Syntax.Parse
