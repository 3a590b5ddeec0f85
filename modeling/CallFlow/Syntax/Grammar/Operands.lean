import CallFlow.Syntax.Grammar.Markup

/-!
# Operands

Names, literals and groups, the arrow functions that a name or a parenthesis may turn out to
begin, and what is called on an operand or taken from it.
-/

namespace CallFlow.Syntax

namespace Expr

def isArrow : Expr → Bool
  | .arrow _ => true
  | _ => false

/-- Whether an expression ends an optional chain that may go on. -/
def isChained : Expr → Bool
  | .call chained _ _ _ | .member chained _ _ => chained
  | _ => false

end Expr

namespace Parse

/-! ### Templates and regular expressions -/

/-- Reads a template from its first character. Returns the expressions substituted in it, and
whether all escapes in its text are well formed. -/
def templateParts (g : Grammar) : Parse (List Expr × Bool) := do
  let (parts, valid, _) ← iterate
    (fun (parts, valid, r) => do
      match r with
      | none => return none
      | some (r : Reader) =>
        match r.templateText (← read).limit valid with
        | none => fail (.lexical .unterminatedTemplate)
        | some (.closed, valid, r) =>
          continueAt r
          return some (parts, valid, none)
        | some (.substitution, valid, r) =>
          continueAt r
          let e ← nested g.expr
          if ← isPunct "\x7d" then return some (e :: parts, valid, some (← get).after)
          else fail (.expected "\x7d" (← found))) ([], true, some (← get).after)
  return (parts.reverse, valid)

/-- Reads a template without a tag. -/
def template (g : Grammar) : Parse Expr := do
  let (substitutions, valid) ← templateParts g
  if valid then return .untracked substitutions
  else fail (.lexical .malformedEscape)

/-- Reads a regular expression from the slash at hand. -/
def regex : Parse Expr := do
  match Reader.regexBody (← read).limit false ((← get).here.drop 1) with
  | some r =>
    continueAt (r.skipWhile isNamePart)
    return .literal
  | none => fail (.lexical .unterminatedRegex)

/-! ### Arrow functions -/

/-- A piece between parentheses, before it is known whether they hold parameters. -/
inductive Cover
  | value (e : Expr)
  | spread (e : Expr)
  /-- Something that only a parameter may be. -/
  | parameter (p : Pattern)

/-- The parameter that a piece stands for. -/
def Cover.toParam? : Cover → Option Pattern
  | .value e => e.toBinding?
  | .spread e => e.toBinding?.map .rest
  | .parameter p => some p

/-- The expression that a piece is. -/
def Cover.toExpr? : Cover → Option Expr
  | .value e => some e
  | .spread _ | .parameter _ => none

/-- The argument that a piece is. -/
def Cover.toArgument? : Cover → Option Expr
  | .value e => some e
  | .spread e => some (.spread e)
  | .parameter _ => none

/-- Reads a `?` that marks a parameter. -/
def optionalMark : Parse Bool := do
  if ← isPunct "?" then
    if ← nextIs fun t => t.isPunct "," || t.isPunct ":" || t.isPunct ")" || t.isPunct "=" then
      next
      return true
    else return false
  else return false

/-- Reads a piece between parentheses. -/
def cover (g : Grammar) : Parse Cover := do
  let isSpread ← eatPunct "..."
  let e ← g.assignment
  if ← (do return (← isTyped) && ((← optionalMark) || (← isPunct ":"))) then
    match e.toBinding? with
    | none => fail (.expected "," (← found))
    | some p =>
      let p := if isSpread then Pattern.rest p else p
      annotationOption g
      if ← eatPunct "=" then return .parameter (.withDefault p (← g.assignment))
      else return .parameter p
  else if isSpread then return .spread e
  else return .value e

/-- Reads what stands in parentheses, behind the first one. Says whether a comma stands before the
last one. -/
def covers (g : Grammar) : Parse (List Cover × Bool) := do
  let (read, trailing) ← iterate
    (fun (read, _) => do
      if ← isPunct ")" then return none
      else
        let c ← cover g
        if ← isPunct ")" then return some (c :: read, false)
        else
          expectPunct ","
          return some (c :: read, true)) ([], false)
  expectPunct ")"
  return (read.reverse, trailing)

/-- Reads the body of an arrow function, behind the arrow. -/
def arrowBody (g : Grammar) : Parse Body := do
  if ← isPunct "\x7b" then
    return .block (← within (functionSetting false) (braced g))
  else
    let e ← within (fun s => { s with inFunction := true, inGenerator := false }) g.assignment
    return .expr e

/-- Reads an arrow and the body behind it. -/
def arrowFrom (g : Grammar) (origin : Nat) (params : List Pattern) : Parse Expr := do
  if ← newline then fail (.expected "=>" (← found))
  expectPunct "=>"
  let body ← arrowBody g
  return .arrow (.mk (params.map (.pattern [])) body (← spanFrom origin))

/-- Reads the rest of an arrow function whose result has a type, from the colon on. Where the
middle of a conditional expression is read, a colon has to follow. -/
def typedArrow? (g : Grammar) (origin : Nat) (covers : List Cover) : Parse (Option Expr) :=
  attempt do
    returnTypeOption g
    match covers.mapM Cover.toParam? with
    | none => return none
    | some params =>
      let e ← arrowFrom g origin params
      if (← read).colonAwaited && !(← isPunct ":") then return none else return some e

/-- Reads an expression in parentheses, the arguments of `async` or an arrow function, from the
first parenthesis on. -/
def parenthesized (g : Grammar) (origin : Nat) (isAsync mayBeArrow : Bool) : Parse Expr := do
  expectPunct "("
  let (covers, trailing) ← nested (covers g)
  let typed ← (do
    if mayBeArrow && (← isTyped) && (← isPunct ":") then typedArrow? g origin covers
    else return none)
  match typed with
  | some e => return e
  | none =>
    if ← isPunct "=>" then
      match mayBeArrow, covers.mapM Cover.toParam? with
      | true, some params => arrowFrom g origin params
      | _, _ => fail (.notAllowed "An arrow function")
    else if isAsync then
      match covers.mapM Cover.toArgument? with
      | some args => return .call false (← spanFrom origin) (.ident "async") args
      | none => fail (.expected "=>" (← found))
    else
      match covers.mapM Cover.toExpr?, trailing with
      | some [e], false => return .paren e
      | some (e :: es), false => return .paren (.sequence (e :: es))
      | _, _ => fail (.expected "=>" (← found))

/-- Reads an arrow function with type parameters, from the first angle bracket or from behind
`async`. -/
def genericArrow? (g : Grammar) (origin : Nat) : Parse (Option Expr) := do
  typeParams g
  let e ← parenthesized g origin false true
  return if e.isArrow then some e else none

/-- Whether a name and an arrow follow the token at hand. -/
def isAsyncArrow : Parse Bool := do
  let follows ← ahead do
    next
    if ← newline then return false
    let _ ← boundName
    isPunct "=>"
  return follows.getD false

/-- Reads a name that may turn out to be the parameter of an arrow function. -/
def nameOrArrow (g : Grammar) (origin : Nat) (mayBeArrow : Bool) : Parse Expr := do
  let name ← identifier
  if mayBeArrow && !(← newline) && (← isPunct "=>") then arrowFrom g origin [.ident name]
  else return .ident name

/-- Reads a function expression from the word `function`. -/
def functionExpr (g : Grammar) (origin : Nat) : Parse Expr := do
  expectWord "function"
  let isGenerator ← eatPunct "*"
  let name ← functionName?
  return .function name (← functionFrom g origin isGenerator)

/-- Reads what begins with `async`. -/
def asyncOperand (g : Grammar) (origin : Nat) (mayBeArrow : Bool) : Parse Expr := do
  if ← nextOnLine (·.isWord "function") then
    next
    functionExpr g origin
  else
    let generic ← (do
      if mayBeArrow && (← isTyped) && (← nextOnLine (·.isPunct "<")) then
        attempt do
          next
          genericArrow? g origin
      else return none)
    match generic with
    | some e => return e
    | none =>
      if mayBeArrow && (← nextOnLine (·.isPunct "(")) then
        next
        parenthesized g origin true true
      else if mayBeArrow && (← isAsyncArrow) then
        next
        arrowFrom g origin [.ident (← boundName)]
      else nameOrArrow g origin mayBeArrow

/-! ### Operands without what follows them -/

/-- Reads a class expression from the word `class`. -/
def classExpr (g : Grammar) (decorators : List Expr) : Parse Expr := do
  expectWord "class"
  let name ← className?
  return .class name (← classFrom g decorators g.operand)

/-- Reads the elements of an array, behind the bracket. Holes are left out. -/
def arrayRest (g : Grammar) : Parse Expr := do
  let elements ← nested (many (isPunct "]") do
    if ← eatPunct "," then return none
    else
      let e ← argument g
      unless ← isPunct "]" do expectPunct ","
      return some e)
  expectPunct "]"
  return .array (elements.filterMap id)

/-- Words that stand for a value. -/
def literalWords : List String := ["null", "true", "false"]

/-- Reads an operand that begins with a word. -/
def wordOperand (g : Grammar) (origin : Nat) (mayBeArrow : Bool) : Parse Expr := do
  if ← eatWord "this" then return .this
  else if ← isWord "function" then functionExpr g origin
  else if ← isWord "class" then classExpr g []
  else if ← isWord "async" then asyncOperand g origin mayBeArrow
  else if (← token).identifier?.isSome then nameOrArrow g origin mayBeArrow
  else
    match ← token with
    | .word name false =>
      if literalWords.contains name then
        next
        return .literal
      else fail .expressionExpected
    | _ => fail .expressionExpected

/-- Reads an operand up to the first thing that is called on it or taken from it. -/
def primary (g : Grammar) : Parse Expr := do
  let origin ← start
  let mayBeArrow := (← get).arrowStart = some origin
  match ← token with
  | .word _ _ => wordOperand g origin mayBeArrow
  | .string value =>
    next
    return .string value
  | .number _ | .bigint =>
    next
    return .literal
  | .punct p =>
    if p = "(" then parenthesized g origin false mayBeArrow
    else if p = "[" then
      next
      arrayRest g
    else if p = "\x7b" then
      next
      objectRest g
    else if p = "`" then template g
    else if p = "/" || p = "/=" then regex
    else if p = "@" then classExpr g (← decorators g (arguments g))
    else fail .expressionExpected
  | _ => fail .expressionExpected

/-! ### What is called or taken -/

/-- Operators that join two operands, with their precedences. -/
def binaryOperators : List (String × Nat) :=
  [("||", 1), ("??", 1), ("&&", 2), ("|", 3), ("^", 4), ("&", 5), ("==", 6), ("!=", 6),
    ("===", 6), ("!==", 6), ("<", 7), (">", 7), ("<=", 7), (">=", 7), ("<<", 8), (">>", 8),
    (">>>", 8), ("+", 9), ("-", 9), ("*", 10), ("/", 10), ("%", 10), ("**", 11)]

/-- Words that begin an expression though they are no names. -/
def expressionWords : List String :=
  ["new", "this", "super", "function", "class", "typeof", "void", "delete", "null", "true",
    "false", "import", "yield", "await", "let"]

/-- Whether an expression may begin with this token. -/
def beginsExpression : Token → Bool
  | .string _ | .number _ | .bigint | .privateName _ => true
  | .word name escaped =>
    (Token.word name escaped).identifier?.isSome || expressionWords.contains name
  | .punct p =>
    ["(", "[", "\x7b", "`", "!", "~", "+", "-", "++", "--", "/", "/=", "<", "@"].contains p
  | _ => false

/-- Whether type arguments that end before the token at hand stand for themselves, and are
neither those of a call nor two comparisons. -/
def endsInstantiation : Parse Bool := do
  match ← token with
  | .punct p =>
    if ["(", "`", "<", ">", "+", "-"].contains p then return false
    else
      return (← newline) || binaryOperators.any (·.1 = p) || !beginsExpression (.punct p)
  | t => return (← newline) || t.isWord "in" || t.isWord "instanceof" || !beginsExpression t

/-- Reads a template behind its tag. -/
def taggedRest (g : Grammar) (origin : Nat) (tag : Expr) : Parse Expr := do
  let (substitutions, _) ← templateParts g
  return .tagged (← spanFrom origin) tag substitutions

/-- Reads type arguments behind an expression, and the call or the template that they belong to. -/
def withTypeArgs? (g : Grammar) (origin : Nat) (calls : Bool) (e : Expr) : Parse (Option Expr) :=
  attempt do
    typeArgs g
    if calls && (← isPunct "(") then
      let args ← arguments g
      return some (.call e.isChained (← spanFrom origin) e args)
    else if ← isPunct "`" then return some (← taggedRest g origin e)
    else if ← endsInstantiation then return some (.typed e)
    else return none

/-- Reads the name behind a dot. -/
def memberName : Parse Key := do
  match ← token with
  | .privateName name =>
    next
    return .privateName name
  | _ => return .named (← anyWord)

/-- Reads the key in brackets, behind the first one. -/
def memberIndex (g : Grammar) : Parse Key := do
  let e ← nested g.expr
  expectPunct "]"
  return .computed e

/-- Reads what follows `?.`. -/
def optionalRest (g : Grammar) (origin : Nat) (e : Expr) : Parse Expr := do
  if ← eatPunct "[" then return .member true e (← memberIndex g)
  else
    if ← (do return (← isTyped) && (← opensAngle)) then typeArgs g
    if ← isPunct "(" then
      let args ← arguments g
      return .call true (← spanFrom origin) e args
    else return .member true e (← memberName)

/-- Reads one thing that is called on an operand or taken from it. -/
def subscript? (g : Grammar) (origin : Nat) (calls : Bool) (e : Expr) : Parse (Option Expr) := do
  let typed ← (do
    if ← (do return (← isTyped) && (← opensAngle)) then withTypeArgs? g origin calls e
    else return none)
  match typed with
  | some e => return some e
  | none =>
    if ← (do return (← isTyped) && !(← newline) && (← isPunct "!")) then
      next
      return some (.typed e)
    else if ← eatPunct "." then return some (.member e.isChained e (← memberName))
    else if ← eatPunct "?." then return some (← optionalRest g origin e)
    else if ← eatPunct "[" then return some (.member e.isChained e (← memberIndex g))
    else if calls && (← isPunct "(") then
      let args ← arguments g
      return some (.call e.isChained (← spanFrom origin) e args)
    else if ← isPunct "`" then return some (← taggedRest g origin e)
    else return none

/-- Reads all that is called on an operand or taken from it. -/
def subscripts (g : Grammar) (origin : Nat) (calls : Bool) (e : Expr) : Parse Expr :=
  iterate (subscript? g origin calls) e

/-- Reads what begins with `super`. -/
def superOperand (g : Grammar) (calls : Bool) : Parse Expr := do
  expectWord "super"
  if ← eatPunct "." then return .superMember (← memberName)
  else if ← eatPunct "[" then return .superMember (← memberIndex g)
  else if calls && (← isPunct "(") then return .untracked (← arguments g)
  else fail (.notAllowed "super")

/-- Reads what begins with `import` in an expression. -/
def importOperand (g : Grammar) (calls : Bool) : Parse Expr := do
  expectWord "import"
  if ← eatPunct "." then
    expectWord "meta"
    return .literal
  else if calls then return .untracked (← arguments g)
  else fail (.notAllowed "import")

/-- Reads what begins with `new`. -/
def construction (g : Grammar) (origin : Nat) : Parse Expr := do
  expectWord "new"
  if ← eatPunct "." then
    expectWord "target"
    return .literal
  else
    let callee ← g.constructed
    if callee.isChained then fail (.notAllowed "An optional chain")
    if ← (do return (← isTyped) && (← opensAngle)) then
      let _ ← attempt do
        typeArgs g
        return if ← isPunct "(" then some () else none
    let args ← (do if ← isPunct "(" then arguments g else return [])
    return .construct (← spanFrom origin) callee args

/-- Reads an operand with what is called on it or taken from it; calls may be left to others. -/
def operandWith (g : Grammar) (calls : Bool) : Parse Expr := do
  let origin ← start
  if ← isWord "new" then subscripts g origin calls (← construction g origin)
  else if ← isWord "super" then subscripts g origin calls (← superOperand g calls)
  else if ← isWord "import" then subscripts g origin calls (← importOperand g calls)
  else if ← (do return (← read).markup && (← isPunct "<")) then wholeElement g
  else
    let e ← primary g
    if e.isArrow then return e else subscripts g origin calls e

/-- Reads what may stand behind `new`. -/
def constructedBody (g : Grammar) : Parse Expr := operandWith g false

/-- Reads an operand with what is called on it or taken from it. -/
def operandBody (g : Grammar) : Parse Expr := operandWith g true

end Parse

end CallFlow.Syntax
