import CallFlow.Decimal.Shortest
import CallFlow.Syntax.Parse

/-!
# The grammar and its knots

The productions of the grammar refer to one another. Each is a plain definition over a `Grammar`
that holds the readings it may nest, so that the recursion is tied in one place, by depth.
-/

namespace CallFlow.Syntax

/-- The readings that nest in one another. -/
structure Grammar where
  /-- Expressions with commas between them. -/
  expr : Parse Expr
  /-- An expression without a comma of its own. -/
  assignment : Parse Expr
  /-- Operators that bind tighter than a precedence. -/
  binary : Nat → Parse Expr
  unary : Parse Expr
  /-- An operand: a name, a literal or a group, with what is called on it or taken from it. -/
  operand : Parse Expr
  /-- What may stand behind `new`. -/
  constructed : Parse Expr
  /-- A statement; the flag says whether it may be a declaration. -/
  stmt : Bool → Parse Stmt
  /-- A name or a pattern in a declaration or a parameter. -/
  binding : Parse Pattern
  /-- A markup element, its `<` being at hand. -/
  element : Parse Expr
  /-- A type, which is read and dropped. -/
  type : Parse Unit
  /-- An item of a module or of a namespace. -/
  item : Parse ModuleItem
deriving Inhabited

namespace Grammar

/-- The grammar with no depth left. -/
def exhausted : Grammar where
  expr := Parse.fail .tooDeep
  assignment := Parse.fail .tooDeep
  binary _ := Parse.fail .tooDeep
  unary := Parse.fail .tooDeep
  operand := Parse.fail .tooDeep
  constructed := Parse.fail .tooDeep
  stmt _ := Parse.fail .tooDeep
  binding := Parse.fail .tooDeep
  element := Parse.fail .tooDeep
  type := Parse.fail .tooDeep
  item := Parse.fail .tooDeep

end Grammar

namespace Parse

/-! ### Settings -/

/-- Reads something in brackets of its own, where the surroundings do not restrict operators. -/
def nested {α : Type} (parse : Parse α) : Parse α :=
  within (fun s => { s with hasIn := true, colonAwaited := false, inConditional := false }) parse

/-! ### Names -/

/-- Reads a name that refers to something. -/
def identifier : Parse String := do
  match (← token).identifier? with
  | some name =>
    next
    return name
  | none => fail .nameExpected

/-- Words that may be bound in a module though they may not be referred to. -/
def isBindable : Token → Bool
  | .word name escaped =>
    name ∉ keywords && name != "await" && (!escaped || name ∉ moduleKeywords)
  | _ => false

/-- Reads a name that is declared. -/
def boundName : Parse String := do
  match ← token with
  | .word name escaped =>
    if isBindable (.word name escaped) then
      next
      return name
    else fail .nameExpected
  | _ => fail .nameExpected

/-- Reads any word. -/
def anyWord : Parse String := do
  match (← token).word? with
  | some name =>
    next
    return name
  | none => fail .nameExpected

/-- Reads a string literal. -/
def stringLiteral : Parse String := do
  match ← token with
  | .string value =>
    next
    return value
  | _ => fail (.expected "string literal" (← found))

/-- Reads the key of a property. -/
def propertyKey (g : Grammar) : Parse Key := do
  match ← token with
  | .word name _ =>
    next
    return .named name
  | .string value =>
    next
    return .named value
  | .number value =>
    next
    return .named value.roundedText
  | .bigint =>
    next
    return .untracked
  | .privateName name =>
    next
    return .privateName name
  | .punct "[" =>
    next
    let e ← nested g.assignment
    expectPunct "]"
    return .computed e
  | _ => if ← isEof then fail .unexpectedEnd else fail .nameExpected

/-! ### Lists of statements -/

/-- Reads statements up to a closing brace, which may be missing at the end of the source. -/
def stmtsToBrace (g : Grammar) : Parse (List Stmt) := do
  let stmts ← many (do return (← isPunct "\x7d") || (← isEof)) (g.stmt true)
  if ← isEof then
    let offset ← start
    record (.unclosed "\x7d") ⟨offset, offset⟩
  else next
  return stmts

/-- Reads statements in braces. -/
def braced (g : Grammar) : Parse (List Stmt) := do
  expectPunct "\x7b"
  nested (stmtsToBrace g)

end Parse

end CallFlow.Syntax
