import CallFlow.Syntax.Grammar.Operands

/-!
# Operators

Expressions from the tightest operators to the loosest: unary ones, the binary ones by
precedence, the conditional, assignments and commas. An arrow function without parentheses takes
part in none of them.
-/

namespace CallFlow.Syntax.Parse

/-! ### Unary operators -/

/-- Operators that stand before one operand and may not stand before a base of `**`. -/
def isUnaryOperator : Token → Bool
  | .punct p => ["!", "~", "+", "-"].contains p
  | .word name false => ["delete", "void", "typeof", "await"].contains name
  | _ => false

/-- Reads a type in angle brackets and the operand that has it. -/
def cast (g : Grammar) : Parse Expr := do
  expectFirst '<'
  if ← (do return (← isWord "const") && (← nextIs (·.isPunct ">"))) then next
  else within (fun s => { s with conditionalTypes := true }) g.type
  expectFirst '>'
  return .typed (← g.unary)

/-- Reads what begins with `await`; alone in brackets it is a name. -/
def awaited (g : Grammar) : Parse Expr := do
  expectWord "await"
  if ← isOneOf [")", "]"] then return .ident "await" else return .await (← g.unary)

/-- Reads an operand with the unary operators around it. -/
def unaryBody (g : Grammar) : Parse Expr := do
  let t ← token
  if ← (do return (← isTyped) && !(← read).markup && (← isPunct "<")) then cast g
  else if t.isWord "await" then awaited g
  else if isUnaryOperator t || t.isPunct "++" || t.isPunct "--" then
    next
    return .untracked [← g.unary]
  else
    match t with
    | .privateName _ =>
      if ← nextIs (·.isWord "in") then
        next
        return .literal
      else fail .expressionExpected
    | _ =>
      let e ← operandBody g
      if e.isArrow || (← newline) then return e
      else if (← eatPunct "++") || (← eatPunct "--") then return .untracked [e]
      else return e

/-! ### Binary operators -/

/-- The binary operator at hand, with its precedence. -/
def binaryOperator? : Parse (Option (String × Nat)) := do
  match ← token with
  | .punct p => return binaryOperators.find? (·.1 = p)
  | .word "instanceof" false => return some ("instanceof", 7)
  | .word "in" false => return if (← read).hasIn then some ("in", 7) else none
  | _ => return none

/-- What two operands become. -/
def joined (operator : String) (span : Span) (left right : Expr) : Expr :=
  if ["||", "&&", "??"].contains operator then .logical span left right
  else .untracked [left, right]

/-- Reads a type behind an expression, or an operator and its right operand. Operators of the
precedence `floor` or a lower one are left to others. `isUnary` says that the left operand begins
with an operator. -/
def operatorStep (g : Grammar) (floor origin : Nat) (left : Expr) (isUnary : Bool) :
    Parse (Option (Expr × Bool)) := do
  if ← (do
      return (← isTyped) && !(← newline) && floor < 7 &&
        ((← isWord "as") || (← isWord "satisfies"))) then
    let isAs ← isWord "as"
    next
    if isAs && (← isWord "const") then next
    else within (fun s => { s with conditionalTypes := true }) g.type
    return some (.typed left, false)
  else
    match ← binaryOperator? with
    | none => return none
    | some (operator, precedence) =>
      if precedence ≤ floor then return none
      else if operator = "**" && isUnary then
        fail (.notAllowed "An operator before the base of a power")
      else
        next
        let right ← g.binary (if operator = "**" then precedence - 1 else precedence)
        return some (joined operator (← spanFrom origin) left right, false)

/-- Reads operands joined by operators that bind tighter than `floor`. -/
def binaryBody (g : Grammar) (floor : Nat) : Parse Expr := do
  let origin ← start
  let isUnary := isUnaryOperator (← token)
  let first ← unaryBody g
  if first.isArrow then return first
  else
    let (e, _) ← iterate (fun (e, isUnary) => operatorStep g floor origin e isUnary)
      (first, isUnary)
    return e

/-! ### Conditionals and assignments -/

/-- Reads an expression with one `?` and one `:` in it, or without them. -/
def conditionalBody (g : Grammar) : Parse Expr := do
  let origin ← start
  let test ← binaryBody g 0
  if test.isArrow then return test
  else if ← (do
      return (← isPunct "?") && !((← isTyped) && (← nextIs fun t =>
        t.isPunct "," || t.isPunct ":" || t.isPunct ")" || t.isPunct "="))) then
    next
    let consequent ← within
      (fun s => { s with hasIn := true, colonAwaited := true, inConditional := true })
      g.assignment
    expectPunct ":"
    let alternate ← within (fun s => { s with colonAwaited := false, inConditional := true })
      g.assignment
    return .conditional (← spanFrom origin) test consequent alternate
  else return test

/-- Reads what begins with `yield` in a generator. -/
def yielded (g : Grammar) : Parse Expr := do
  expectWord "yield"
  if ← newline then return .untracked []
  else if ← eatPunct "*" then return .untracked [← g.assignment]
  else if beginsExpression (← token) then return .untracked [← g.assignment]
  else return .untracked []

/-- The assignment that a token is. -/
def assignOp? : Token → Option AssignOp
  | .punct p =>
    if p = "=" then some .plain
    else if ["||=", "&&=", "??="].contains p then some .logical
    else if ["+=", "-=", "*=", "/=", "%=", "**=", "<<=", ">>=", ">>>=", "&=", "|=", "^="].contains p
      then some .arithmetic
    else none
  | _ => none

/-- Reads what is assigned to an expression, if an assignment follows it. -/
def assignmentRest (g : Grammar) (e : Expr) : Parse Expr := do
  match assignOp? (← token) with
  | none => return e
  | some op =>
    match e.toTarget? with
    | some target =>
      if op = .plain || e.isSimpleTarget then
        next
        return .assign op target (← g.assignment)
      else fail (.notAllowed "An assignment to this expression")
    | none => fail (.notAllowed "An assignment to this expression")

/-- Whether an arrow function may begin with this token. -/
def mayBeginArrow : Token → Bool
  | .word name _ => name ∉ keywords
  | .punct p => p = "("
  | _ => false

/-- Reads an expression without a comma of its own. -/
def assignmentBody (g : Grammar) : Parse Expr := do
  failEnd
  let origin ← start
  let generic ← (do
    if ← (do return (← isTyped) && (← isPunct "<")) then
      attempt do
        modify fun p => { p with arrowStart := none }
        genericArrow? g origin
    else return none)
  match generic with
  | some e => return e
  | none =>
    if ← (do return (← read).inGenerator && (← isWord "yield")) then yielded g
    else
      modify fun p =>
        { p with arrowStart := if mayBeginArrow p.token then some origin else none }
      let e ← conditionalBody g
      if e.isArrow then return e else assignmentRest g e

/-- Reads expressions with commas between them. -/
def exprBody (g : Grammar) : Parse Expr := do
  let first ← assignmentBody g
  if ← isPunct "," then
    let others ← iterate
      (fun others => do
        if ← eatPunct "," then return some ((← g.assignment) :: others) else return none) []
    return .sequence (first :: others.reverse)
  else return first

end CallFlow.Syntax.Parse
