import CallFlow.Syntax.Grammar.Types

/-!
# Patterns

Patterns are read directly in declarations and parameters. In an assignment, and in the head of an
arrow function, an expression is read first and turned into a pattern afterwards.
-/

namespace CallFlow.Syntax

/-! ### From expressions to patterns -/

/-- A pattern that binds nothing. -/
def Pattern.void : Pattern := .array []

/-- Whether a value can be stored in an expression as it is. -/
def Expr.isSimpleTarget : Expr → Bool
  | .ident _ | .member _ _ _ | .superMember _ | .paren _ | .typed _ => true
  | _ => false

/-- Whether an expression may stand inside a pattern of an assignment as a place to store to. -/
def Expr.isStorage : Expr → Bool
  | .member _ _ _ | .superMember _ | .call _ _ _ _ | .construct _ _ _ | .paren _ | .typed _
  | .function _ _ | .class _ _ => true
  | _ => false

/-- What any other expression than a name or a group stands for in an assignment. -/
def Expr.storage (e : Expr) : Pattern :=
  if e.isStorage then .expr e else .void

mutual

/-- The pattern that an expression stands for, `leaf` being told what to make of expressions that
are no patterns; `none` if a method stands where a property is expected. -/
def Expr.toPattern? (leaf : Expr → Pattern) : Expr → Option Pattern
  | .ident name => some (.ident name)
  | .array elements => (Expr.toPatterns? leaf elements).map .array
  | .object properties => (Property.toFields? leaf properties).map .object
  | .assign .plain target value => some (.withDefault target value)
  | .spread inner => (Expr.toPattern? leaf inner).map .rest
  | e => some (leaf e)

def Expr.toPatterns? (leaf : Expr → Pattern) : List Expr → Option (List Pattern)
  | [] => some []
  | e :: rest => do
    let p ← Expr.toPattern? leaf e
    let ps ← Expr.toPatterns? leaf rest
    return p :: ps

def Property.toField? (leaf : Expr → Pattern) : Property → Option PatternField
  | .keyValue key value => (Expr.toPattern? leaf value).map (.keyValue key)
  | .shorthand name => some (.shorthand name none)
  | .shorthandDefault name value => some (.shorthand name (some value))
  | .method _ _ => none
  | .spread e => (Expr.toPattern? leaf e).map .rest

def Property.toFields? (leaf : Expr → Pattern) : List Property → Option (List PatternField)
  | [] => some []
  | p :: rest => do
    let f ← Property.toField? leaf p
    let fs ← Property.toFields? leaf rest
    return f :: fs

end

/-- The pattern that an expression stands for as a parameter. -/
def Expr.toBinding? (e : Expr) : Option Pattern :=
  e.toPattern? fun _ => .void

/-- The pattern that an expression stands for on the left of `=`. -/
def Expr.toTarget? : Expr → Option Pattern
  | .ident name => some (.ident name)
  | .array elements => (Expr.toPatterns? Expr.storage elements).map .array
  | .object properties => (Property.toFields? Expr.storage properties).map .object
  | e => if e.isSimpleTarget then some (.expr e) else none

namespace Parse

/-! ### Patterns in declarations -/

/-- Reads a pattern with its default value, if there is one. -/
def bindingElement (g : Grammar) : Parse Pattern := do
  let p ← g.binding
  if ← eatPunct "=" then
    return .withDefault p (← withIn g.assignment)
  else return p

/-- Reads the elements of an array pattern, behind the bracket. Holes bind nothing. -/
def arrayPattern (g : Grammar) : Parse Pattern := do
  let elements ← many (isPunct "]") do
    if ← eatPunct "," then return none
    else
      let p ← (do
        if ← eatPunct "..." then return Pattern.rest (← bindingElement g)
        else bindingElement g)
      annotationOption g
      unless ← isPunct "]" do expectPunct ","
      return some p
  expectPunct "]"
  return .array (elements.filterMap id)

/-- Reads a field of an object pattern. -/
def objectPatternField (g : Grammar) : Parse PatternField := do
  if ← eatPunct "..." then return .rest (← g.binding)
  else
    let first ← token
    let key ← propertyKey g
    if ← eatPunct ":" then return .keyValue key (← bindingElement g)
    else
      match first, key with
      | .word name _, _ =>
        if ← eatPunct "=" then return .shorthand name (some (← withIn g.assignment))
        else return .shorthand name none
      | _, _ => fail (.expected ":" (← found))

/-- Reads a name or a pattern, and its type. -/
def bindingBody (g : Grammar) : Parse Pattern := do
  let p ← (do
    match ← token with
    | .word _ _ => return .ident (← boundName)
    | .punct "[" =>
      next
      arrayPattern g
    | .punct "\x7b" =>
      next
      return .object (← commaList "\x7d" (objectPatternField g))
    | _ => if ← isEof then fail .unexpectedEnd else fail (.bindingExpected (← found)))
  return p

end Parse

end CallFlow.Syntax
