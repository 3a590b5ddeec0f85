import CallFlow.Syntax.Grammar.Operators

/-!
# Declarations

Variables, functions, classes, and the declarations that only concern types.
-/

namespace CallFlow.Syntax.Parse

/-! ### Variables -/

/-- The span of the token at hand. -/
def tokenSpan : Parse Span := do
  let p ← get
  return ⟨p.here.offset, p.after.offset⟩

/-- Whether a declared pattern has to have a value. -/
def needsValue : Pattern → Bool
  | .ident _ => false
  | _ => true

/-- Reads a pattern, its type and its value. In the head of a loop the value may be missing, and
in that of `var` the word `in` is no operator. -/
def declarator (g : Grammar) (kind : VarKind) (inHead : Bool) : Parse Declarator := do
  let origin ← start
  if kind != .var && (← isWord "let") then fail (.notAllowed "The name 'let'")
  let target ← g.binding
  if ← isTyped then
    let _ ← eatPunct "!"
  annotationOption g
  if ← (do return inHead && ((← isWord "in") || (← isWord "of"))) then return .mk target none
  else if ← eatPunct "=" then
    let value ← within (fun s => { s with hasIn := !inHead || kind != .var }) g.assignment
    return .mk target (some value)
  else if (← read).ambient then return .mk target none
  else if kind = .const && !inHead then
    record .uninitializedConst (← spanFrom origin)
    return .mk target none
  else if needsValue target then fail (.notAllowed "A pattern without a value")
  else return .mk target none

/-- Reads declarators with commas between them. A comma before the end is recorded. -/
def declarators (g : Grammar) (kind : VarKind) (inHead : Bool) : Parse (List Declarator) := do
  let (items, _) ← iterate
    (fun (items, more) => do
      if !more then return none
      else if (← isPunct ";") || (← isEof) then
        record .trailingComma (← tokenSpan)
        return some (items, false)
      else
        let d ← declarator g kind inHead
        return some (d :: items, ← eatPunct ",")) ([], true)
  return items.reverse

/-- Reads the end of a declaration of variables. Where it is missing this is recorded, and the
source is skipped up to the next place where a statement may end. -/
def variablesEnd (g : Grammar) : Parse Unit := do
  unless ← (do return (← eatPunct ";") || (← mayEnd)) do
    record .semicolonMissing (← tokenSpan)
    let _ ← attempt (do return some (← g.expr))
    let _ ← iterate
      (fun () => do
        match ← token with
        | .invalid _ => return none
        | _ =>
          if ← mayEnd then return none
          else
            next
            return some ()) ()
    let _ ← eatPunct ";"

/-- Reads `var`, `let` or `const`. -/
def varKind? : Parse (Option VarKind) := do
  if ← eatWord "var" then return some .var
  else if ← eatWord "const" then return some .const
  else if ← eatWord "let" then return some .let
  else return none

/-- Reads a declaration of variables, from its first word to its end. -/
def varDeclaration (g : Grammar) : Parse Decl := do
  match ← varKind? with
  | none => fail .expressionExpected
  | some kind =>
    let items ← declarators g kind false
    variablesEnd g
    return .vars kind items

/-- Whether a token may follow `let` in a declaration. -/
def followsLet : Token → Bool
  | .word name escaped => isBindable (.word name escaped)
  | .punct p => p = "[" || p = "\x7b"
  | _ => false

/-- Whether a declaration of variables is at hand. -/
def beginsVariables : Parse Bool := do
  if (← isWord "var") || (← isWord "const") then return true
  else return (← isWord "let") && (← nextIs followsLet)

/-- Whether a declaration of resources is at hand, behind `await` if there is one. -/
def beginsUsing : Parse Bool := do
  return (← isWord "using") && (← nextOnLine isBindable)

/-- Reads a declaration of resources, from the word `using`. -/
def usingDecl (g : Grammar) : Parse Decl := do
  next
  let items ← declarators g .var false
  variablesEnd g
  return .using items

/-! ### Functions and classes -/

/-- Reads a function declaration from the word `function`; the function begins at `origin`. -/
def functionDecl (g : Grammar) (origin : Nat) : Parse Decl := do
  expectWord "function"
  let isGenerator ← eatPunct "*"
  match ← functionName? with
  | some name => return .function name (← functionFrom g origin isGenerator)
  | none => fail .nameExpected

/-- Whether `async function` is at hand. -/
def beginsAsyncFunction : Parse Bool := do
  return (← isWord "async") && (← nextOnLine (·.isWord "function"))

/-- Reads a class declaration from the word `class`. -/
def classDecl (g : Grammar) (decorators : List Expr) : Parse Decl := do
  expectWord "class"
  match ← className? with
  | some name => return .class name (← classFrom g decorators g.operand)
  | none => fail .nameExpected

/-- Reads a function or a class declaration, if one is at hand. -/
def functionOrClass? (g : Grammar) (decorators : List Expr) : Parse (Option Decl) := do
  let origin ← start
  if ← isWord "function" then return some (← functionDecl g origin)
  else if ← isWord "class" then return some (← classDecl g decorators)
  else if ← beginsAsyncFunction then
    next
    return some (← functionDecl g origin)
  else return none

/-! ### Declarations of types -/

/-- Reads an interface behind its first word. -/
def interfaceRest (g : Grammar) : Parse Unit := do
  let _ ← boundName
  typeParamsOption g
  if ← eatWord "extends" then
    let _ ← commaSeparated g.type
  expectPunct "\x7b"
  nested (typeMembers g)

/-- Reads a type alias behind its first word. -/
def aliasRest (g : Grammar) : Parse Unit := do
  let _ ← boundName
  typeParamsOption g
  expectPunct "="
  within (fun s => { s with conditionalTypes := true }) g.type
  semicolon

/-- Reads an enumeration behind its first word. -/
def enumRest (g : Grammar) : Parse Unit := do
  let _ ← boundName
  expectPunct "\x7b"
  let _ ← nested (commaList "\x7d" do
    let _ ← propertyKey g
    if ← eatPunct "=" then
      let _ ← g.assignment)

/-- Reads the items of a namespace in braces. -/
def namespaceBody (g : Grammar) : Parse Unit := do
  expectPunct "\x7b"
  let _ ← nested (many (do return (← isPunct "\x7d") || (← isEof)) g.item)
  expectPunct "\x7d"

/-- Reads a namespace behind its first word; the name may be a string. -/
def namespaceRest (g : Grammar) : Parse Unit := do
  match ← token with
  | .string _ => next
  | _ => dottedName
  if ← isPunct "\x7b" then namespaceBody g else semicolon

/-- Words that begin a declaration of types, if a name follows on their line. -/
def typeWords : List String := ["interface", "type", "enum", "namespace", "module"]

/-- Reads a declaration that only concerns types, from its first word. -/
def typeDecl (g : Grammar) : Parse Decl := do
  if ← eatWord "interface" then interfaceRest g
  else if ← eatWord "type" then aliasRest g
  else if ← eatWord "enum" then enumRest g
  else
    next
    namespaceRest g
  return .inert

/-- Whether a declaration of types is at hand. -/
def beginsTypeDecl : Parse Bool := do
  match ← token with
  | .word name false =>
    if name = "enum" then return true
    else if name = "module" then
      nextOnLine fun t => isBindable t || (t matches .string _)
    else if typeWords.contains name then nextOnLine isBindable
    else return false
  | _ => return false

/-- Whether `const enum` is at hand. -/
def beginsConstEnum : Parse Bool := do
  return (← isWord "const") && (← nextIs (·.isWord "enum"))

/-- Reads an abstract class or a declaration of types, if one is at hand. -/
def typedDecl? (g : Grammar) (decorators : List Expr) : Parse (Option Decl) := do
  if ← beginsConstEnum then
    next
    return some (← typeDecl g)
  else if ← (do return (← isWord "abstract") && (← nextOnLine (·.isWord "class"))) then
    next
    return some (← classDecl g decorators)
  else if ← beginsTypeDecl then return some (← typeDecl g)
  else return none

/-- Whether a declaration follows the word `declare` at hand. -/
def beginsAmbient : Parse Bool := do
  nextIs fun t =>
    match t with
    | .word name false =>
      ["function", "class", "const", "var", "let", "async", "global", "abstract"].contains name ||
        typeWords.contains name
    | _ => false

/-- Reads a declaration from the word `declare`. A function in it begins there. -/
def ambientDecl (g : Grammar) (decorators : List Expr) : Parse Decl := do
  let origin ← start
  next
  within (fun s => { s with ambient := true }) do
    if ← isWord "function" then functionDecl g origin
    else if ← isWord "class" then classDecl g decorators
    else if ← isWord "global" then
      next
      namespaceBody g
      return .inert
    else
      match ← typedDecl? g decorators with
      | some d => return d
      | none => varDeclaration g

/-- Reads a declaration that only typed sources have, if one is at hand. -/
def extendedDecl? (g : Grammar) (decorators : List Expr) : Parse (Option Decl) := do
  if !(← isTyped) then return none
  else if ← (do return (← isWord "declare") && (← beginsAmbient)) then
    return some (← ambientDecl g decorators)
  else if ← (do return (← isWord "global") && (← nextIs (·.isPunct "\x7b"))) then
    next
    namespaceBody g
    return some .inert
  else typedDecl? g decorators

end CallFlow.Syntax.Parse
