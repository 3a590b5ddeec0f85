import CallFlow.Syntax.Grammar.Basic

/-!
# Types

No function flows through a type, so types are read only to find out where they end.
-/

namespace CallFlow.Syntax.Parse

/-- Words that stand before a type and change it. -/
def typeOperators : List String := ["keyof", "unique", "readonly"]

/-- Types that have a name of their own. They take no arguments. -/
def builtinTypes : List String :=
  ["any", "bigint", "boolean", "intrinsic", "never", "number", "object", "string", "symbol",
    "undefined", "unknown"]

/-- Whether a type may begin with this token. -/
def beginsType : Token → Bool
  | .word _ _ | .string _ | .number _ | .bigint => true
  | .punct p => p ∈ ["(", "[", "\x7b", "<", "<<", "`", "-", "|", "&", "..."]
  | _ => false

/-! ### Parameters and arguments of types -/

/-- Reads one parameter of a type. -/
def typeParam (g : Grammar) : Parse Unit := do
  let _ ← iterate
    (fun () => do
      if ← (do return (← isWord "const") || (← isWord "in") || (← isWord "out")) then
        if ← nextIs fun t => t.word?.isSome && !t.isWord "extends" then
          next
          return some ()
        else return none
      else return none) ()
  let _ ← anyWord
  if ← eatWord "extends" then g.type
  if ← eatPunct "=" then g.type

/-- Reads the parameters of a type in angle brackets. -/
def typeParams (g : Grammar) : Parse Unit := do
  expectFirst '<'
  let _ ← many (do return (← get).here.rest.head? = some '>') do
    typeParam g
    unless (← get).here.rest.head? = some '>' do expectPunct ","
  expectFirst '>'

/-- Reads the parameters of a type if there are any. -/
def typeParamsOption (g : Grammar) : Parse Unit := do
  if ← isPunct "<" then typeParams g

/-- Reads the arguments of a type in angle brackets. -/
def typeArgs (g : Grammar) : Parse Unit := do
  expectFirst '<'
  within (fun s => { s with conditionalTypes := true }) do
    g.type
    let _ ← iterate
      (fun () => do
        if ← eatPunct "," then
          if (← get).here.rest.head? = some '>' then return none
          g.type
          return some ()
        else return none) ()
  expectFirst '>'

/-- Whether the text from the token at hand begins with an angle bracket that opens. -/
def opensAngle : Parse Bool := do
  return (← isPunct "<") || (← isPunct "<<")

/-- Reads type arguments if they follow on the same line. -/
def typeArgsOption (g : Grammar) : Parse Unit := do
  if ← opensAngle then
    unless ← newline do typeArgs g

/-- Reads a name with dots in it. -/
def dottedName : Parse Unit := do
  let _ ← anyWord
  let _ ← iterate
    (fun () => do
      if ← eatPunct "." then
        let _ ← anyWord
        return some ()
      else return none) ()

/-! ### Parameters of function types -/

/-- Reads a name or a pattern of a parameter, which binds nothing here. -/
def typePattern (g : Grammar) : Parse Unit := do
  if ← isWord "this" then next
  else
    let _ ← g.binding

/-- Reads the parameters of a function type, behind the opening parenthesis. -/
def typeParamList (g : Grammar) : Parse Unit := do
  let _ ← commaList ")" do
    let _ ← eatPunct "..."
    typePattern g
    let _ ← eatPunct "?"
    if ← eatPunct ":" then g.type

/-- Reads a type or a predicate: `x is T`, `asserts x`, `asserts x is T`. -/
def returnType (g : Grammar) : Parse Unit := do
  if ← isWord "asserts" then
    if ← nextOnLine fun t => t.word?.isSome && !t.isWord "is" then
      next
  if ← (do return (← token).word?.isSome) then
    if ← nextOnLine (·.isWord "is") then
      next
      next
      g.type
    else g.type
  else g.type

/-- Reads a return type behind its colon, if there is one. -/
def returnTypeOption (g : Grammar) : Parse Unit := do
  if ← isTyped then
    if ← eatPunct ":" then
      within (fun s => { s with conditionalTypes := true }) (returnType g)

/-- Reads the type of something behind its colon, if there is one. -/
def annotationOption (g : Grammar) : Parse Unit := do
  if ← isTyped then
    if ← eatPunct ":" then
      within (fun s => { s with conditionalTypes := true }) g.type

/-! ### Object types -/

/-- Reads the parameters and the result of a signature. -/
def signature (g : Grammar) : Parse Unit := do
  typeParamsOption g
  expectPunct "("
  typeParamList g
  returnTypeOption g

/-- Whether the token at hand begins an index signature: `[`, a name and a colon. -/
def isIndexSignature : Parse Bool := do
  if ← isPunct "[" then
    let isIndex ← ahead do
      next
      let _ ← anyWord
      isPunct ":"
    return isIndex.getD false
  else return false

/-- Reads an index signature. -/
def indexSignature (g : Grammar) : Parse Unit := do
  expectPunct "["
  let _ ← anyWord
  expectPunct ":"
  g.type
  expectPunct "]"
  annotationOption g

/-- Words before the name of a member, which they belong to unless they are the name. -/
def skipMemberWords (words : List String) : Parse Unit := do
  let _ ← iterate
    (fun () => do
      match ← token with
      | .word name false =>
        if words.contains name then
          let isName ← nextIs fun t =>
            match t with
            | .punct p => p ∈ ["(", ":", "?", ",", ";", "\x7d", "<", "=", "!"]
            | .eof => true
            | _ => false
          if isName then return none
          else
            next
            return some ()
        else return none
      | _ => return none) ()

/-- Reads one member of an object type. -/
def typeMember (g : Grammar) : Parse Unit := do
  if ← (do return (← isPunct "(") || (← isPunct "<")) then signature g
  else if ← (do return (← isWord "new") && (← nextIs fun t => t.isPunct "(" || t.isPunct "<")) then
    next
    signature g
  else
    skipMemberWords ["readonly", "get", "set", "static", "public", "private", "protected"]
    if ← isIndexSignature then indexSignature g
    else
      let _ ← propertyKey g
      let _ ← eatPunct "?"
      if ← (do return (← isPunct "(") || (← isPunct "<")) then signature g
      else annotationOption g
  unless ← eatPunct "," do semicolon

/-- Reads the members of an object type, behind the opening brace. -/
def typeMembers (g : Grammar) : Parse Unit := do
  let _ ← many (isPunct "\x7d") (typeMember g)
  expectPunct "\x7d"

/-- Reads a mapped type behind its opening brace; fails if it is none. -/
def mappedType (g : Grammar) : Parse Unit := do
  if ← (do return (← isPunct "+") || (← isPunct "-")) then
    next
    expectWord "readonly"
  else if ← (do return (← isWord "readonly") && (← nextIs (·.isPunct "["))) then next
  expectPunct "["
  let _ ← anyWord
  expectWord "in"
  g.type
  if ← eatWord "as" then g.type
  expectPunct "]"
  if ← (do return (← isPunct "+") || (← isPunct "-")) then
    next
    expectPunct "?"
  else
    let _ ← eatPunct "?"
  annotationOption g
  unless ← eatPunct "," do semicolon
  expectPunct "\x7d"

/-! ### Types in steps of precedence -/

/-- Reads the text of a template and the types in it, behind its first character. -/
def templateType (g : Grammar) : Parse Unit := do
  let _ ← iterate
    (fun r => do
      match r.templateText (← read).limit true with
      | none => fail (.lexical .unterminatedTemplate)
      | some (.closed, _, r) =>
        continueAt r
        return none
      | some (.substitution, _, r) =>
        continueAt r
        g.type
        if ← isPunct "\x7d" then return some (← get).after
        else fail (.expected "\x7d" (← found))) (← get).after

/-- Reads the members of a tuple type, behind the opening bracket. -/
def tupleType (g : Grammar) : Parse Unit := do
  let _ ← commaList "]" do
    let _ ← eatPunct "..."
    let isLabeled ← (do
      if ← (do return (← token).word?.isSome) then
        let labeled ← ahead do
          next
          let _ ← eatPunct "?"
          isPunct ":"
        return labeled.getD false
      else return false)
    if isLabeled then
      next
      let _ ← eatPunct "?"
      expectPunct ":"
    g.type
    let _ ← eatPunct "?"

/-- Reads a type of a module: `import("m").T<U>`, behind the word. -/
def importType (g : Grammar) : Parse Unit := do
  expectPunct "("
  let _ ← stringLiteral
  if ← eatPunct "," then
    unless ← isPunct ")" do
      let _ ← g.assignment
      let _ ← eatPunct ","
  expectPunct ")"
  if ← eatPunct "." then dottedName
  typeArgsOption g

/-- Reads a type that stands by itself. -/
def primaryType (g : Grammar) : Parse Unit := do
  match ← token with
  | .string _ | .number _ | .bigint => next
  | .punct "-" =>
    next
    match ← token with
    | .number _ | .bigint => next
    | _ => fail (.expected "number" (← found))
  | .punct "`" => templateType g
  | .punct "(" =>
    next
    within (fun s => { s with conditionalTypes := true }) g.type
    expectPunct ")"
  | .punct "[" =>
    next
    within (fun s => { s with conditionalTypes := true }) (tupleType g)
  | .punct "\x7b" =>
    next
    within (fun s => { s with conditionalTypes := true }) do
      match ← attempt (do mappedType g; return some ()) with
      | some () => return
      | none => typeMembers g
  | .word "typeof" false =>
    next
    if ← eatWord "import" then importType g
    else
      let _ ← anyWord
      let _ ← iterate
        (fun () => do
          if ← eatPunct "." then
            match ← token with
            | .privateName _ => next
            | _ =>
              let _ ← anyWord
            return some ()
          else return none) ()
      typeArgsOption g
  | .word "import" false =>
    next
    importType g
  | .word "void" _ | .word "null" _ | .word "true" _ | .word "false" _ | .word "this" _ => next
  | .word name _ =>
    if name ∈ keywords then fail (.expected "type" (← found))
    else if builtinTypes.contains name && !(← nextIs (·.isPunct ".")) then next
    else
      dottedName
      typeArgsOption g
  | _ => if ← isEof then fail .unexpectedEnd else fail (.expected "type" (← found))

/-- Reads a type with brackets behind it. -/
def arrayType (g : Grammar) : Parse Unit := do
  primaryType g
  let _ ← iterate
    (fun () => do
      if ← (do return (← isPunct "[") && !(← newline)) then
        next
        if ← eatPunct "]" then return some ()
        else
          within (fun s => { s with conditionalTypes := true }) g.type
          expectPunct "]"
          return some ()
      else return none) ()

/-- Reads a type with words before it. -/
def prefixedType (g : Grammar) : Parse Unit := do
  let _ ← iterate
    (fun () => do
      match ← token with
      | .word name false =>
        if typeOperators.contains name then
          if ← nextIs fun t =>
              beginsType t && !t.isPunct "<" && !t.isPunct "|" && !t.isPunct "&" then
            next
            return some ()
          else return none
        else return none
      | _ => return none) ()
  if ← (do return (← isWord "infer") && (← nextIs fun t => t.word?.isSome)) then
    next
    let _ ← anyWord
    let _ ← attempt do
      if ← eatWord "extends" then
        within (fun s => { s with conditionalTypes := false }) g.type
        if (← read).conditionalTypes && (← isPunct "?") then return none
        else return some ()
      else return none
  else arrayType g

/-- Reads types with an operator between them, and perhaps one before the first. -/
def operatorType (operator : String) (operand : Parse Unit) : Parse Unit := do
  let _ ← eatPunct operator
  operand
  let _ ← iterate
    (fun () => do
      if ← eatPunct operator then
        operand
        return some ()
      else return none) ()

/-- Whether a parenthesis at hand opens the parameters of a function type. -/
def opensParams (g : Grammar) : Parse Bool := do
  let isParams ← ahead do
    next
    if ← (do return (← isPunct ")") || (← isPunct "...")) then return true
    else
      typePattern g
      if ← isOneOf [":", ",", "?", "="] then return true
      else if ← eatPunct ")" then isPunct "=>"
      else return false
  return isParams.getD false

/-- Reads a function type, from its type parameters or its parenthesis. -/
def functionType (g : Grammar) : Parse Unit := do
  typeParamsOption g
  expectPunct "("
  typeParamList g
  expectPunct "=>"
  returnType g

/-- Reads a type that is not conditional. -/
def plainType (g : Grammar) : Parse Unit := do
  if ← isPunct "<" then functionType g
  else if ← (do return (← isPunct "(") && (← opensParams g)) then functionType g
  else if ← (do return (← isWord "new") && (← nextIs fun t => t.isPunct "(" || t.isPunct "<")) then
    next
    functionType g
  else if ← (do return (← isWord "abstract") && (← nextIs (·.isWord "new"))) then
    next
    next
    functionType g
  else operatorType "|" (operatorType "&" (prefixedType g))

/-- Reads a type: one that is not conditional, or a conditional one. -/
def typeBody (g : Grammar) : Parse Unit := do
  plainType g
  if ← (do return (← read).conditionalTypes && !(← newline) && (← isWord "extends")) then
    next
    within (fun s => { s with conditionalTypes := false }) (plainType g)
    expectPunct "?"
    g.type
    expectPunct ":"
    g.type

end CallFlow.Syntax.Parse
