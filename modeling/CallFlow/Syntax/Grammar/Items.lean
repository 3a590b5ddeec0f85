import CallFlow.Syntax.Grammar.Statements

/-!
# Items

Statements, imports and exports, of which a module consists.
-/

namespace CallFlow.Syntax.Parse

/-! ### Clauses -/

/-- Reads the attributes of an import, if they follow on the same line. -/
def importAttributes (g : Grammar) : Parse Unit := do
  if ← (do return !(← newline) && ((← isWord "with") || (← isWord "assert"))) then
    next
    expectPunct "\x7b"
    let _ ← objectRest g

/-- Reads `from` and the name of a module behind it. -/
def fromClause (g : Grammar) : Parse String := do
  expectWord "from"
  let source ← stringLiteral
  importAttributes g
  semicolon
  return source

/-- Reads a name in an import or export clause, which may be any word or a string. -/
def clauseName : Parse String := do
  match ← token with
  | .string value =>
    next
    return value
  | _ => anyWord

/-- Whether a name of a clause is at hand. -/
def atClauseName : Parse Bool := do
  match ← token with
  | .word _ _ | .string _ => return true
  | _ => return false

/-- Reads the words of one entry of a clause and `as` between them, up to five words. -/
def clauseWords : Parse (List String) := do
  let words ← iterate
    (fun words => do
      if words.length < 5 && (← atClauseName) then return some ((← clauseName) :: words)
      else return none) []
  return words.reverse

/-- The name on either side of `as`, or one name for both. In typed sources `type` may stand
before them. -/
def clauseEntry? (typed : Bool) : List String → Option (String × String)
  | [name] => some (name, name)
  | ["type", name] => if typed then some (name, name) else none
  | ["type", "as", "as"] => some ("type", "as")
  | [name, "as", renamed] => some (name, renamed)
  | ["type", name, "as", renamed] => if typed then some (name, renamed) else none
  | _ => none

/-- Reads one entry of a clause: the name before `as` and the one behind it. -/
def clauseEntry : Parse (String × String) := do
  match clauseEntry? (← isTyped) (← clauseWords) with
  | some entry => return entry
  | none => fail .nameExpected

/-! ### Imports -/

/-- Reads the names that are imported in braces, behind the first one. -/
def importedNames : Parse (List ImportSpecifier) :=
  commaList "\x7d" do
    let isText ← (do match ← token with
      | .string _ => return true
      | _ => return false)
    let (imported, name) ← clauseEntry
    if imported = name && (isText || keywords.contains name) then fail .nameExpected
    else return .named imported name

/-- Reads a namespace object or names in braces, if they are at hand. -/
def importGroup? : Parse (Option (List ImportSpecifier)) := do
  if ← eatPunct "*" then
    expectWord "as"
    return some [.namespaceObject (← boundName)]
  else if ← eatPunct "\x7b" then return some (← importedNames)
  else return none

/-- Reads what another name is imported for, behind `=`. -/
def importAlias (name : String) : Parse ModuleItem := do
  expectPunct "="
  if ← (do return (← isWord "require") && (← nextIs (·.isPunct "("))) then
    next
    next
    let source ← stringLiteral
    expectPunct ")"
    semicolon
    return .importEquals name (some source)
  else
    dottedName
    semicolon
    return .importEquals name none

/-- Reads the word `type` behind `import`, if it is not itself a name that is imported. -/
def eatImportType : Parse Unit := do
  if ← (do return (← isTyped) && (← isWord "type")) then
    let isModifier ← ahead do
      next
      if (← isPunct "*") || (← isPunct "\x7b") then return true
      else if isBindable (← token) then
        if ← isWord "from" then nextIs fun t => t.isWord "from" || t.isPunct "="
        else return true
      else return false
    if isModifier.getD false then next

/-- Reads what is imported, from the names to the end. -/
def importNames (g : Grammar) : Parse ModuleItem := do
  eatImportType
  match ← importGroup? with
  | some names => return .importNames (← fromClause g) names
  | none =>
    let name ← boundName
    if ← (do return (← isTyped) && (← isPunct "=")) then importAlias name
    else if ← eatPunct "," then
      match ← importGroup? with
      | some names => return .importNames (← fromClause g) (.default name :: names)
      | none => fail (.expected "\x7b" (← found))
    else return .importNames (← fromClause g) [.default name]

/-- Reads an import from the word `import`. -/
def importItem (g : Grammar) : Parse ModuleItem := do
  next
  match ← token with
  | .string source =>
    next
    importAttributes g
    semicolon
    return .importNames source []
  | _ => importNames g

/-! ### Exports -/

/-- Reads one entry of an export clause. -/
def exportSpecifier : Parse ExportSpecifier := do
  let origin ← start
  let (given, exported) ← clauseEntry
  return ⟨← spanFrom origin, given, exported⟩

/-- Reads names that are exported in braces, and the module that they come from. -/
def exportNames (g : Grammar) : Parse ModuleItem := do
  expectPunct "\x7b"
  let names ← commaList "\x7d" exportSpecifier
  if ← isWord "from" then return .exportNames (some (← fromClause g)) names
  else
    let _ ← eatPunct ";"
    return .exportNames none names

/-- Reads what is exported from another module as a whole, behind the star. -/
def exportAll (g : Grammar) : Parse ModuleItem := do
  if ← eatWord "as" then
    let _ ← clauseName
  let _ ← fromClause g
  return .inert

/-- Reads a function or a class that is exported by default, if one is at hand. -/
def defaultDecl? (g : Grammar) (decorators : List Expr) : Parse (Option ModuleItem) := do
  let origin ← start
  if ← (do return (← isTyped) && (← isWord "abstract") && (← nextOnLine (·.isWord "class"))) then
    next
  let isAsync ← beginsAsyncFunction
  if isAsync then next
  if ← eatWord "function" then
    let isGenerator ← eatPunct "*"
    let name ← functionName?
    return some (.exportDefaultFunction name (← functionFrom g origin isGenerator))
  else if ← eatWord "class" then
    let name ← className?
    return some (.exportDefaultClass name (← classFrom g decorators g.operand))
  else return none

/-- Reads what is exported by default. -/
def exportDefault (g : Grammar) (decorators : List Expr) : Parse ModuleItem := do
  failEnd
  match ← defaultDecl? g decorators with
  | some item => return item
  | none =>
    if ← (do return (← isTyped) && (← isWord "interface")) then
      next
      interfaceRest g
      return .inert
    else
      let e ← nested g.assignment
      semicolon
      return .exportDefaultExpr e

/-- Reads the forms of exports that only typed sources have, if one is at hand. -/
def typedExport? (g : Grammar) : Parse (Option ModuleItem) := do
  if !(← isTyped) then return none
  else if ← eatPunct "=" then
    let e ← nested g.expr
    semicolon
    return some (.exportAssignment e)
  else if ← eatWord "as" then
    expectWord "namespace"
    let _ ← boundName
    semicolon
    return some .inert
  else if ← eatWord "import" then
    if ← (do return (← isWord "type") && (← nextIs isBindable)) then next
    return some (← importAlias (← boundName))
  else if ← (do return (← isWord "type") && (← nextIs fun t => t.isPunct "\x7b" || t.isPunct "*"))
    then
    next
    if ← eatPunct "*" then return some (← exportAll g) else return some (← exportNames g)
  else return none

/-- Reads a declaration that is exported. -/
def exportedDecl (g : Grammar) (decorators : List Expr) : Parse Decl := do
  match ← extendedDecl? g decorators with
  | some d => return d
  | none =>
    match ← functionOrClass? g decorators with
    | some d => return d
    | none =>
      if ← beginsVariables then varDeclaration g
      else if ← isEof then fail .unexpectedEnd
      else fail (.expected "\x7b" (← found))

/-- Reads an export from the word `export`. -/
def exportItem (g : Grammar) (decorators : List Expr) : Parse ModuleItem := do
  next
  match ← typedExport? g with
  | some item => return item
  | none =>
    if ← eatWord "default" then
      let more ← Parse.decorators g (arguments g)
      exportDefault g (decorators ++ more)
    else if ← eatPunct "*" then exportAll g
    else if ← isPunct "\x7b" then exportNames g
    else
      let more ← Parse.decorators g (arguments g)
      return .exportDecl (← exportedDecl g (decorators ++ more))

/-! ### Any item -/

/-- Reads an item of a module or a namespace. Decorators may stand before `export` in typed
sources only. -/
def itemBody (g : Grammar) : Parse ModuleItem := do
  let decorators ← decorators g (arguments g)
  if ← isWord "export" then
    if decorators.isEmpty || (← isTyped) then exportItem g decorators
    else fail (.notAllowed "A decorator before 'export'")
  else if ← (do return (← isWord "import") && !(← nextIs fun t => t.isPunct "(" || t.isPunct "."))
    then
    importItem g
  else return .stmt (← stmtFrom g true decorators)

end CallFlow.Syntax.Parse
