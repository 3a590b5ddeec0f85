import CallFlow.Syntax.Grammar.Declarations

/-!
# Statements

A statement is told by its first word. Jumps that lead nowhere and other rules of placement are
recorded only.
-/

namespace CallFlow.Syntax.Parse

/-- Reads a statement that is part of another one. -/
def body (g : Grammar) : Parse Stmt := g.stmt false

/-- Reads an expression in parentheses, as after `if`. -/
def condition (g : Grammar) : Parse Expr := do
  expectPunct "("
  let e ← nested g.expr
  expectPunct ")"
  return e

/-- The setting in the body of a loop. -/
def loopSetting (s : Setting) : Setting :=
  { s with canBreak := true, canContinue := true }

/-- Reads the body of a loop. -/
def loopBody (g : Grammar) : Parse Stmt :=
  within loopSetting (body g)

/-! ### Jumps -/

/-- Reads the label of a jump on the same line, and the end of the statement. -/
def jumpLabel : Parse (Option String) := do
  let label ← (do
    if (← newline) || !(isBindable (← token)) then return none
    else return some (← boundName))
  semicolon
  return label

/-- Reads `break` and what follows. -/
def breakStmt : Parse Stmt := do
  let origin ← start
  next
  let label ← jumpLabel
  let s ← read
  match label with
  | some name =>
    if !s.labels.contains name then record .unknownLabel (← spanFrom origin)
    else if !s.canBreak then record .breakOutside (← spanFrom origin)
  | none => if !s.canBreak then record .breakOutside (← spanFrom origin)
  return .inert

/-- Reads `continue` and what follows. -/
def continueStmt : Parse Stmt := do
  let origin ← start
  next
  let label ← jumpLabel
  let s ← read
  if !s.canContinue then record .continueOutside (← spanFrom origin)
  else
    match label with
    | some name => unless s.labels.contains name do record .continueOutside (← spanFrom origin)
    | none => pure ()
  return .inert

/-- Reads `return` and what follows. -/
def returnStmt (g : Grammar) : Parse Stmt := do
  let origin ← start
  next
  let value ← (do if ← mayEnd then return none else return some (← nested g.expr))
  semicolon
  unless (← read).inFunction do record .returnOutsideFunction (← spanFrom origin)
  return .ret value

/-- Reads `throw` and what follows. -/
def throwStmt (g : Grammar) : Parse Stmt := do
  next
  if ← newline then fail .lineEndAfterThrow
  let e ← nested g.expr
  semicolon
  return .throw e

/-! ### Branches -/

/-- Reads `if` and what follows. -/
def ifStmt (g : Grammar) : Parse Stmt := do
  next
  let test ← condition g
  let consequent ← body g
  let alternate ← (do if ← eatWord "else" then return some (← body g) else return none)
  return .cond test consequent alternate

/-- Reads a case of a `switch`. Says whether it is the default one. -/
def switchCase (g : Grammar) (hasDefault : Bool) : Parse (Case × Bool) := do
  let test ← (do
    if ← eatWord "case" then return some (← nested g.expr)
    else if ← (do return !hasDefault && (← eatWord "default")) then return none
    else fail (.expected "\x7d" (← found)))
  expectPunct ":"
  let stmts ← many
    (do return (← isWord "case") || (← isWord "default") || (← isPunct "\x7d") || (← isEof))
    (g.stmt true)
  return (.mk test stmts, hasDefault || test.isNone)

/-- Reads `switch` and what follows. -/
def switchStmt (g : Grammar) : Parse Stmt := do
  next
  let subject ← condition g
  expectPunct "\x7b"
  let (cases, _) ← within (fun s => { s with canBreak := true, hasIn := true })
    (iterate
      (fun (cases, hasDefault) => do
        if ← isPunct "\x7d" then return none
        else
          let (c, hasDefault) ← switchCase g hasDefault
          return some (c :: cases, hasDefault)) ([], false))
  expectPunct "\x7d"
  return .switch subject cases.reverse

/-- Reads the parameter of a handler, if there is one. -/
def handlerParam (g : Grammar) : Parse (Option Pattern) := do
  if ← eatPunct "(" then
    let p ← g.binding
    annotationOption g
    expectPunct ")"
    return some p
  else return none

/-- Reads `catch` and what follows, if it is at hand. -/
def handler? (g : Grammar) : Parse (Option Pattern × Option Stmt) := do
  if ← eatWord "catch" then
    let p ← handlerParam g
    return (p, some (.block (← braced g)))
  else return (none, none)

/-- Reads `finally` and what follows, if it is at hand. -/
def finalizer? (g : Grammar) : Parse (Option Stmt) := do
  if ← eatWord "finally" then return some (.block (← braced g)) else return none

/-- Reads `try` and what follows. -/
def tryStmt (g : Grammar) : Parse Stmt := do
  next
  let stmts ← braced g
  let offset ← start
  let (param, handler) ← handler? g
  let finalizer ← finalizer? g
  if handler.isNone && finalizer.isNone then record .handlerMissing ⟨offset, offset⟩
  return .try (.block stmts) param handler finalizer

/-- Reads a handler or a finalizer that nothing is tried before, which is recorded and dropped. -/
def strayHandler (g : Grammar) : Parse Stmt := do
  record .handlerMissing (← tokenSpan)
  let _ ← attempt (do return some (← handler? g))
  let _ ← attempt (do return some (← finalizer? g))
  return .inert

/-! ### Loops -/

/-- Reads `while` and what follows. -/
def whileStmt (g : Grammar) : Parse Stmt := do
  next
  let test ← condition g
  return .while test (← loopBody g)

/-- Reads `do` and what follows. -/
def doStmt (g : Grammar) : Parse Stmt := do
  next
  let stmt ← loopBody g
  expectWord "while"
  let test ← condition g
  let _ ← eatPunct ";"
  return .doWhile stmt test

/-- Reads an expression, if the token at hand is not `close`, and then `close`. -/
def optionalExpr (g : Grammar) (close : String) : Parse (Option Expr) := do
  if ← eatPunct close then return none
  else
    let e ← nested g.expr
    expectPunct close
    return some e

/-- Reads the rest of a loop from the test on. -/
def countedLoop (g : Grammar) (head : LoopHead) : Parse Stmt := do
  let test ← optionalExpr g ";"
  let update ← optionalExpr g ")"
  return .for head test update (← loopBody g)

/-- Reads the rest of a loop over something, from `in` or `of` on. -/
def eachLoop (g : Grammar) (head : LoopHead) : Parse Stmt := do
  let iterated ← (do
    if ← eatWord "of" then nested g.assignment
    else
      expectWord "in"
      nested g.expr)
  expectPunct ")"
  return .forEach head iterated (← loopBody g)

/-- Whether the head of a loop over something ends before the token at hand. -/
def isEach : Parse Bool := do
  return (← isWord "of") || (← isWord "in")

/-- Reads a loop that begins with a declaration. -/
def declaredLoop (g : Grammar) (kind : VarKind) : Parse Stmt := do
  let items ← declarators g kind true
  if ← isEach then eachLoop g (.decl (.vars kind items))
  else
    expectPunct ";"
    countedLoop g (.decl (.vars kind items))

/-- Reads a loop that begins with an expression, which may stand for a pattern. -/
def expressedLoop (g : Grammar) : Parse Stmt := do
  let e ← within (fun s => { s with hasIn := false }) g.expr
  if ← isEach then
    match e.toTarget? with
    | some p => eachLoop g (.pattern p)
    | none => fail (.notAllowed "An assignment to this expression")
  else
    expectPunct ";"
    countedLoop g (.expr e)

/-- Whether the head of a loop over resources is at hand, which only typed sources have. -/
def beginsUsingLoop : Parse Bool := do
  if !(← isTyped) then return false
  else
    let begins ← ahead do
      let _ ← eatWord "await"
      return (← beginsUsing) && !(← nextIs (·.isWord "of"))
    return begins.getD false

/-- Reads `for` and what follows. -/
def forStmt (g : Grammar) : Parse Stmt := do
  next
  let isAwait ← eatWord "await"
  expectPunct "("
  let stmt ← (do
    if ← eatPunct ";" then countedLoop g .absent
    else if ← beginsVariables then
      match ← varKind? with
      | some kind => declaredLoop g kind
      | none => fail .expressionExpected
    else if ← beginsUsingLoop then
      let _ ← eatWord "await"
      next
      let p ← g.binding
      eachLoop g (.decl (.using [.mk p none]))
    else expressedLoop g)
  match isAwait, stmt with
  | true, .for _ _ _ _ => fail (.notAllowed "An awaited loop without 'of'")
  | _, _ => return stmt

/-! ### Expressions and labels -/

/-- Reads the end of an expression that is a statement. -/
def expressionEnd : Parse Unit := do
  unless ← (do return (← eatPunct ";") || (← mayEnd)) do fail .statementEnd

/-- Reads a statement behind its label. -/
def labeledStmt (g : Grammar) (label : String) : Parse Stmt := do
  let stmt ← within (fun s => { s with canBreak := true, labels := label :: s.labels }) (body g)
  return .labeled stmt

/-- Reads an expression or a labeled statement. -/
def expressionStmt (g : Grammar) : Parse Stmt := do
  let isImport ← isWord "import"
  let e ← nested (exprBody g)
  match e, ← isPunct ":" with
  | .ident label, true =>
    next
    labeledStmt g label
  | _, _ =>
    if isImport then
      let _ ← eatPunct ";"
    else expressionEnd
    return .expr e

/-- Reads `with` and what follows. -/
def withStmt (g : Grammar) : Parse Stmt := do
  record .withStatement (← tokenSpan)
  next
  let object ← condition g
  return .with object (← body g)

/-! ### Any statement -/

/-- Reads a statement that a word begins which is never a name, if it is at hand. -/
def wordStmt? (g : Grammar) : Parse (Option Stmt) := do
  match ← token with
  | .word "break" false => return some (← breakStmt)
  | .word "continue" false => return some (← continueStmt)
  | .word "debugger" false =>
    next
    semicolon
    return some .inert
  | .word "do" false => return some (← doStmt g)
  | .word "for" false => return some (← forStmt g)
  | .word "if" false => return some (← ifStmt g)
  | .word "return" false => return some (← returnStmt g)
  | .word "switch" false => return some (← switchStmt g)
  | .word "throw" false => return some (← throwStmt g)
  | .word "try" false => return some (← tryStmt g)
  | .word "catch" false | .word "finally" false => return some (← strayHandler g)
  | .word "while" false => return some (← whileStmt g)
  | .word "with" false => return some (← withStmt g)
  | _ => return none

/-- Reads a declaration of variables or resources, if one is at hand. Only `var` may stand where
declarations may not. -/
def varDeclaration? (g : Grammar) (allowDecl : Bool) : Parse (Option Decl) := do
  if ← isWord "var" then return some (← varDeclaration g)
  else if !allowDecl then return none
  else if ← beginsVariables then return some (← varDeclaration g)
  else if ← beginsUsing then return some (← usingDecl g)
  else if ← isWord "await" then
    let isUsing ← ahead do
      next
      beginsUsing
    if isUsing.getD false then
      next
      return some (← usingDecl g)
    else return none
  else return none

/-- Reads a statement behind its decorators, which only a class may have. -/
def stmtFrom (g : Grammar) (allowDecl : Bool) (decorators : List Expr) : Parse Stmt := do
  match ← extendedDecl? g decorators with
  | some d => return .decl d
  | none =>
    match ← functionOrClass? g decorators with
    | some d => return .decl d
    | none =>
      match ← varDeclaration? g allowDecl with
      | some d => return .decl d
      | none =>
        match ← wordStmt? g with
        | some s => return s
        | none =>
          if ← isPunct "\x7b" then return .block (← braced g)
          else if ← eatPunct ";" then return .inert
          else expressionStmt g

/-- Reads a statement. -/
def stmtBody (g : Grammar) (allowDecl : Bool) : Parse Stmt := do
  stmtFrom g allowDecl (← decorators g (arguments g))

end CallFlow.Syntax.Parse
