import CallFlow.FileFlow.Basic
import CallFlow.FileFlow.Names

/-!
# Walking statements and expressions

Every function and call is registered where it is met, and every flow that can be seen in one
place becomes an edge. The property `p` of any object is one vertex. The value of an expression
is a vertex, or none if no function that matters flows out of it.
-/

namespace CallFlow

open Syntax

/-- What the surrounding syntax does with an expression. -/
inductive Role
  | value
  /-- It initialises `name`, which an anonymous function or class takes as its name. -/
  | named (name : String)
  /-- It is invoked. -/
  | callee
deriving DecidableEq, Repr, Inhabited

/-- The role of an expression in parentheses: a name goes through, a receiver does not. -/
def Role.inParens : Role → Role
  | .named name => .named name
  | .value | .callee => .value

/-- The name of an anonymous function in this role. -/
def Role.name? : Role → Option String
  | .named name => some name
  | .value | .callee => none

/-- What an expression evaluates to; `receiver` is the object that a method was read from. -/
structure Evaluated where
  result : Option VertexId := none
  receiver : Option VertexId := none
deriving Repr, Inhabited

namespace Syntax

/-- The name under which a property is known, if it is known while the source is read. -/
def Key.name? : Key → Option String
  | .named name | .privateName name => some name
  | .computed (.string name) => some name
  | .computed _ | .untracked => none

def Key.isPrivate : Key → Bool
  | .privateName _ => true
  | _ => false

/-- The role of a value stored under a key. -/
def Key.valueRole (key : Key) : Role :=
  match key.name? with
  | some name => .named name
  | none => .value

/-- Whether an expression denotes a place that a value can be stored in. -/
def Expr.isPlace : Expr → Bool
  | .ident _ => true
  | .member false _ _ => true
  | .paren inner => inner.isPlace
  | _ => false

/-- Whether a parameter takes a slot. -/
def Param.isSlotted : Param → Bool
  | .pattern _ _ | .property _ _ _ => true
  | .propertyPattern _ _ _ => false

/-- The role of a value that is assigned to a pattern. -/
def Pattern.valueRole : Pattern → Role
  | .ident name => .named name
  | .expr (.member false _ (.named name)) => .named name
  | _ => .value

/-- Whether an assignment to a pattern replaces the exports of the module, provided that
`module` is a global. -/
def Pattern.isModuleExports : Pattern → Bool
  | .expr (.member false (.ident owner) (.named name)) => owner = "module" && name = "exports"
  | _ => false

/-- What a call requires, provided that `require` is a global. Its one argument may be spread. -/
def requiredSpecifier? : Expr → List Expr → Option String
  | .ident name, [.string specifier] | .ident name, [.spread (.string specifier)] =>
    if name = "require" then some specifier else none
  | _, _ => none

end Syntax

namespace Walk

/-- Whether a name is declared nowhere around. -/
def isGlobal (name : String) : Walk Bool := do
  return (← lookup name).isNone

/-- Declares what a declaration binds when its block is entered. -/
def hoist : Decl → Walk Unit
  | .function name _ => declare .functionName [name]
  | .class name _ => declare .className [name]
  | .vars .var declarators => declareVars (Declarator.namesAll declarators)
  | .vars .let declarators => declare .variable (Declarator.namesAll declarators)
  | .vars .const declarators => declare .constant (Declarator.namesAll declarators)
  | .using declarators => declare .constant (Declarator.namesAll declarators)
  | .inert => pure ()

/-- Declares what the declarations of a block bind. -/
def hoistAll (stmts : List Stmt) : Walk Unit :=
  stmts.forM fun
    | .decl d => hoist d
    | _ => pure ()

/-- Declares what a function body binds: its declarations, then every `var` inside. -/
def hoistBody : Body → Walk Unit
  | .block stmts => do
    hoistAll stmts
    declare .variable (Stmt.varNamesAll stmts)
  | .expr _ | .absent => pure ()

def hoistCases (cases : List Case) : Walk Unit :=
  cases.forM fun
    | .mk _ body => hoistAll body

/-- An assignment to `module.exports` exports its value by default. -/
def exportAssigned (target : Pattern) (value : Option VertexId) : Walk Unit := do
  if target.isModuleExports then
    if ← isGlobal "module" then
      match value with
      | some value => addExport "default" value
      | none => pure ()

/-- Records a call of `require`. -/
def recordRequire (chained : Bool) (callee : Expr) (args : List Expr) (call : CallId) :
    Walk Unit := do
  match chained, requiredSpecifier? callee args with
  | false, some specifier =>
    if ← isGlobal "require" then addRequire specifier call
  | _, _ => pure ()

/-- The object that a method was read from flows to the receiver of the call. -/
def passReceiver (call : CallId) : Option VertexId → Walk Unit
  | some object => do edge object (← vertex (.arg call 0))
  | none => pure ()

/-- A value flows to what the function around returns. -/
def returnValue (value : Option VertexId) : Walk Unit := do
  match (← read).function with
  | some f => flow value (← vertex (.ret f))
  | none => pure ()

/-- Declares the name that a function has inside itself only. -/
def bindOwnName (value : VertexId) : Option String → Walk Unit
  | some own => do
    declare .functionName [own]
    edge value (← resolve own)
  | none => pure ()

/-- Declares the name that a class has inside itself only. -/
def declareClassName : Option String → Walk Unit
  | some own => declare .className [own]
  | none => pure ()

/-- The name that a class has inside itself denotes its constructor. -/
def bindClassName : Option String → Option VertexId → Walk Unit
  | some own, some constructor => do edge constructor (← resolve own)
  | _, _ => pure ()

end Walk

namespace Routine

open Walk

/-- Walks statements in a block scope of their own. -/
def inBlock (stmts : List Stmt) (routine : Routine Unit) : Routine Unit := do
  let scope ← enterScope .blockScope
  hoistAll stmts
  routine
  setScope scope

mutual

/-- Walks an expression in its role. An assignment leaves alone a target that has a type or is
part of an optional chain. -/
def visit (role : Role) : Expr → Routine Evaluated
  | .ident name => do return { result := ← resolve name }
  | .this => do return { result := ← receiver }
  | .string _ | .literal => return {}
  | .function none f => do
    let id ← visitFunction role.name? none false f
    return { result := ← vertex (.func id) }
  | .function (some name) f => do
    let id ← visitFunction (some name) (some name) false f
    return { result := ← vertex (.func id) }
  | .arrow f => do
    let id ← visitFunction role.name? none true f
    return { result := ← vertex (.func id) }
  | .class none c => do return { result := ← visitClass role.name? none c }
  | .class (some name) c => do return { result := ← visitClass (some name) (some name) c }
  | .call chained span callee args => do
    let call ← addCall .call args.length span
    let slot ← vertex (.callee call)
    let value ← visit .callee callee
    flow value.result slot
    passReceiver call value.receiver
    visitArgs call 1 args
    let result ← vertex (.res call)
    recordRequire chained callee args call
    return { result }
  | .construct span callee args => do
    let call ← addCall .construct args.length span
    let slot ← vertex (.callee call)
    let value ← visit .callee callee
    flow value.result slot
    visitArgs call 1 args
    return { result := ← vertex (.res call) }
  | .tagged span tag substitutions => do
    let call ← addCall .call (substitutions.length + 1) span
    let slot ← vertex (.callee call)
    let value ← visit .callee tag
    flow value.result slot
    passReceiver call value.receiver
    visitArgs call 2 substitutions
    return { result := ← vertex (.res call) }
  | .member _ object key => do
    let value ← visit .value object
    return { result := ← visitKey key, receiver := value.result }
  | .superMember key => do
    let receiver ← if role = .callee then receiver else pure none
    return { result := ← visitKey key, receiver }
  | .assign op target value => do
    let value ← visit target.valueRole value
    let stored := if op = .arithmetic then none else value.result
    match target with
    | .expr (.superMember key) => flow stored (← visitKey key)
    | .expr (.typed _) | .expr (.member true _ _) => pure ()
    | target =>
      exportAssigned target stored
      bind target stored
    return { result := stored }
  | .logical span left right => do
    let left ← visit .value left
    let right ← visit .value right
    let joined ← exprVertex span
    flow left.result joined
    flow right.result joined
    return { result := joined }
  | .conditional span test consequent alternate => do
    let _ ← visit .value test
    let consequent ← visit .value consequent
    let alternate ← visit .value alternate
    let joined ← exprVertex span
    flow consequent.result joined
    flow alternate.result joined
    return { result := joined }
  | .sequence exprs => do return { result := ← visitAll exprs }
  | .paren inner => do
    let value ← visit role.inParens inner
    return { result := value.result }
  | .await inner | .typed inner | .spread inner => do
    let value ← visit .value inner
    return { result := value.result }
  | .array operands | .untracked operands => do
    let _ ← visitAll operands
    return {}
  | .object properties => do
    visitProperties properties
    return {}
  | .element attributes children => do
    visitAttributes attributes
    let _ ← visitAll children
    return {}

/-- Walks expressions in order; returns the value of the last one. -/
def visitAll : List Expr → Routine (Option VertexId)
  | [] => return none
  | [e] => do return (← visit .value e).result
  | e :: rest => do
    let _ ← visit .value e
    visitAll rest

def visitOption : Option Expr → Routine (Option VertexId)
  | none => return none
  | some e => do return (← visit .value e).result

/-- Walks the arguments of a call from `slot` on. -/
def visitArgs (call : CallId) (slot : Nat) : List Expr → Routine Unit
  | [] => return
  | e :: rest => do
    let value ← visit .value e
    flow value.result (← vertex (.arg call slot))
    visitArgs call (slot + 1) rest

/-- The vertex of a property. A key that is computed is walked, and is not tracked. -/
def visitKey : Key → Routine VertexId
  | .named name | .privateName name => vertex (.prop name)
  | .computed (.string name) => vertex (.prop name)
  | .computed e => do
    let _ ← visit .value e
    vertex .unknown
  | .untracked => vertex .unknown

def visitProperty : Property → Routine Unit
  | .keyValue key value => do
    let target ← visitKey key
    let value ← visit key.valueRole value
    flow value.result target
  | .shorthand name => do
    let value ← resolve name
    edge value (← vertex (.prop name))
  | .shorthandDefault _ value => do
    let _ ← visit .value value
  | .method key f => do
    let target ← visitKey key
    let id ← visitFunction key.name? none false f
    edge (← vertex (.func id)) target
  | .spread e => do
    let _ ← visit .value e

def visitProperties : List Property → Routine Unit
  | [] => return
  | p :: rest => do
    visitProperty p
    visitProperties rest

def visitAttributes : List Attribute → Routine Unit
  | [] => return
  | .value e :: rest => do
    let _ ← visit .value e
    visitAttributes rest
  | .fragment _ :: rest => visitAttributes rest

/-- Binds a pattern to a value. Plain names receive it; an object pattern reads the properties
that it names. -/
def bind : Pattern → Option VertexId → Routine Unit
  | .ident name, source => do flow source (← resolve name)
  | .array elements, _ => bindAll elements
  | .object fields, _ => bindFields fields
  | .rest inner, _ => bind inner none
  | .withDefault inner value, source => do
    let value ← visit .value value
    bind inner source
    match value.result with
    | some value => bind inner (some value)
    | none => pure ()
  | .expr e, source => do
    let place ← visit .value e
    match e.isPlace, place.result with
    | true, some place => flow source place
    | _, _ => pure ()

def bindAll : List Pattern → Routine Unit
  | [] => return
  | p :: rest => do
    bind p none
    bindAll rest

def bindField : PatternField → Routine Unit
  | .keyValue key p => do
    let source ← visitKey key
    bind p (some source)
  | .shorthand name default => do
    let source ← vertex (.prop name)
    let target ← resolve name
    edge source target
    match default with
    | some value => do
      let value ← visit .value value
      flow value.result target
    | none => pure ()
  | .rest inner => bind inner none

def bindFields : List PatternField → Routine Unit
  | [] => return
  | f :: rest => do
    bindField f
    bindFields rest

/-- Walks a function. `own` is the name that it has inside itself only. -/
def visitFunction (name own : Option String) (isArrow : Bool) : Func → Routine FunctionId
  | .mk params body span => do
    let f ← addFunction name (params.countP Param.isSlotted) isArrow span
    let value ← vertex (.func f)
    let scope ← enterScope (if isArrow then .arrowScope else .functionScope)
    let function ← enterFunction f
    let receiver := (← get).receiver
    if !isArrow then setReceiver (some f)
    bindOwnName value own
    declare .parameter (params.flatMap Param.names)
    hoistBody body
    bindParams f 1 params
    visitBody f body
    setReceiver receiver
    setFunction function
    setScope scope
    return f

/-- Binds the parameters of `f` from `slot` on. A parameter that takes no slot is left out. -/
def bindParams (f : FunctionId) (slot : Nat) : List Param → Routine Unit
  | [] => return
  | p :: rest => do
    if p.isSlotted then
      let source ← vertex (.param f slot)
      bindParam source p
      bindParams f (slot + 1) rest
    else bindParams f slot rest

def bindParam (source : VertexId) : Param → Routine Unit
  | .pattern _ (.rest inner) => bind inner none
  | .pattern _ p => bind p (some source)
  | .property _ name default => do
    let target ← resolve name
    edge source target
    edge source (← vertex (.prop name))
    match default with
    | some value => do
      let value ← visit .value value
      flow value.result target
    | none => pure ()
  | .propertyPattern _ _ _ => return

def visitBody (f : FunctionId) : Body → Routine Unit
  | .block stmts => visitStmts stmts
  | .expr result => do
    let value ← visit .value result
    flow value.result (← vertex (.ret f))
  | .absent => return

/-- Walks a class. Returns its last constructor. `own` is the name that it has inside itself
only. -/
def visitClass (name own : Option String) : Syntax.Class → Routine (Option VertexId)
  | .mk decorators heritage members => do
    let _ ← visitAll decorators
    let _ ← visitOption heritage
    let scope ← enterScope .classScope
    declareClassName own
    let constructor ← visitMembers name none members
    bindClassName own constructor
    setScope scope
    return constructor

/-- Walks the members of a class; `last` is the constructor met so far. -/
def visitMembers (name : Option String) (last : Option VertexId) :
    List Member → Routine (Option VertexId)
  | [] => return last
  | .constructor f :: rest => do
    let id ← visitFunction name none false f
    let constructor ← vertex (.func id)
    visitMembers name (some constructor) rest
  | m :: rest => do
    visitMember m
    visitMembers name last rest

def visitMember : Member → Routine Unit
  | .constructor _ => return
  | .method decorators key f => do
    if !key.isPrivate then
      let _ ← visitAll decorators
    let target ← visitKey key
    let id ← visitFunction key.name? none false f
    edge (← vertex (.func id)) target
  | .field _ key value => do
    let target ← visitKey key
    match value with
    | some value =>
      let value ← visit key.valueRole value
      flow value.result target
    | none => pure ()
  | .staticBlock stmts => inBlock stmts (visitStmts stmts)

def visitStmt : Stmt → Routine Unit
  | .decl d => visitDecl d
  | .expr e => do
    let _ ← visit .value e
  | .block stmts => inBlock stmts (visitStmts stmts)
  | .ret none => return
  | .ret (some e) => do
    let value ← visit .value e
    returnValue value.result
  | .cond test consequent alternate => do
    let _ ← visit .value test
    visitStmt consequent
    visitStmtOption alternate
  | .for head test update body => do
    let scope ← enterScope .forScope
    visitLoopHead head
    let _ ← visitOption test
    let _ ← visitOption update
    visitStmt body
    setScope scope
  | .forEach head iterated body => do
    let scope ← enterScope .forScope
    let _ ← visit .value iterated
    bindLoopHead head
    visitStmt body
    setScope scope
  | .while test body => do
    let _ ← visit .value test
    visitStmt body
  | .doWhile body test => do
    visitStmt body
    let _ ← visit .value test
  | .labeled body => visitStmt body
  | .switch subject cases => do
    let _ ← visit .value subject
    let scope ← enterScope .blockScope
    hoistCases cases
    visitCases cases
    setScope scope
  | .throw e => do
    let _ ← visit .value e
  | .try body param handler finalizer => do
    visitStmt body
    match handler with
    | some handler =>
      let scope ← enterScope .catchScope
      visitCatchParam param
      visitStmt handler
      setScope scope
    | none => pure ()
    visitStmtOption finalizer
  | .with object body => do
    let _ ← visit .value object
    visitStmt body
  | .inert => return

def visitStmtOption : Option Stmt → Routine Unit
  | none => return
  | some s => visitStmt s

def visitStmts : List Stmt → Routine Unit
  | [] => return
  | s :: rest => do
    visitStmt s
    visitStmts rest

def visitCatchParam : Option Pattern → Routine Unit
  | none => return
  | some p => do
    declare .variable p.names
    let unknown ← vertex .unknown
    bind p (some unknown)

/-- Walks what stands before the first `;` of a loop. -/
def visitLoopHead : LoopHead → Routine Unit
  | .decl (.vars kind declarators) => do
    hoist (.vars kind declarators)
    visitDeclarators declarators
  | .expr e => do
    let _ ← visit .value e
  | .decl _ | .pattern _ | .absent => return

/-- Binds what stands before `in` or `of`; the values iterated over are not tracked. -/
def bindLoopHead : LoopHead → Routine Unit
  | .decl (.vars kind declarators) => bindHeadDeclarators kind declarators
  | .pattern p => bind p none
  | .decl _ | .expr _ | .absent => return

def bindHeadDeclarators (kind : VarKind) : List Declarator → Routine Unit
  | [] => return
  | .mk target init :: rest => do
    hoist (.vars kind [.mk target init])
    bind target none
    bindHeadDeclarators kind rest

def visitCases : List Case → Routine Unit
  | [] => return
  | .mk test body :: rest => do
    let _ ← visitOption test
    visitStmts body
    visitCases rest

def visitDecl : Decl → Routine Unit
  | .function name f => do
    let id ← visitFunction (some name) none false f
    let value ← vertex (.func id)
    edge value (← resolve name)
  | .class name c => do
    match ← visitClass (some name) none c with
    | some constructor => edge constructor (← resolve name)
    | none => pure ()
  | .vars _ declarators => visitDeclarators declarators
  | .using declarators => visitResources declarators
  | .inert => return

/-- Walks declarators; a plain name is given to an anonymous function. -/
def visitDeclarators : List Declarator → Routine Unit
  | [] => return
  | .mk target none :: rest => do
    bind target none
    visitDeclarators rest
  | .mk target (some init) :: rest => do
    let role := match target with
      | .ident name => Role.named name
      | _ => Role.value
    let value ← visit role init
    bind target value.result
    visitDeclarators rest

/-- Walks the declarators of a `using` declaration, which name no functions. -/
def visitResources : List Declarator → Routine Unit
  | [] => return
  | .mk target init :: rest => do
    let value ← visitOption init
    bind target value
    visitResources rest

end

end Routine

end CallFlow
