import CallFlow.FileFlow.Module

/-!
# Walks that stay where they are

The routines that walk syntax move: they enter scopes and functions, and go back to what they have
saved. As they do so without exception, they do what walks do that read their place and cannot
change it. Such walks are easier to reason about. They follow the routines, with `inScope` for what
is done between entering a scope and going back.
-/

namespace CallFlow

open Syntax

namespace Walk

/-- Runs a walk in a new scope below the present one. -/
def inScope {α : Type} (kind : ScopeKind) (walk : Walk α) : Walk α := fun place s =>
  let (scope, scopes) := s.flow.scopes.create kind place.scope
  walk { place with scope } { s with flow := { s.flow with scopes } }

/-- Walks statements in a block scope of their own. -/
def inBlock (stmts : List Stmt) (walk : Walk Unit) : Walk Unit :=
  inScope .blockScope do
    hoistAll stmts
    walk

mutual

/-- Walks an expression in its role. An assignment leaves alone a target that has a type or is
part of an optional chain. -/
def visit (role : Role) : Expr → Walk Evaluated
  | .ident name => do return { result := ← resolve name }
  | .this => do return { result := ← receiver }
  | .string _ | .literal => return {}
  | .function none f => do
    let id ← visitFunction role.name? none false f
    return { result := ← vertex (.func id) }
  | .function (some name) f => do
    let id ← visitFunction (some name) (some name) false f
    return { result := ← vertex (.func id) }
  | .arrow f => do
    let id ← visitFunction role.name? none true f
    return { result := ← vertex (.func id) }
  | .class none c => do return { result := ← visitClass role.name? none c }
  | .class (some name) c => do return { result := ← visitClass (some name) (some name) c }
  | .call chained span callee args => do
    let call ← addCall .call args.length span
    let slot ← vertex (.callee call)
    let value ← visit .callee callee
    flow value.result slot
    passReceiver call value.receiver
    visitArgs call 1 args
    let result ← vertex (.res call)
    recordRequire chained callee args call
    return { result }
  | .construct span callee args => do
    let call ← addCall .construct args.length span
    let slot ← vertex (.callee call)
    let value ← visit .callee callee
    flow value.result slot
    visitArgs call 1 args
    return { result := ← vertex (.res call) }
  | .tagged span tag substitutions => do
    let call ← addCall .call (substitutions.length + 1) span
    let slot ← vertex (.callee call)
    let value ← visit .callee tag
    flow value.result slot
    passReceiver call value.receiver
    visitArgs call 2 substitutions
    return { result := ← vertex (.res call) }
  | .member _ object key => do
    let value ← visit .value object
    return { result := ← visitKey key, receiver := value.result }
  | .superMember key => do
    let receiver ← if role = .callee then receiver else pure none
    return { result := ← visitKey key, receiver }
  | .assign op target value => do
    let value ← visit target.valueRole value
    let stored := if op = .arithmetic then none else value.result
    match target with
    | .expr (.superMember key) => flow stored (← visitKey key)
    | .expr (.typed _) | .expr (.member true _ _) => pure ()
    | target =>
      exportAssigned target stored
      bind target stored
    return { result := stored }
  | .logical span left right => do
    let left ← visit .value left
    let right ← visit .value right
    let joined ← exprVertex span
    flow left.result joined
    flow right.result joined
    return { result := joined }
  | .conditional span test consequent alternate => do
    let _ ← visit .value test
    let consequent ← visit .value consequent
    let alternate ← visit .value alternate
    let joined ← exprVertex span
    flow consequent.result joined
    flow alternate.result joined
    return { result := joined }
  | .sequence exprs => do return { result := ← visitAll exprs }
  | .paren inner => do
    let value ← visit role.inParens inner
    return { result := value.result }
  | .await inner | .typed inner | .spread inner => do
    let value ← visit .value inner
    return { result := value.result }
  | .array operands | .untracked operands => do
    let _ ← visitAll operands
    return {}
  | .object properties => do
    visitProperties properties
    return {}
  | .element attributes children => do
    visitAttributes attributes
    let _ ← visitAll children
    return {}

/-- Walks expressions in order; returns the value of the last one. -/
def visitAll : List Expr → Walk (Option VertexId)
  | [] => return none
  | [e] => do return (← visit .value e).result
  | e :: rest => do
    let _ ← visit .value e
    visitAll rest

/-- Walks an expression that may be left out. -/
def visitOption : Option Expr → Walk (Option VertexId)
  | none => return none
  | some e => do return (← visit .value e).result

/-- Walks the arguments of a call from `slot` on. -/
def visitArgs (call : CallId) (slot : Nat) : List Expr → Walk Unit
  | [] => return
  | e :: rest => do
    let value ← visit .value e
    flow value.result (← vertex (.arg call slot))
    visitArgs call (slot + 1) rest

/-- The vertex of a property. A key that is computed is walked, and is not tracked. -/
def visitKey : Key → Walk VertexId
  | .named name | .privateName name => vertex (.prop name)
  | .computed (.string name) => vertex (.prop name)
  | .computed e => do
    let _ ← visit .value e
    vertex .unknown
  | .untracked => vertex .unknown

/-- Walks a property of an object literal. -/
def visitProperty : Property → Walk Unit
  | .keyValue key value => do
    let target ← visitKey key
    let value ← visit key.valueRole value
    flow value.result target
  | .shorthand name => do
    let value ← resolve name
    edge value (← vertex (.prop name))
  | .shorthandDefault _ value => do
    let _ ← visit .value value
  | .method key f => do
    let target ← visitKey key
    let id ← visitFunction key.name? none false f
    edge (← vertex (.func id)) target
  | .spread e => do
    let _ ← visit .value e

/-- Walks the properties of an object literal. -/
def visitProperties : List Property → Walk Unit
  | [] => return
  | p :: rest => do
    visitProperty p
    visitProperties rest

/-- Walks the attributes of an element. Fragments are passed over. -/
def visitAttributes : List Attribute → Walk Unit
  | [] => return
  | .value e :: rest => do
    let _ ← visit .value e
    visitAttributes rest
  | .fragment _ :: rest => visitAttributes rest

/-- Binds a pattern to a value. Plain names receive it; an object pattern reads the properties
that it names. -/
def bind : Pattern → Option VertexId → Walk Unit
  | .ident name, source => do flow source (← resolve name)
  | .array elements, _ => bindAll elements
  | .object fields, _ => bindFields fields
  | .rest inner, _ => bind inner none
  | .withDefault inner value, source => do
    let value ← visit .value value
    bind inner source
    match value.result with
    | some value => bind inner (some value)
    | none => pure ()
  | .expr e, source => do
    let place ← visit .value e
    match e.isPlace, place.result with
    | true, some place => flow source place
    | _, _ => pure ()

/-- Binds the elements of an array pattern to nothing. -/
def bindAll : List Pattern → Walk Unit
  | [] => return
  | p :: rest => do
    bind p none
    bindAll rest

/-- Binds a field of an object pattern to the property of its name. -/
def bindField : PatternField → Walk Unit
  | .keyValue key p => do
    let source ← visitKey key
    bind p (some source)
  | .shorthand name default => do
    let source ← vertex (.prop name)
    let target ← resolve name
    edge source target
    match default with
    | some value => do
      let value ← visit .value value
      flow value.result target
    | none => pure ()
  | .rest inner => bind inner none

/-- Binds the fields of an object pattern. -/
def bindFields : List PatternField → Walk Unit
  | [] => return
  | f :: rest => do
    bindField f
    bindFields rest

/-- Walks a function. `own` is the name that it has inside itself only. -/
def visitFunction (name own : Option String) (isArrow : Bool) : Func → Walk FunctionId
  | .mk params body span => do
    let f ← addFunction name (params.countP Param.isSlotted) isArrow span
    let value ← vertex (.func f)
    inScope (if isArrow then .arrowScope else .functionScope) do
      withReader (fun place => { place with
        function := some f
        receiver := if isArrow then place.receiver else some f }) do
        bindOwnName value own
        declare .parameter (params.flatMap Param.names)
        hoistBody body
        bindParams f 1 params
        visitBody f body
    return f

/-- Binds the parameters of `f` from `slot` on. A parameter that takes no slot is left out. -/
def bindParams (f : FunctionId) (slot : Nat) : List Param → Walk Unit
  | [] => return
  | p :: rest => do
    if p.isSlotted then
      let source ← vertex (.param f slot)
      bindParam source p
      bindParams f (slot + 1) rest
    else bindParams f slot rest

/-- Binds a parameter to its slot. -/
def bindParam (source : VertexId) : Param → Walk Unit
  | .pattern _ (.rest inner) => bind inner none
  | .pattern _ p => bind p (some source)
  | .property _ name default => do
    let target ← resolve name
    edge source target
    edge source (← vertex (.prop name))
    match default with
    | some value => do
      let value ← visit .value value
      flow value.result target
    | none => pure ()
  | .propertyPattern _ _ _ => return

/-- Walks the body of a function. -/
def visitBody (f : FunctionId) : Body → Walk Unit
  | .block stmts => visitStmts stmts
  | .expr result => do
    let value ← visit .value result
    flow value.result (← vertex (.ret f))
  | .absent => return

/-- Walks a class. Returns its last constructor. `own` is the name that it has inside itself
only. -/
def visitClass (name own : Option String) : Syntax.Class → Walk (Option VertexId)
  | .mk decorators heritage members => do
    let _ ← visitAll decorators
    let _ ← visitOption heritage
    inScope .classScope do
      declareClassName own
      let constructor ← visitMembers name none members
      bindClassName own constructor
      return constructor

/-- Walks the members of a class; `last` is the constructor met so far. -/
def visitMembers (name : Option String) (last : Option VertexId) :
    List Member → Walk (Option VertexId)
  | [] => return last
  | .constructor f :: rest => do
    let id ← visitFunction name none false f
    let constructor ← vertex (.func id)
    visitMembers name (some constructor) rest
  | m :: rest => do
    visitMember m
    visitMembers name last rest

/-- Walks a member of a class that is no constructor. -/
def visitMember : Member → Walk Unit
  | .constructor _ => return
  | .method decorators key f => do
    if !key.isPrivate then
      let _ ← visitAll decorators
    let target ← visitKey key
    let id ← visitFunction key.name? none false f
    edge (← vertex (.func id)) target
  | .field _ key value => do
    let target ← visitKey key
    match value with
    | some value =>
      let value ← visit key.valueRole value
      flow value.result target
    | none => pure ()
  | .staticBlock stmts => inBlock stmts (visitStmts stmts)

/-- Walks a statement. -/
def visitStmt : Stmt → Walk Unit
  | .decl d => visitDecl d
  | .expr e => do
    let _ ← visit .value e
  | .block stmts => inBlock stmts (visitStmts stmts)
  | .ret none => return
  | .ret (some e) => do
    let value ← visit .value e
    returnValue value.result
  | .cond test consequent alternate => do
    let _ ← visit .value test
    visitStmt consequent
    visitStmtOption alternate
  | .for head test update body =>
    inScope .forScope do
      visitLoopHead head
      let _ ← visitOption test
      let _ ← visitOption update
      visitStmt body
  | .forEach head iterated body =>
    inScope .forScope do
      let _ ← visit .value iterated
      bindLoopHead head
      visitStmt body
  | .while test body => do
    let _ ← visit .value test
    visitStmt body
  | .doWhile body test => do
    visitStmt body
    let _ ← visit .value test
  | .labeled body => visitStmt body
  | .switch subject cases => do
    let _ ← visit .value subject
    inScope .blockScope do
      hoistCases cases
      visitCases cases
  | .throw e => do
    let _ ← visit .value e
  | .try body param handler finalizer => do
    visitStmt body
    match handler with
    | some handler =>
      inScope .catchScope do
        visitCatchParam param
        visitStmt handler
    | none => pure ()
    visitStmtOption finalizer
  | .with object body => do
    let _ ← visit .value object
    visitStmt body
  | .inert => return

/-- Walks a statement that may be left out. -/
def visitStmtOption : Option Stmt → Walk Unit
  | none => return
  | some s => visitStmt s

/-- Walks statements, one after the other. -/
def visitStmts : List Stmt → Walk Unit
  | [] => return
  | s :: rest => do
    visitStmt s
    visitStmts rest

/-- Declares and binds what is caught. -/
def visitCatchParam : Option Pattern → Walk Unit
  | none => return
  | some p => do
    declare .variable p.names
    let unknown ← vertex .unknown
    bind p (some unknown)

/-- Walks what stands before the first `;` of a loop. -/
def visitLoopHead : LoopHead → Walk Unit
  | .decl (.vars kind declarators) => do
    hoist (.vars kind declarators)
    visitDeclarators declarators
  | .expr e => do
    let _ ← visit .value e
  | .decl _ | .pattern _ | .absent => return

/-- Binds what stands before `in` or `of`; the values iterated over are not tracked. -/
def bindLoopHead : LoopHead → Walk Unit
  | .decl (.vars kind declarators) => bindHeadDeclarators kind declarators
  | .pattern p => bind p none
  | .decl _ | .expr _ | .absent => return

/-- Declares and binds the declarators in the first part of a loop over the elements of a value. -/
def bindHeadDeclarators (kind : VarKind) : List Declarator → Walk Unit
  | [] => return
  | .mk target init :: rest => do
    hoist (.vars kind [.mk target init])
    bind target none
    bindHeadDeclarators kind rest

/-- Walks the cases of a switch. -/
def visitCases : List Case → Walk Unit
  | [] => return
  | .mk test body :: rest => do
    let _ ← visitOption test
    visitStmts body
    visitCases rest

/-- Walks a declaration, and lets what it declares flow to its variable. -/
def visitDecl : Decl → Walk Unit
  | .function name f => do
    let id ← visitFunction (some name) none false f
    let value ← vertex (.func id)
    edge value (← resolve name)
  | .class name c => do
    match ← visitClass (some name) none c with
    | some constructor => edge constructor (← resolve name)
    | none => pure ()
  | .vars _ declarators => visitDeclarators declarators
  | .using declarators => visitResources declarators
  | .inert => return

/-- Walks declarators; a plain name is given to an anonymous function. -/
def visitDeclarators : List Declarator → Walk Unit
  | [] => return
  | .mk target none :: rest => do
    bind target none
    visitDeclarators rest
  | .mk target (some init) :: rest => do
    let role := match target with
      | .ident name => Role.named name
      | _ => Role.value
    let value ← visit role init
    bind target value.result
    visitDeclarators rest

/-- Walks the declarators of a `using` declaration, which name no functions. -/
def visitResources : List Declarator → Walk Unit
  | [] => return
  | .mk target init :: rest => do
    let value ← visitOption init
    bind target value
    visitResources rest

end

/-- Walks an item of a module. -/
def visitItem : ModuleItem → Walk Unit
  | .stmt s => visitStmt s
  | .importNames source specifiers => specifiers.forM (importName source)
  | .importEquals name (some source) => do addImport source .default (← resolve name)
  | .importEquals _ none => pure ()
  | .exportDecl d => do
    visitDecl d
    d.exportedNames.forM fun name => exportName name name
  | .exportDefaultFunction name f => do
    let id ← visitFunction name none false f
    let value ← vertex (.func id)
    bindDefault name value
    addExport "default" value
  | .exportDefaultClass name c => do
    match ← visitClass name none c with
    | some constructor =>
      bindDefault name constructor
      addExport "default" constructor
    | none => pure ()
  | .exportDefaultExpr e => do exportValue (← visit (.named "default") e).result
  | .exportAssignment e => do exportValue (← visit .value e).result
  | .exportNames none specifiers => specifiers.forM fun s => exportName s.given s.exported
  | .exportNames (some source) specifiers => specifiers.forM (relayName source)
  | .inert => pure ()

/-- Declares what all items bind, then walks them. -/
def visitModule (m : Module) : Walk Unit := do
  m.items.forM hoistItem
  m.items.forM visitItem

end Walk

end CallFlow
