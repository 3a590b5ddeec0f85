import CallFlow.Proofs.Syntax.Hoisting
import CallFlow.Proofs.Syntax.Nesting
import CallFlow.Proofs.Syntax.References

/-!
# The legs of a walk

A walk over a piece of syntax asks for names, declares names, opens scopes, and goes on to the
pieces inside, in an order that the syntax tells. `Piece.legs` lists these legs for one piece,
without going into the pieces inside. What a whole walk does can be told from the legs of all
pieces, whatever it is that is asked about the walk.
-/

namespace CallFlow.Syntax

/-- One thing that a walk does, or one piece that it goes on to. -/
inductive Leg
  /-- Asks for a name. -/
  | resolve (name : String)
  /-- Brings the `bound` names into scope, of which the `vars` are declared by `var`. -/
  | declare (bound vars : List String)
  | enter (p : Piece)
  /-- A function; `own` is the name that it has inside itself only. -/
  | func (own : Option String) (isArrow : Bool) (f : Func)
  | «class» (own : Option String) (c : Class)
  /-- What stands before `in` or `of`. -/
  | head (h : LoopHead)
  /-- A pattern that is bound once more if its default has a value. -/
  | withDefault (inner : Pattern) (value : Expr)
  | scope (kind : ScopeKind) (legs : List Leg)

/-- The key of a target that is a property of the superclass. -/
def Pattern.superKey? : Pattern → Option Key
  | .expr (.superMember key) => some key
  | _ => none

theorem Pattern.eq_of_superKey? {p : Pattern} {key : Key} (h : p.superKey? = some key) :
    p = .expr (.superMember key) := by
  unfold Pattern.superKey? at h
  split at h
  · rw [Option.some.inj h]
  · cases h

/-- What a declaration declares before it is reached. -/
def Decl.declares (d : Decl) : Leg := .declare d.bound d.varNames

/-- The statements of a block are declared together, before any of them is walked. -/
def Stmt.blockLegs (stmts : List Stmt) : List Leg :=
  .declare (Stmt.boundAll stmts) (Stmt.ownVarNamesAll stmts) :: stmts.map (.enter <| .stmt ·)

/-- Each declarator in the head of a loop is declared by itself. -/
def LoopHead.boundLegs : LoopHead → List Leg
  | .decl (.vars kind declarators) => declarators.flatMap fun d =>
    [(Decl.vars kind [d]).declares, .enter (.pattern d.target)]
  | .pattern p => [.enter (.pattern p)]
  | .decl _ | .expr _ | .absent => []

/-- What a handler catches is declared, and bound. -/
def Pattern.caughtLegs : Option Pattern → List Leg
  | none => []
  | some p => [.declare p.names [], .enter (.pattern p)]

/-- A class with a constructor asks for its own name once its members have been walked. -/
def Class.legs (own : Option String) : Class → List Leg
  | .mk decorators heritage members =>
    (decorators ++ heritage.toList).map (.enter <| .expr ·) ++
      [.scope .classScope (.declare own.toList [] :: members.map (.enter <| .member ·) ++
        if members.any Member.isConstructor then own.toList.map .resolve else [])]

/-- A function asks for the name that it has inside itself. All that is bound in it is declared
before its parameters and its body are walked. -/
def Func.headLegs (own : Option String) (f : Func) : List Leg :=
  own.toList.flatMap (fun name => [.declare [name] [], .resolve name]) ++
    [.declare (Param.boundAll f.params) [], .declare f.body.bound f.body.ownVarNames]

/-- The legs of the walk over a piece. Those of a function are walked inside of it, and those of a
class are `Class.legs` where it has its own name. -/
def Piece.legs : Piece → List Leg
  | expr e =>
    match e with
    | .ident name => [.resolve name]
    | .this | .string _ | .literal => []
    | .function own f => [.func own false f]
    | .arrow f => [.func none true f]
    | .class own c => [.class own c]
    | .call _ _ callee args | .construct _ callee args => (callee :: args).map (.enter <| expr ·)
    | .tagged _ tag substitutions => (tag :: substitutions).map (.enter <| expr ·)
    | .member _ object k => [.enter (expr object), .enter (key k)]
    | .superMember k => [.enter (key k)]
    | .assign _ target value => .enter (expr value) ::
      match target.superKey? with
      | some k => [.enter (key k)]
      | none => if target.isLeftAlone then [] else [.enter (pattern target)]
    | .logical _ left right => [.enter (expr left), .enter (expr right)]
    | .conditional _ test consequent alternate =>
      [.enter (expr test), .enter (expr consequent), .enter (expr alternate)]
    | .paren inner | .await inner | .typed inner | .spread inner => [.enter (expr inner)]
    | .sequence operands | .array operands | .untracked operands => operands.map (.enter <| expr ·)
    | .object properties => properties.map (.enter <| property ·)
    | .element attributes children =>
      attributes.map (.enter <| attr ·) ++ children.map (.enter <| expr ·)
  | key k =>
    match k with
    | .computed (.string _) | .named _ | .privateName _ | .untracked => []
    | .computed e => [.enter (expr e)]
  | property p =>
    match p with
    | .keyValue k value => [.enter (key k), .enter (expr value)]
    | .shorthand name => [.resolve name]
    | .shorthandDefault _ value => [.enter (expr value)]
    | .method k f => [.enter (key k), .func none false f]
    | .spread e => [.enter (expr e)]
  | attr a =>
    match a with
    | .value e => [.enter (expr e)]
    | .fragment _ => []
  | func (.mk params b _) => params.map (.enter <| param ·) ++ [.enter (body b)]
  | body b =>
    match b with
    | .block stmts => stmts.map (.enter <| stmt ·)
    | .expr result => [.enter (expr result)]
    | .absent => []
  | param p =>
    match p with
    | .pattern _ p => [.enter (pattern p)]
    | .property _ name default => .resolve name :: default.toList.map (.enter <| expr ·)
    | .propertyPattern _ _ _ => []
  | .class c => c.legs none
  | member m =>
    match m with
    | .constructor f => [.func none false f]
    | .method decorators k f =>
      (if k.isPrivate then [] else decorators.map (.enter <| expr ·)) ++
        [.enter (key k), .func none false f]
    | .field _ k value => .enter (key k) :: value.toList.map (.enter <| expr ·)
    | .staticBlock stmts => [.scope .blockScope (Stmt.blockLegs stmts)]
  | pattern p =>
    match p with
    | .ident name => [.resolve name]
    | .array elements => elements.map (.enter <| pattern ·)
    | .object fields => fields.map (.enter <| field ·)
    | .rest inner => [.enter (pattern inner)]
    | .withDefault inner value => [.withDefault inner value]
    | .expr e => [.enter (expr e)]
  | field f =>
    match f with
    | .keyValue k p => [.enter (key k), .enter (pattern p)]
    | .shorthand name default => .resolve name :: default.toList.map (.enter <| expr ·)
    | .rest inner => [.enter (pattern inner)]
  | decl d =>
    match d with
    | .function name f => [.func none false f, .resolve name]
    | .class name c => .class none c :: if c.hasConstructor then [.resolve name] else []
    | .vars _ declarators | .using declarators => declarators.map (.enter <| declarator ·)
    | .inert => []
  | declarator (.mk target init) => init.toList.map (.enter <| expr ·) ++ [.enter (pattern target)]
  | stmt s =>
    match s with
    | .decl d => [.enter (decl d)]
    | .expr e | .throw e => [.enter (expr e)]
    | .block stmts => [.scope .blockScope (Stmt.blockLegs stmts)]
    | .ret value => value.toList.map (.enter <| expr ·)
    | .cond test consequent alternate =>
      .enter (expr test) :: (consequent :: alternate.toList).map (.enter <| stmt ·)
    | .for h test update b => [.scope .forScope (.enter (head h) ::
      (test.toList.map (.enter <| expr ·) ++ (update.toList.map (.enter <| expr ·) ++
        [.enter (stmt b)])))]
    | .forEach h iterated b => [.scope .forScope [.enter (expr iterated), .head h, .enter (stmt b)]]
    | .while test b | .with test b => [.enter (expr test), .enter (stmt b)]
    | .doWhile b test => [.enter (stmt b), .enter (expr test)]
    | .labeled b => [.enter (stmt b)]
    | .switch subject cases => [.enter (expr subject), .scope .blockScope
      (.declare (Case.boundAll cases) (cases.flatMap Case.ownVarNames) ::
        cases.map (.enter <| .case ·))]
    | .try b _ none finalizer => .enter (stmt b) :: finalizer.toList.map (.enter <| stmt ·)
    | .try b p (some handler) finalizer => .enter (stmt b) ::
      .scope .catchScope (Pattern.caughtLegs p ++ [.enter (stmt handler)]) ::
        finalizer.toList.map (.enter <| stmt ·)
    | .inert => []
  | head h =>
    match h with
    | .decl (.vars kind declarators) =>
      (Decl.vars kind declarators).declares :: declarators.map (.enter <| declarator ·)
    | .expr e => [.enter (expr e)]
    | .decl _ | .pattern _ | .absent => []
  | .case (.mk test b) => test.toList.map (.enter <| expr ·) ++ b.map (.enter <| stmt ·)

/-- The legs of an item of a module. -/
def ModuleItem.legs : ModuleItem → List Leg
  | .stmt s => [.enter (.stmt s)]
  | .importNames _ specifiers => specifiers.map fun s => .resolve s.localName
  | .importEquals name (some _) => [.resolve name]
  | .exportDecl d => .enter (.decl d) :: d.exportedNames.map .resolve
  | .exportDefaultFunction name f => .func none false f :: name.toList.map .resolve
  | .exportDefaultClass name c =>
    .class none c :: if c.hasConstructor then name.toList.map .resolve else []
  | .exportDefaultExpr e | .exportAssignment e => [.enter (.expr e)]
  | .exportNames none specifiers => specifiers.map fun s => .resolve s.given
  | .importEquals _ none | .exportNames (some _) _ | .inert => []

/-- What any item of a module binds is declared before the first one is walked. -/
def Module.legs (m : Module) : List Leg :=
  .declare (m.items.flatMap ModuleItem.bound) (m.items.flatMap ModuleItem.ownVarNames) ::
    m.items.flatMap ModuleItem.legs

end CallFlow.Syntax
