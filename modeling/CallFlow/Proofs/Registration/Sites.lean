import CallFlow.FileFlow.Module

/-!
# Sites and visits

A site is a piece of syntax that a walk registers: a call or a function. `sites` lists all of
them in a tree. `visits` lists those that a walk comes to, in its order, and marks the ones it
comes to again: where a pattern has a default whose value has a vertex, what the pattern holds is
walked once for the source and once more for the default.
-/

namespace CallFlow.Syntax

/-- A call or a function, told apart by its range. -/
inductive Site
  | call (kind : CallKind) (span : Span)
  | function (span : Span)
deriving DecidableEq, Repr

/-- The range of a function site. -/
def Site.functionSpan? : Site → Option Span
  | .function span => some span
  | .call _ _ => none

/-- The kind and the range of a call site. -/
def Site.callSpan? : Site → Option (CallKind × Span)
  | .call kind span => some (kind, span)
  | .function _ => none

/-- A site that a walk comes to; `again` if it has been there before. -/
structure Visit where
  site : Site
  again : Bool
deriving DecidableEq, Repr

/-- A site that the walk has not been to. -/
def Visit.first (site : Site) : Visit := ⟨site, false⟩

/-- The same site when the walk comes to it again. -/
def Visit.repeated (visit : Visit) : Visit := ⟨visit.site, true⟩

/-! ## All sites of a tree

They are listed in the order in which a walk takes the parts of a piece of syntax. -/

mutual

/-- A call stands before what it holds, whatever the order in which the walk evaluates it. -/
def Expr.sites : Expr → List Site
  | .ident _ | .this | .string _ | .literal => []
  | .function _ f | .arrow f => f.sites
  | .class _ c => c.sites
  | .call _ span callee args => .call .call span :: (callee.sites ++ Expr.sitesAll args)
  | .construct span callee args =>
    .call .construct span :: (callee.sites ++ Expr.sitesAll args)
  | .tagged span tag substitutions =>
    .call .call span :: (tag.sites ++ Expr.sitesAll substitutions)
  | .member _ object key => object.sites ++ key.sites
  | .superMember key => key.sites
  -- the value is walked before the target
  | .assign _ target value => value.sites ++ target.sites
  | .logical _ left right => left.sites ++ right.sites
  | .conditional _ test consequent alternate =>
    test.sites ++ (consequent.sites ++ alternate.sites)
  | .sequence exprs => Expr.sitesAll exprs
  | .paren inner | .await inner | .typed inner | .spread inner => inner.sites
  | .array operands | .untracked operands => Expr.sitesAll operands
  | .object properties => Property.sitesAll properties
  | .element attributes children => Attribute.sitesAll attributes ++ Expr.sitesAll children

def Expr.sitesAll : List Expr → List Site
  | [] => []
  | e :: rest => e.sites ++ Expr.sitesAll rest

def Expr.sitesOption : Option Expr → List Site
  | none => []
  | some e => e.sites

def Key.sites : Key → List Site
  | .computed e => e.sites
  | .named _ | .privateName _ | .untracked => []

def Property.sites : Property → List Site
  | .keyValue key value => key.sites ++ value.sites
  | .shorthand _ => []
  | .shorthandDefault _ value => value.sites
  | .method key f => key.sites ++ f.sites
  | .spread e => e.sites

def Property.sitesAll : List Property → List Site
  | [] => []
  | p :: rest => p.sites ++ Property.sitesAll rest

def Attribute.sitesAll : List Attribute → List Site
  | [] => []
  | .value e :: rest => e.sites ++ Attribute.sitesAll rest
  | .fragment children :: rest => Expr.sitesAll children ++ Attribute.sitesAll rest

/-- The default of a pattern stands before what it is bound to. -/
def Pattern.sites : Pattern → List Site
  | .ident _ => []
  | .array elements => Pattern.sitesAll elements
  | .object fields => PatternField.sitesAll fields
  | .rest inner => inner.sites
  | .withDefault inner value => value.sites ++ inner.sites
  | .expr target => target.sites

def Pattern.sitesAll : List Pattern → List Site
  | [] => []
  | p :: rest => p.sites ++ Pattern.sitesAll rest

def Pattern.sitesOption : Option Pattern → List Site
  | none => []
  | some p => p.sites

def PatternField.sites : PatternField → List Site
  | .keyValue key value => key.sites ++ value.sites
  | .shorthand _ default => Expr.sitesOption default
  | .rest inner => inner.sites

def PatternField.sitesAll : List PatternField → List Site
  | [] => []
  | f :: rest => f.sites ++ PatternField.sitesAll rest

/-- A function is a site of its own, and what its parameters and its body hold are sites too. -/
def Func.sites : Func → List Site
  | .mk params body span => .function span :: (Param.sitesAll params ++ body.sites)

def Param.sites : Param → List Site
  | .pattern decorators p => Expr.sitesAll decorators ++ p.sites
  | .property decorators _ default => Expr.sitesAll decorators ++ Expr.sitesOption default
  | .propertyPattern decorators p default =>
    Expr.sitesAll decorators ++ (p.sites ++ default.sites)

def Param.sitesAll : List Param → List Site
  | [] => []
  | p :: rest => p.sites ++ Param.sitesAll rest

def Body.sites : Body → List Site
  | .block stmts => Stmt.sitesAll stmts
  | .expr result => result.sites
  | .absent => []

def Class.sites : Class → List Site
  | .mk decorators heritage members =>
    Expr.sitesAll decorators ++ (Expr.sitesOption heritage ++ Member.sitesAll members)

def Member.sites : Member → List Site
  | .constructor f => f.sites
  | .method decorators key f => Expr.sitesAll decorators ++ (key.sites ++ f.sites)
  | .field decorators key value =>
    Expr.sitesAll decorators ++ (key.sites ++ Expr.sitesOption value)
  | .staticBlock stmts => Stmt.sitesAll stmts

def Member.sitesAll : List Member → List Site
  | [] => []
  | m :: rest => m.sites ++ Member.sitesAll rest

def Decl.sites : Decl → List Site
  | .function _ f => f.sites
  | .class _ c => c.sites
  | .vars _ declarators | .using declarators => Declarator.sitesAll declarators
  | .inert => []

def Declarator.sitesAll : List Declarator → List Site
  | [] => []
  | .mk target init :: rest =>
    Expr.sitesOption init ++ (target.sites ++ Declarator.sitesAll rest)

def Stmt.sites : Stmt → List Site
  | .decl d => d.sites
  | .expr e | .throw e => e.sites
  | .block stmts => Stmt.sitesAll stmts
  | .ret value => Expr.sitesOption value
  | .cond test consequent alternate =>
    test.sites ++ (consequent.sites ++ Stmt.sitesOption alternate)
  | .for head test update body =>
    head.sites ++ (Expr.sitesOption test ++ (Expr.sitesOption update ++ body.sites))
  | .forEach head iterated body => iterated.sites ++ (head.sites ++ body.sites)
  | .while test body => test.sites ++ body.sites
  | .doWhile body test => body.sites ++ test.sites
  | .labeled body => body.sites
  | .switch subject cases => subject.sites ++ Case.sitesAll cases
  | .try body param handler finalizer =>
    body.sites ++ (Pattern.sitesOption param ++
      (Stmt.sitesOption handler ++ Stmt.sitesOption finalizer))
  | .with object body => object.sites ++ body.sites
  | .inert => []

def Stmt.sitesOption : Option Stmt → List Site
  | none => []
  | some s => s.sites

def Stmt.sitesAll : List Stmt → List Site
  | [] => []
  | s :: rest => s.sites ++ Stmt.sitesAll rest

def LoopHead.sites : LoopHead → List Site
  | .decl d => d.sites
  | .expr e => e.sites
  | .pattern p => p.sites
  | .absent => []

def Case.sitesAll : List Case → List Site
  | [] => []
  | .mk test body :: rest =>
    Expr.sitesOption test ++ (Stmt.sitesAll body ++ Case.sitesAll rest)

end

def ModuleItem.sites : ModuleItem → List Site
  | .stmt s => s.sites
  | .exportDecl d => d.sites
  | .exportDefaultFunction _ f => f.sites
  | .exportDefaultClass _ c => c.sites
  | .exportDefaultExpr e | .exportAssignment e => e.sites
  | .importNames _ _ | .importEquals _ _ | .exportNames _ _ | .inert => []

/-- The sites of the items, in their order. -/
def Module.sites (m : Module) : List Site :=
  m.items.flatMap ModuleItem.sites

/-! ## Which expressions have a vertex -/

def Member.isConstructor : Member → Bool
  | .constructor _ => true
  | _ => false

/-- A class has a vertex for its value only if it has a constructor. -/
def Class.hasConstructor : Class → Bool
  | .mk _ _ members => members.any Member.isConstructor

mutual

/-- Whether the value of an expression has a vertex. Only that of `this` depends on the place:
`receiver` says whether there is a function around that has a receiver. -/
def Expr.yields (receiver : Bool) : Expr → Bool
  | .this => receiver
  | .string _ | .literal | .array _ | .untracked _ | .object _ | .element _ _ => false
  -- the value of a class is its constructor
  | .class _ body => body.hasConstructor
  -- an arithmetic assignment yields a number or a string, which no call reaches
  | .assign op _ value => op ≠ .arithmetic && value.yields receiver
  | .sequence exprs => Expr.yieldsLast receiver exprs
  | .paren inner | .await inner | .typed inner | .spread inner => inner.yields receiver
  | .ident _ | .function _ _ | .arrow _ | .call _ _ _ _ | .construct _ _ _ | .tagged _ _ _
  | .member _ _ _ | .superMember _ | .logical _ _ _ | .conditional _ _ _ _ => true

/-- A sequence yields what its last expression does. -/
def Expr.yieldsLast (receiver : Bool) : List Expr → Bool
  | [] => false
  | [e] => e.yields receiver
  | _ :: rest => Expr.yieldsLast receiver rest

end

/-! ## What a walk comes to -/

/-- A target that an assignment leaves alone. -/
def Pattern.isLeftAlone : Pattern → Bool
  | .expr (.typed _) | .expr (.member true _ _) => true
  | _ => false

theorem Pattern.isLeftAlone_eq_false {target : Pattern}
    (htyped : ∀ inner, target = .expr (.typed inner) → False)
    (hchained : ∀ object key, target = .expr (.member true object key) → False) :
    target.isLeftAlone = false := by
  unfold Pattern.isLeftAlone
  split
  · exact (htyped _ rfl).elim
  · exact (hchained _ _ rfl).elim
  · rfl

mutual

/-- What the walk of an expression comes to, where `receiver` says whether a function with a
receiver is around. -/
def Expr.visits (receiver : Bool) : Expr → List Visit
  | .ident _ | .this | .string _ | .literal => []
  -- a function brings its own receiver, an arrow looks through to the one around it
  | .function _ f => f.visits true
  | .arrow f => f.visits receiver
  | .class _ c => c.visits receiver
  | .call _ span callee args =>
    .first (.call .call span) :: (callee.visits receiver ++ Expr.visitsAll receiver args)
  | .construct span callee args =>
    .first (.call .construct span) :: (callee.visits receiver ++ Expr.visitsAll receiver args)
  | .tagged span tag substitutions =>
    .first (.call .call span) :: (tag.visits receiver ++ Expr.visitsAll receiver substitutions)
  | .member _ object key => object.visits receiver ++ key.visits receiver
  | .superMember key => key.visits receiver
  -- the calls of a target that is left alone are never reached
  | .assign _ target value =>
    value.visits receiver ++ if target.isLeftAlone then [] else target.visits receiver
  | .logical _ left right => left.visits receiver ++ right.visits receiver
  | .conditional _ test consequent alternate =>
    test.visits receiver ++ (consequent.visits receiver ++ alternate.visits receiver)
  | .sequence exprs => Expr.visitsAll receiver exprs
  | .paren inner | .await inner | .typed inner | .spread inner => inner.visits receiver
  | .array operands | .untracked operands => Expr.visitsAll receiver operands
  | .object properties => Property.visitsAll receiver properties
  | .element attributes children =>
    Attribute.visitsAll receiver attributes ++ Expr.visitsAll receiver children

def Expr.visitsAll (receiver : Bool) : List Expr → List Visit
  | [] => []
  | e :: rest => e.visits receiver ++ Expr.visitsAll receiver rest

def Expr.visitsOption (receiver : Bool) : Option Expr → List Visit
  | none => []
  | some e => e.visits receiver

def Key.visits (receiver : Bool) : Key → List Visit
  | .computed e => e.visits receiver
  | .named _ | .privateName _ | .untracked => []

/-- A method brings its own receiver, as every function that is not an arrow does. -/
def Property.visits (receiver : Bool) : Property → List Visit
  | .keyValue key value => key.visits receiver ++ value.visits receiver
  | .shorthand _ => []
  | .shorthandDefault _ value => value.visits receiver
  | .method key f => key.visits receiver ++ f.visits true
  | .spread e => e.visits receiver

def Property.visitsAll (receiver : Bool) : List Property → List Visit
  | [] => []
  | p :: rest => p.visits receiver ++ Property.visitsAll receiver rest

/-- A fragment that is the value of an attribute is passed over. -/
def Attribute.visitsAll (receiver : Bool) : List Attribute → List Visit
  | [] => []
  | .value e :: rest => e.visits receiver ++ Attribute.visitsAll receiver rest
  | .fragment _ :: rest => Attribute.visitsAll receiver rest

/-- What is bound twice is visited again in the same order. -/
def Pattern.visits (receiver : Bool) : Pattern → List Visit
  | .ident _ => []
  | .array elements => Pattern.visitsAll receiver elements
  | .object fields => PatternField.visitsAll receiver fields
  | .rest inner => inner.visits receiver
  | .withDefault inner value =>
    value.visits receiver ++ (inner.visits receiver ++
      if value.yields receiver then (inner.visits receiver).map Visit.repeated else [])
  | .expr target => target.visits receiver

def Pattern.visitsAll (receiver : Bool) : List Pattern → List Visit
  | [] => []
  | p :: rest => p.visits receiver ++ Pattern.visitsAll receiver rest

def PatternField.visits (receiver : Bool) : PatternField → List Visit
  | .keyValue key value => key.visits receiver ++ value.visits receiver
  | .shorthand _ default => Expr.visitsOption receiver default
  | .rest inner => inner.visits receiver

def PatternField.visitsAll (receiver : Bool) : List PatternField → List Visit
  | [] => []
  | f :: rest => f.visits receiver ++ PatternField.visitsAll receiver rest

/-- `receiver` is that of the body: an arrow has the one around it. -/
def Func.visits (receiver : Bool) : Func → List Visit
  | .mk params body span =>
    .first (.function span) :: (Param.visitsAll receiver params ++ body.visits receiver)

/-- The decorators of a parameter are passed over, and so is a parameter property with a pattern. -/
def Param.visits (receiver : Bool) : Param → List Visit
  | .pattern _ p => p.visits receiver
  | .property _ _ default => Expr.visitsOption receiver default
  | .propertyPattern _ _ _ => []

def Param.visitsAll (receiver : Bool) : List Param → List Visit
  | [] => []
  | p :: rest => p.visits receiver ++ Param.visitsAll receiver rest

def Body.visits (receiver : Bool) : Body → List Visit
  | .block stmts => Stmt.visitsAll receiver stmts
  | .expr result => result.visits receiver
  | .absent => []

/-- The decorators of the class itself are walked. -/
def Class.visits (receiver : Bool) : Class → List Visit
  | .mk decorators heritage members =>
    Expr.visitsAll receiver decorators ++
      (Expr.visitsOption receiver heritage ++ Member.visitsAll receiver members)

/-- The decorators of a field or of a private method are passed over. -/
def Member.visits (receiver : Bool) : Member → List Visit
  | .constructor f => f.visits true
  | .method decorators key f =>
    (if key.isPrivate then [] else Expr.visitsAll receiver decorators) ++
      (key.visits receiver ++ f.visits true)
  | .field _ key value => key.visits receiver ++ Expr.visitsOption receiver value
  | .staticBlock stmts => Stmt.visitsAll receiver stmts

def Member.visitsAll (receiver : Bool) : List Member → List Visit
  | [] => []
  | m :: rest => m.visits receiver ++ Member.visitsAll receiver rest

/-- A declared function brings its own receiver. -/
def Decl.visits (receiver : Bool) : Decl → List Visit
  | .function _ f => f.visits true
  | .class _ c => c.visits receiver
  | .vars _ declarators | .using declarators => Declarator.visitsAll receiver declarators
  | .inert => []

/-- An initialiser is walked before the target that it is bound to. -/
def Declarator.visitsAll (receiver : Bool) : List Declarator → List Visit
  | [] => []
  | .mk target init :: rest =>
    Expr.visitsOption receiver init ++
      (target.visits receiver ++ Declarator.visitsAll receiver rest)

/-- What the heads of `for … in` and `for … of` bind. -/
def Declarator.targetVisitsAll (receiver : Bool) : List Declarator → List Visit
  | [] => []
  | .mk target _ :: rest =>
    target.visits receiver ++ Declarator.targetVisitsAll receiver rest

/-- The parts of a statement, in the order in which the walk takes them. -/
def Stmt.visits (receiver : Bool) : Stmt → List Visit
  | .decl d => d.visits receiver
  | .expr e | .throw e => e.visits receiver
  | .block stmts => Stmt.visitsAll receiver stmts
  | .ret value => Expr.visitsOption receiver value
  | .cond test consequent alternate =>
    test.visits receiver ++ (consequent.visits receiver ++ Stmt.visitsOption receiver alternate)
  | .for head test update body =>
    head.visits receiver ++ (Expr.visitsOption receiver test ++
      (Expr.visitsOption receiver update ++ body.visits receiver))
  -- what is iterated is walked first, since its value flows into the head
  | .forEach head iterated body =>
    iterated.visits receiver ++ (head.boundVisits receiver ++ body.visits receiver)
  | .while test body => test.visits receiver ++ body.visits receiver
  | .doWhile body test => body.visits receiver ++ test.visits receiver
  | .labeled body => body.visits receiver
  | .switch subject cases => subject.visits receiver ++ Case.visitsAll receiver cases
  -- the parameter is bound only where there is a handler
  | .try body param handler finalizer =>
    body.visits receiver ++ ((if handler.isSome then Pattern.visitsOption receiver param else []) ++
      (Stmt.visitsOption receiver handler ++ Stmt.visitsOption receiver finalizer))
  | .with object body => object.visits receiver ++ body.visits receiver
  | .inert => []

def Stmt.visitsOption (receiver : Bool) : Option Stmt → List Visit
  | none => []
  | some s => s.visits receiver

def Stmt.visitsAll (receiver : Bool) : List Stmt → List Visit
  | [] => []
  | s :: rest => s.visits receiver ++ Stmt.visitsAll receiver rest

def Pattern.visitsOption (receiver : Bool) : Option Pattern → List Visit
  | none => []
  | some p => p.visits receiver

/-- The head of a plain `for`, where initialisers are walked. -/
def LoopHead.visits (receiver : Bool) : LoopHead → List Visit
  | .decl (.vars _ declarators) => Declarator.visitsAll receiver declarators
  | .expr e => e.visits receiver
  | .decl _ | .pattern _ | .absent => []

/-- The head of `for … in` and `for … of`, whose initialisers are passed over. -/
def LoopHead.boundVisits (receiver : Bool) : LoopHead → List Visit
  | .decl (.vars _ declarators) => Declarator.targetVisitsAll receiver declarators
  | .pattern p => p.visits receiver
  | .decl _ | .expr _ | .absent => []

def Case.visitsAll (receiver : Bool) : List Case → List Visit
  | [] => []
  | .mk test body :: rest =>
    Expr.visitsOption receiver test ++
      (Stmt.visitsAll receiver body ++ Case.visitsAll receiver rest)

end

/-- Imports and lists of exported names hold no calls. -/
def ModuleItem.visits : ModuleItem → List Visit
  | .stmt s => s.visits false
  | .exportDecl d => d.visits false
  | .exportDefaultFunction _ f => f.visits true
  | .exportDefaultClass _ c => c.visits false
  | .exportDefaultExpr e | .exportAssignment e => e.visits false
  | .importNames _ _ | .importEquals _ _ | .exportNames _ _ | .inert => []

/-- No function is around the items of a module. -/
def Module.visits (m : Module) : List Visit :=
  m.items.flatMap ModuleItem.visits

end CallFlow.Syntax
