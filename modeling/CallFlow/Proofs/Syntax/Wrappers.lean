import CallFlow.FileFlow.Module
import Mathlib.Logic.Basic

/-!
# Trees without wrappers

Parentheses and types around an expression do not change its value. `bare` takes them off, and
moves all ranges by a map of one's choice. In a few places an expression is looked at before its
value is: what is called, what is required, a computed key, the object of an assignment to
`module.exports`. Where the bare expression would be taken for something that the written one is
not, one pair of parentheses is kept, or the call is marked as one of an optional chain.
-/

namespace CallFlow.Syntax

namespace Expr

/-- A property that is read from an object, which a call of it has as its receiver. -/
def isMethod : Expr → Bool
  | .member _ _ _ | .superMember _ => true
  | _ => false

/-- Whether an expression reads a property of the superclass. -/
def isSuperMember : Expr → Bool
  | .superMember _ => true
  | _ => false

/-- Whether an expression is a string. -/
def isString : Expr → Bool
  | .string _ => true
  | _ => false

/-- The bare expression, in parentheses if it has a shape that the written one has not. -/
def kept (shape : Expr → Bool) (written bare : Expr) : Expr :=
  if shape bare && !shape written then .paren bare else bare

/-- Whether a call is recorded as one of `require`, provided that `require` is a global. -/
def isRequire (chained : Bool) (callee : Expr) (args : List Expr) : Bool :=
  !chained && (requiredSpecifier? callee args).isSome

end Expr

/-- A target with its object in parentheses. -/
def Pattern.wrapObject : Pattern → Pattern
  | .expr (.member chained o k) => .expr (.member chained (.paren o) k)
  | target => target

/-- The bare target, with its object in parentheses if only then it is no `module.exports`. -/
def Pattern.kept (written bare : Pattern) : Pattern :=
  if bare.isModuleExports && !written.isModuleExports then bare.wrapObject else bare

/-- The bare place of an assignment, in the wrappers of the written one. -/
def Expr.placed : Expr → Expr → Expr
  | .paren inner, bare => .paren (inner.placed bare)
  | .typed _, bare => .typed bare
  | .member chained _ _, .member _ o k => .member chained o k
  | _, bare => bare

mutual

/-- An expression without its wrappers. -/
def Expr.bare (move : Span → Span) : Expr → Expr
  | .ident name => .ident name
  | .this => .this
  | .string value => .string value
  | .literal => .literal
  | .function name f => .function name (f.bare move)
  | .arrow f => .arrow (f.bare move)
  | .class name c => .class name (c.bare move)
  | .call chained span callee args =>
    .call (!Expr.isRequire chained callee args) (move span)
      (Expr.kept Expr.isMethod callee (callee.bare move)) (Expr.bareAll move args)
  | .construct span callee args =>
    .construct (move span) (Expr.kept Expr.isSuperMember callee (callee.bare move))
      (Expr.bareAll move args)
  | .tagged span tag substitutions =>
    .tagged (move span) (Expr.kept Expr.isMethod tag (tag.bare move))
      (Expr.bareAll move substitutions)
  | .member _ object key => .member false (object.bare move) (key.bare move)
  | .superMember key => .superMember (key.bare move)
  | .assign op target value =>
    .assign op (target.kept (target.bare move)) (value.bare move)
  | .logical span left right => .logical (move span) (left.bare move) (right.bare move)
  | .conditional span test consequent alternate =>
    .conditional (move span) (test.bare move) (consequent.bare move) (alternate.bare move)
  | .sequence exprs => .sequence (Expr.bareAll move exprs)
  | .paren inner | .typed inner => inner.bare move
  | .await inner => .await (inner.bare move)
  | .array elements => .array (Expr.bareAll move elements)
  | .spread inner => .spread (inner.bare move)
  | .untracked operands => .untracked (Expr.bareAll move operands)
  | .object properties => .object (Property.bareAll move properties)
  | .element attributes children =>
    .element (Attribute.bareAll move attributes) (Expr.bareAll move children)

/-- Expressions without wrappers, one by one. -/
def Expr.bareAll (move : Span → Span) : List Expr → List Expr
  | [] => []
  | e :: rest => e.bare move :: Expr.bareAll move rest

/-- An expression without wrappers that may be left out. -/
def Expr.bareOption (move : Span → Span) : Option Expr → Option Expr
  | none => none
  | some e => some (e.bare move)

/-- A string between brackets is a name, unless it is in parentheses. -/
def Key.bare (move : Span → Span) : Key → Key
  | .named name => .named name
  | .privateName name => .privateName name
  | .computed e => .computed (Expr.kept Expr.isString e (e.bare move))
  | .untracked => .untracked

/-- A property of an object literal, both of whose sides are stripped. -/
def Property.bare (move : Span → Span) : Property → Property
  | .keyValue key value => .keyValue (key.bare move) (value.bare move)
  | .shorthand name => .shorthand name
  | .shorthandDefault name value => .shorthandDefault name (value.bare move)
  | .method key f => .method (key.bare move) (f.bare move)
  | .spread e => .spread (e.bare move)

/-- The properties of an object literal without wrappers. -/
def Property.bareAll (move : Span → Span) : List Property → List Property
  | [] => []
  | p :: rest => p.bare move :: Property.bareAll move rest

/-- Attributes without wrappers. -/
def Attribute.bareAll (move : Span → Span) : List Attribute → List Attribute
  | [] => []
  | .value e :: rest => .value (e.bare move) :: Attribute.bareAll move rest
  | .fragment children :: rest =>
    .fragment (Expr.bareAll move children) :: Attribute.bareAll move rest

/-- A pattern without wrappers. What it stores to stays a place. -/
def Pattern.bare (move : Span → Span) : Pattern → Pattern
  | .ident name => .ident name
  | .array elements => .array (Pattern.bareAll move elements)
  | .object fields => .object (PatternField.bareAll move fields)
  | .rest inner => .rest (inner.bare move)
  | .withDefault inner value => .withDefault (inner.bare move) (value.bare move)
  | .expr target => .expr (target.placed (target.bare move))

/-- The elements of an array pattern without wrappers. -/
def Pattern.bareAll (move : Span → Span) : List Pattern → List Pattern
  | [] => []
  | p :: rest => p.bare move :: Pattern.bareAll move rest

/-- A pattern without wrappers that may be left out. -/
def Pattern.bareOption (move : Span → Span) : Option Pattern → Option Pattern
  | none => none
  | some p => some (p.bare move)

/-- A field of an object pattern without wrappers. -/
def PatternField.bare (move : Span → Span) : PatternField → PatternField
  | .keyValue key value => .keyValue (key.bare move) (value.bare move)
  | .shorthand name default => .shorthand name (Expr.bareOption move default)
  | .rest inner => .rest (inner.bare move)

/-- The fields of an object pattern without wrappers. -/
def PatternField.bareAll (move : Span → Span) : List PatternField → List PatternField
  | [] => []
  | f :: rest => f.bare move :: PatternField.bareAll move rest

/-- A function without wrappers, at its moved range. -/
def Func.bare (move : Span → Span) : Func → Func
  | .mk params body span => .mk (Param.bareAll move params) (body.bare move) (move span)

/-- A parameter without wrappers. -/
def Param.bare (move : Span → Span) : Param → Param
  | .pattern decorators p => .pattern (Expr.bareAll move decorators) (p.bare move)
  | .property decorators name default =>
    .property (Expr.bareAll move decorators) name (Expr.bareOption move default)
  | .propertyPattern decorators p default =>
    .propertyPattern (Expr.bareAll move decorators) (p.bare move) (default.bare move)

/-- The parameters of a function without wrappers. -/
def Param.bareAll (move : Span → Span) : List Param → List Param
  | [] => []
  | p :: rest => p.bare move :: Param.bareAll move rest

/-- A body without wrappers. -/
def Body.bare (move : Span → Span) : Body → Body
  | .block stmts => .block (Stmt.bareAll move stmts)
  | .expr result => .expr (result.bare move)
  | .absent => .absent

/-- A class without wrappers. -/
def Class.bare (move : Span → Span) : Class → Class
  | .mk decorators heritage members =>
    .mk (Expr.bareAll move decorators) (Expr.bareOption move heritage)
      (Member.bareAll move members)

/-- A member of a class without wrappers. -/
def Member.bare (move : Span → Span) : Member → Member
  | .constructor f => .constructor (f.bare move)
  | .method decorators key f => .method (Expr.bareAll move decorators) (key.bare move) (f.bare move)
  | .field decorators key value =>
    .field (Expr.bareAll move decorators) (key.bare move) (Expr.bareOption move value)
  | .staticBlock stmts => .staticBlock (Stmt.bareAll move stmts)

/-- The members of a class without wrappers. -/
def Member.bareAll (move : Span → Span) : List Member → List Member
  | [] => []
  | m :: rest => m.bare move :: Member.bareAll move rest

/-- A declaration without wrappers. -/
def Decl.bare (move : Span → Span) : Decl → Decl
  | .function name f => .function name (f.bare move)
  | .class name c => .class name (c.bare move)
  | .vars kind declarators => .vars kind (Declarator.bareAll move declarators)
  | .using declarators => .using (Declarator.bareAll move declarators)
  | .inert => .inert

/-- Declarators without wrappers. -/
def Declarator.bareAll (move : Span → Span) : List Declarator → List Declarator
  | [] => []
  | .mk target init :: rest =>
    .mk (target.bare move) (Expr.bareOption move init) :: Declarator.bareAll move rest

/-- A statement without wrappers. -/
def Stmt.bare (move : Span → Span) : Stmt → Stmt
  | .decl d => .decl (d.bare move)
  | .expr e => .expr (e.bare move)
  | .block stmts => .block (Stmt.bareAll move stmts)
  | .ret value => .ret (Expr.bareOption move value)
  | .cond test consequent alternate =>
    .cond (test.bare move) (consequent.bare move) (Stmt.bareOption move alternate)
  | .for head test update body =>
    .for (head.bare move) (Expr.bareOption move test) (Expr.bareOption move update)
      (body.bare move)
  | .forEach head iterated body =>
    .forEach (head.bare move) (iterated.bare move) (body.bare move)
  | .while test body => .while (test.bare move) (body.bare move)
  | .doWhile body test => .doWhile (body.bare move) (test.bare move)
  | .labeled body => .labeled (body.bare move)
  | .switch subject cases => .switch (subject.bare move) (Case.bareAll move cases)
  | .throw value => .throw (value.bare move)
  | .try body param handler finalizer =>
    .try (body.bare move) (Pattern.bareOption move param) (Stmt.bareOption move handler)
      (Stmt.bareOption move finalizer)
  | .with object body => .with (object.bare move) (body.bare move)
  | .inert => .inert

/-- A statement without wrappers that may be left out. -/
def Stmt.bareOption (move : Span → Span) : Option Stmt → Option Stmt
  | none => none
  | some s => some (s.bare move)

/-- Statements without wrappers. -/
def Stmt.bareAll (move : Span → Span) : List Stmt → List Stmt
  | [] => []
  | s :: rest => s.bare move :: Stmt.bareAll move rest

/-- The first part of a loop without wrappers. -/
def LoopHead.bare (move : Span → Span) : LoopHead → LoopHead
  | .absent => .absent
  | .decl d => .decl (d.bare move)
  | .expr e => .expr (e.bare move)
  | .pattern p => .pattern (p.bare move)

/-- The cases of a switch without wrappers. -/
def Case.bareAll (move : Span → Span) : List Case → List Case
  | [] => []
  | .mk test body :: rest =>
    .mk (Expr.bareOption move test) (Stmt.bareAll move body) :: Case.bareAll move rest

end

/-- An item of a module without wrappers. Ranges of names that are passed on are moved. -/
def ModuleItem.bare (move : Span → Span) : ModuleItem → ModuleItem
  | .stmt s => .stmt (s.bare move)
  | .importNames source specifiers => .importNames source specifiers
  | .importEquals name source => .importEquals name source
  | .exportDecl d => .exportDecl (d.bare move)
  | .exportDefaultFunction name f => .exportDefaultFunction name (f.bare move)
  | .exportDefaultClass name c => .exportDefaultClass name (c.bare move)
  | .exportDefaultExpr e => .exportDefaultExpr (e.bare move)
  | .exportAssignment e => .exportAssignment (e.bare move)
  | .exportNames source specifiers =>
    .exportNames source (specifiers.map fun s => { s with span := move s.span })
  | .inert => .inert

/-- A module without wrappers, and with its ranges moved. -/
def Module.bare (move : Span → Span) (m : Module) : Module := ⟨m.items.map (ModuleItem.bare move)⟩

/-! ## What is declared stays -/

mutual

theorem Pattern.names_bare (move : Span → Span) : ∀ p : Pattern, (p.bare move).names = p.names
  | .ident _ | .expr _ => rfl
  | .array elements => Pattern.namesAll_bare move elements
  | .object fields => PatternField.namesAll_bare move fields
  | .rest inner | .withDefault inner _ => inner.names_bare move

theorem Pattern.namesAll_bare (move : Span → Span) :
    ∀ ps : List Pattern, Pattern.namesAll (Pattern.bareAll move ps) = Pattern.namesAll ps
  | [] => rfl
  | p :: rest => congrArg₂ (· ++ ·) (p.names_bare move) (Pattern.namesAll_bare move rest)

theorem PatternField.names_bare (move : Span → Span) :
    ∀ f : PatternField, (f.bare move).names = f.names
  | .keyValue _ value => value.names_bare move
  | .shorthand _ _ => rfl
  | .rest inner => inner.names_bare move

theorem PatternField.namesAll_bare (move : Span → Span) : ∀ fs : List PatternField,
    PatternField.namesAll (PatternField.bareAll move fs) = PatternField.namesAll fs
  | [] => rfl
  | f :: rest => congrArg₂ (· ++ ·) (f.names_bare move) (PatternField.namesAll_bare move rest)

end

theorem Param.names_bare (move : Span → Span) (p : Param) : (p.bare move).names = p.names := by
  cases p with
  | pattern _ p => exact p.names_bare move
  | property _ _ _ | propertyPattern _ _ _ => rfl

theorem Param.flatMap_names_bare (move : Span → Span) (ps : List Param) :
    (Param.bareAll move ps).flatMap Param.names = ps.flatMap Param.names := by
  induction ps with
  | nil => rfl
  | cons p ps ih => rw [Param.bareAll, List.flatMap_cons, List.flatMap_cons, p.names_bare, ih]

theorem Param.isSlotted_bare (move : Span → Span) (p : Param) :
    (p.bare move).isSlotted = p.isSlotted := by
  cases p <;> rfl

theorem Param.countP_isSlotted_bare (move : Span → Span) (ps : List Param) :
    (Param.bareAll move ps).countP Param.isSlotted = ps.countP Param.isSlotted := by
  induction ps with
  | nil => rfl
  | cons p ps ih => rw [Param.bareAll, List.countP_cons, List.countP_cons, p.isSlotted_bare, ih]

/-- Declarators bind the same names. -/
theorem Declarator.namesAll_bare (move : Span → Span) (ds : List Declarator) :
    Declarator.namesAll (Declarator.bareAll move ds) = Declarator.namesAll ds := by
  induction ds with
  | nil => rfl
  | cons d ds ih =>
    obtain ⟨target, init⟩ := d
    exact congrArg₂ (· ++ ·) (target.names_bare move) ih

/-- The names that `var` binds in a declaration are the same. -/
theorem Decl.varNames_bare (move : Span → Span) (d : Decl) :
    (d.bare move).varNames = d.varNames := by
  cases d with
  | vars kind declarators =>
    cases kind with
    | var => exact Declarator.namesAll_bare move declarators
    | «let» | const => rfl
  | function _ _ | «class» _ _ | «using» _ | inert => rfl

theorem Decl.exportedNames_bare (move : Span → Span) (d : Decl) :
    (d.bare move).exportedNames = d.exportedNames := by
  cases d with
  | vars kind declarators => exact Declarator.namesAll_bare move declarators
  | function _ _ | «class» _ _ | «using» _ | inert => rfl

theorem LoopHead.varNames_bare (move : Span → Span) (h : LoopHead) :
    (h.bare move).varNames = h.varNames := by
  cases h with
  | decl d => exact d.varNames_bare move
  | absent | expr _ | pattern _ => rfl

mutual

/-- The names that `var` binds in a statement are the same. -/
theorem Stmt.varNames_bare (move : Span → Span) : ∀ s : Stmt, (s.bare move).varNames = s.varNames
  | .decl d => d.varNames_bare move
  | .block stmts => Stmt.varNamesAll_bare move stmts
  | .cond _ consequent none => consequent.varNames_bare move
  | .cond _ consequent (some alternate) =>
    congrArg₂ (· ++ ·) (consequent.varNames_bare move) (alternate.varNames_bare move)
  | .for head _ _ body | .forEach head _ body =>
    congrArg₂ (· ++ ·) (head.varNames_bare move) (body.varNames_bare move)
  | .while _ body | .doWhile body _ | .labeled body | .with _ body => body.varNames_bare move
  | .switch _ cases => Case.varNamesAll_bare move cases
  | .try body _ handler finalizer =>
    congrArg₂ (· ++ ·)
      (congrArg₂ (· ++ ·) (body.varNames_bare move) (Stmt.varNamesOption_bare move handler))
      (Stmt.varNamesOption_bare move finalizer)
  | .expr _ | .ret _ | .throw _ | .inert => rfl

/-- The names that `var` binds in a statement that may be left out are the same. -/
theorem Stmt.varNamesOption_bare (move : Span → Span) : ∀ s : Option Stmt,
    Stmt.varNamesOption (Stmt.bareOption move s) = Stmt.varNamesOption s
  | none => rfl
  | some s => s.varNames_bare move

theorem Stmt.varNamesAll_bare (move : Span → Span) : ∀ ss : List Stmt,
    Stmt.varNamesAll (Stmt.bareAll move ss) = Stmt.varNamesAll ss
  | [] => rfl
  | s :: rest => congrArg₂ (· ++ ·) (s.varNames_bare move) (Stmt.varNamesAll_bare move rest)

theorem Case.varNamesAll_bare (move : Span → Span) : ∀ cs : List Case,
    Case.varNamesAll (Case.bareAll move cs) = Case.varNamesAll cs
  | [] => rfl
  | .mk _ body :: rest =>
    congrArg₂ (· ++ ·) (Stmt.varNamesAll_bare move body) (Case.varNamesAll_bare move rest)

end

end CallFlow.Syntax
