import CallFlow.Proofs.Registration.Sites

/-!
# References and the names in scope

`references` lists the names that a walk over a tree asks for, in its order, each with whether it is
in the scope of a declaration. A block brings the names that its statements declare into scope, a
function its own name, its parameters and all that is declared by `var` inside, a class its own
name, a loop the names in its head, a handler what it catches, and a module all that its items
bind.

What is iterated over is outside of its loop, and what a class extends outside of the class. Three
kinds of declarations bring nothing into scope: a `var` that is nested in a statement of a static
block does so in the block it is declared in only, a parameter that is a field and a pattern, and
the head of a loop that begins with `using`, do not at all.
-/

namespace CallFlow.Syntax

/-- A name that a walk asks for; `declared` if it is in the scope of a declaration. -/
structure NameReference where
  name : String
  declared : Bool
deriving DecidableEq, Repr

/-- A reference where these names are in scope. -/
def NameReference.of (names : List String) (name : String) : NameReference :=
  ⟨name, names.contains name⟩

/-! ## What is brought into scope -/

/-- The names that a declaration binds in the scope that it stands in. -/
def Decl.bound : Decl → List String
  | .function name _ | .class name _ => [name]
  | .vars _ declarators | .using declarators => Declarator.namesAll declarators
  | .inert => []

/-- What a statement declares as an item of its list. -/
def Stmt.bound : Stmt → List String
  | .decl d => d.bound
  | _ => []

/-- The names that statements bind in their scope. -/
def Stmt.boundAll (stmts : List Stmt) : List String := stmts.flatMap Stmt.bound

/-- The cases of a `switch` are one block. -/
def Case.boundAll (cases : List Case) : List String :=
  cases.flatMap fun
    | .mk _ body => Stmt.boundAll body

/-- The names that the first part of a loop binds in the scope of the loop. -/
def LoopHead.bound : LoopHead → List String
  | .decl (.vars _ declarators) => Declarator.namesAll declarators
  | _ => []

/-- The names that a body binds: of every `var` inside of it, and of its own statements. -/
def Body.bound : Body → List String
  | .block stmts => Stmt.varNamesAll stmts ++ Stmt.boundAll stmts
  | .expr _ | .absent => []

/-- What a handler catches. -/
def Pattern.caught : Option Pattern → List String
  | none => []
  | some p => p.names

/-- The names that parameters bind. -/
def Param.boundAll (params : List Param) : List String := params.flatMap Param.names

/-- The names that an item of a module binds. -/
def ModuleItem.bound : ModuleItem → List String
  | .stmt s => s.varNames ++ s.bound
  | .importNames _ specifiers => specifiers.map ImportSpecifier.localName
  | .importEquals name _ => [name]
  | .exportDecl d => d.bound
  | .exportDefaultFunction name _ | .exportDefaultClass name _ => name.toList
  | .exportDefaultExpr _ | .exportAssignment _ | .exportNames _ _ | .inert => []

/-! ## References -/

mutual

/-- What an expression refers to. The value that is stored is walked before the target. -/
def Expr.references (receiver : Bool) (names : List String) : Expr → List NameReference
  | .ident name => [.of names name]
  | .this | .string _ | .literal => []
  | .function own f => f.references true own.toList names
  | .arrow f => f.references receiver [] names
  | .class own c => c.references receiver own names
  | .call _ _ callee args | .construct _ callee args =>
    callee.references receiver names ++ Expr.referencesAll receiver names args
  | .tagged _ tag substitutions =>
    tag.references receiver names ++ Expr.referencesAll receiver names substitutions
  | .member _ object key => object.references receiver names ++ key.references receiver names
  | .superMember key => key.references receiver names
  | .assign _ target value =>
    value.references receiver names ++
      if target.isLeftAlone then [] else target.references receiver names
  | .logical _ left right => left.references receiver names ++ right.references receiver names
  | .conditional _ test consequent alternate =>
    test.references receiver names ++
      (consequent.references receiver names ++ alternate.references receiver names)
  | .sequence exprs => Expr.referencesAll receiver names exprs
  | .paren inner | .await inner | .typed inner | .spread inner => inner.references receiver names
  | .array operands | .untracked operands => Expr.referencesAll receiver names operands
  | .object properties => Property.referencesAll receiver names properties
  | .element attributes children =>
    Attribute.referencesAll receiver names attributes ++
      Expr.referencesAll receiver names children

/-- What several expressions refer to. -/
def Expr.referencesAll (receiver : Bool) (names : List String) : List Expr → List NameReference
  | [] => []
  | e :: rest => e.references receiver names ++ Expr.referencesAll receiver names rest

/-- What an expression refers to that may be left out. -/
def Expr.referencesOption (receiver : Bool) (names : List String) : Option Expr → List NameReference
  | none => []
  | some e => e.references receiver names

/-- Only a computed key refers to anything. -/
def Key.references (receiver : Bool) (names : List String) : Key → List NameReference
  | .computed e => e.references receiver names
  | .named _ | .privateName _ | .untracked => []

/-- What a property of an object literal refers to. A method has a receiver of its own. -/
def Property.references (receiver : Bool) (names : List String) : Property → List NameReference
  | .keyValue key value => key.references receiver names ++ value.references receiver names
  | .shorthand name => [.of names name]
  | .shorthandDefault _ value => value.references receiver names
  | .method key f => key.references receiver names ++ f.references true [] names
  | .spread e => e.references receiver names

/-- What the properties of an object literal refer to. -/
def Property.referencesAll (receiver : Bool) (names : List String) :
    List Property → List NameReference
  | [] => []
  | p :: rest => p.references receiver names ++ Property.referencesAll receiver names rest

/-- What attributes refer to. Fragments are passed over. -/
def Attribute.referencesAll (receiver : Bool) (names : List String) :
    List Attribute → List NameReference
  | [] => []
  | .value e :: rest =>
    e.references receiver names ++ Attribute.referencesAll receiver names rest
  | .fragment _ :: rest => Attribute.referencesAll receiver names rest

/-- What has a default is walked once more if its default has a vertex. -/
def Pattern.references (receiver : Bool) (names : List String) : Pattern → List NameReference
  | .ident name => [.of names name]
  | .array elements => Pattern.referencesAll receiver names elements
  | .object fields => PatternField.referencesAll receiver names fields
  | .rest inner => inner.references receiver names
  | .withDefault inner value =>
    value.references receiver names ++ (inner.references receiver names ++
      if value.yields receiver then inner.references receiver names else [])
  | .expr e => e.references receiver names

/-- What the elements of an array pattern refer to. -/
def Pattern.referencesAll (receiver : Bool) (names : List String) :
    List Pattern → List NameReference
  | [] => []
  | p :: rest => p.references receiver names ++ Pattern.referencesAll receiver names rest

/-- What a pattern refers to that may be left out. -/
def Pattern.referencesOption (receiver : Bool) (names : List String) :
    Option Pattern → List NameReference
  | none => []
  | some p => p.references receiver names

/-- A field refers to what it is bound to, and a default to what is in it. -/
def PatternField.references (receiver : Bool) (names : List String) :
    PatternField → List NameReference
  | .keyValue key p => key.references receiver names ++ p.references receiver names
  | .shorthand name default =>
    .of names name :: Expr.referencesOption receiver names default
  | .rest inner => inner.references receiver names

/-- What the fields of an object pattern refer to. -/
def PatternField.referencesAll (receiver : Bool) (names : List String) :
    List PatternField → List NameReference
  | [] => []
  | f :: rest => f.references receiver names ++ PatternField.referencesAll receiver names rest

/-- `receiver` tells of the inside of the function. Its own name is asked for first. What is
declared in the body is not in scope in the parameters. -/
def Func.references (receiver : Bool) (own names : List String) : Func → List NameReference
  | .mk params body _ =>
    own.map (.of (own ++ names)) ++
      (Param.referencesAll receiver (Param.boundAll params ++ (own ++ names)) params ++
        body.references receiver (body.bound ++ (Param.boundAll params ++ (own ++ names))))

/-- What a parameter refers to. Its decorators are passed over. -/
def Param.references (receiver : Bool) (names : List String) : Param → List NameReference
  | .pattern _ p => p.references receiver names
  | .property _ name default => .of names name :: Expr.referencesOption receiver names default
  | .propertyPattern _ _ _ => []

/-- What the parameters of a function refer to. -/
def Param.referencesAll (receiver : Bool) (names : List String) : List Param → List NameReference
  | [] => []
  | p :: rest => p.references receiver names ++ Param.referencesAll receiver names rest

/-- What a body refers to. -/
def Body.references (receiver : Bool) (names : List String) : Body → List NameReference
  | .block stmts => Stmt.referencesAll receiver names stmts
  | .expr result => result.references receiver names
  | .absent => []

/-- A class without a constructor has no value that its own name could denote. -/
def Class.references (receiver : Bool) (own : Option String) (names : List String) :
    Class → List NameReference
  | .mk decorators heritage members =>
    Expr.referencesAll receiver names decorators ++
      (Expr.referencesOption receiver names heritage ++
        (Member.referencesAll receiver (own.toList ++ names) members ++
          if members.any Member.isConstructor then own.toList.map (.of (own.toList ++ names))
          else []))

/-- What a member of a class refers to. -/
def Member.references (receiver : Bool) (names : List String) : Member → List NameReference
  | .constructor f => f.references true [] names
  | .method decorators key f =>
    (if key.isPrivate then [] else Expr.referencesAll receiver names decorators) ++
      (key.references receiver names ++ f.references true [] names)
  | .field _ key value =>
    key.references receiver names ++ Expr.referencesOption receiver names value
  | .staticBlock stmts => Stmt.referencesAll receiver (Stmt.boundAll stmts ++ names) stmts

/-- What the members of a class refer to. -/
def Member.referencesAll (receiver : Bool) (names : List String) : List Member → List NameReference
  | [] => []
  | m :: rest => m.references receiver names ++ Member.referencesAll receiver names rest

/-- A declaration of a function refers to its own name at the end, as it is stored there. -/
def Decl.references (receiver : Bool) (names : List String) : Decl → List NameReference
  | .function name f => f.references true [] names ++ [.of names name]
  | .class name c =>
    c.references receiver none names ++ if c.hasConstructor then [.of names name] else []
  | .vars _ declarators => Declarator.referencesAll receiver names declarators
  | .using declarators => Declarator.referencesAll receiver names declarators
  | .inert => []

/-- What declarators refer to, each initializer before its target. -/
def Declarator.referencesAll (receiver : Bool) (names : List String) :
    List Declarator → List NameReference
  | [] => []
  | .mk target init :: rest =>
    Expr.referencesOption receiver names init ++
      (target.references receiver names ++ Declarator.referencesAll receiver names rest)

/-- What stands before `in` or `of`: each declarator is in scope once it has been met. -/
def Declarator.targetReferencesAll (receiver : Bool) (names : List String) :
    List Declarator → List NameReference
  | [] => []
  | .mk target _ :: rest =>
    target.references receiver (target.names ++ names) ++
      Declarator.targetReferencesAll receiver (target.names ++ names) rest

/-- What a statement refers to. What has a scope of its own finds the names of this scope first. -/
def Stmt.references (receiver : Bool) (names : List String) : Stmt → List NameReference
  | .decl d => d.references receiver names
  | .expr e | .throw e => e.references receiver names
  | .block stmts => Stmt.referencesAll receiver (Stmt.boundAll stmts ++ names) stmts
  | .ret value => Expr.referencesOption receiver names value
  | .cond test consequent alternate =>
    test.references receiver names ++
      (consequent.references receiver names ++ Stmt.referencesOption receiver names alternate)
  | .for head test update body =>
    head.references receiver (head.bound ++ names) ++
      (Expr.referencesOption receiver (head.bound ++ names) test ++
        (Expr.referencesOption receiver (head.bound ++ names) update ++
          body.references receiver (head.bound ++ names)))
  | .forEach head iterated body =>
    iterated.references receiver names ++ (head.targetReferences receiver names ++
      body.references receiver (head.bound ++ names))
  | .while test body => test.references receiver names ++ body.references receiver names
  | .doWhile body test => body.references receiver names ++ test.references receiver names
  | .labeled body => body.references receiver names
  | .switch subject cases =>
    subject.references receiver names ++
      Case.referencesAll receiver (Case.boundAll cases ++ names) cases
  | .try body _ none finalizer =>
    body.references receiver names ++ Stmt.referencesOption receiver names finalizer
  | .try body param (some handler) finalizer =>
    body.references receiver names ++
      ((Pattern.referencesOption receiver (Pattern.caught param ++ names) param ++
        handler.references receiver (Pattern.caught param ++ names)) ++
          Stmt.referencesOption receiver names finalizer)
  | .with object body => object.references receiver names ++ body.references receiver names
  | .inert => []

/-- What a statement refers to that may be left out. -/
def Stmt.referencesOption (receiver : Bool) (names : List String) :
    Option Stmt → List NameReference
  | none => []
  | some s => s.references receiver names

/-- What statements refer to. -/
def Stmt.referencesAll (receiver : Bool) (names : List String) : List Stmt → List NameReference
  | [] => []
  | s :: rest => s.references receiver names ++ Stmt.referencesAll receiver names rest

/-- What stands before the first `;` of a loop. -/
def LoopHead.references (receiver : Bool) (names : List String) : LoopHead → List NameReference
  | .decl (.vars _ declarators) => Declarator.referencesAll receiver names declarators
  | .expr e => e.references receiver names
  | .decl _ | .pattern _ | .absent => []

/-- What the first part of a loop over the elements of a value refers to. -/
def LoopHead.targetReferences (receiver : Bool) (names : List String) :
    LoopHead → List NameReference
  | .decl (.vars _ declarators) => Declarator.targetReferencesAll receiver names declarators
  | .pattern p => p.references receiver names
  | .decl _ | .expr _ | .absent => []

/-- What the cases of a switch refer to. -/
def Case.referencesAll (receiver : Bool) (names : List String) : List Case → List NameReference
  | [] => []
  | .mk test body :: rest =>
    Expr.referencesOption receiver names test ++
      (Stmt.referencesAll receiver names body ++ Case.referencesAll receiver names rest)

end

/-- No function is around an item of a module. -/
def ModuleItem.references (names : List String) : ModuleItem → List NameReference
  | .stmt s => s.references false names
  | .importNames _ specifiers => specifiers.map fun s => .of names s.localName
  | .importEquals name (some _) => [.of names name]
  | .exportDecl d => d.references false names ++ d.exportedNames.map (.of names)
  | .exportDefaultFunction name f =>
    f.references true [] names ++ name.toList.map (.of names)
  | .exportDefaultClass name c =>
    c.references false none names ++
      if c.hasConstructor then name.toList.map (.of names) else []
  | .exportDefaultExpr e | .exportAssignment e => e.references false names
  | .exportNames none specifiers => specifiers.map fun s => .of names s.given
  | .importEquals _ none | .exportNames (some _) _ | .inert => []

/-- The names that the walk over a module asks for. What any item binds is in scope in all. -/
def Module.references (m : Module) : List NameReference :=
  m.items.flatMap (ModuleItem.references (m.items.flatMap ModuleItem.bound))

end CallFlow.Syntax
