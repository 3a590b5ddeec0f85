import CallFlow.Source.Location

/-!
# Syntax trees

The syntax of a module as far as the flow of functions depends on it. Parentheses are kept,
since a method called through them gets no receiver. Types are left out, and operators whose
value is never a function that flow could follow are one constructor, `Expr.untracked`.
-/

namespace CallFlow.Syntax

inductive VarKind
  | var
  | let
  | const
deriving DecidableEq, Repr, Inhabited

/-- How an assignment combines the old value with the new one. -/
inductive AssignOp
  /-- `=` -/
  | plain
  /-- `||=`, `&&=` and `??=`, which may store the right side as it is. -/
  | logical
  /-- `+=` and the like, which compute something new. -/
  | arithmetic
deriving DecidableEq, Repr, Inhabited

mutual

inductive Expr
  | ident (name : String)
  | this
  | string (value : String)
  /-- A number, a regular expression, `null`, `import.meta`, `new.target` and the like. -/
  | literal
  | function (name : Option String) (body : Func)
  | arrow (body : Func)
  | class (name : Option String) (body : Class)
  /-- A call; `chained` if it is part of an optional chain. -/
  | call (chained : Bool) (span : Span) (callee : Expr) (args : List Expr)
  | construct (span : Span) (callee : Expr) (args : List Expr)
  /-- A template with a tag, and the expressions substituted in it. -/
  | tagged (span : Span) (tag : Expr) (substitutions : List Expr)
  /-- A property of an object; `chained` if it is part of an optional chain. -/
  | member (chained : Bool) (object : Expr) (key : Key)
  | superMember (key : Key)
  | assign (op : AssignOp) (target : Pattern) (value : Expr)
  /-- `a || b`, `a && b` or `a ?? b`. -/
  | logical (span : Span) (left right : Expr)
  | conditional (span : Span) (test consequent alternate : Expr)
  | sequence (exprs : List Expr)
  | paren (inner : Expr)
  | await (inner : Expr)
  /-- An expression with a type: `e as T`, `e satisfies T`, `e!`, `<T>e` or `e<T>`. -/
  | typed (inner : Expr)
  | array (elements : List Expr)
  /-- `...e`, in an array or among arguments. -/
  | spread (inner : Expr)
  /-- Operands that are evaluated for a value which is not tracked: unary and arithmetic
  operators, `yield`, templates, `super(…)` and `import(…)`. -/
  | untracked (operands : List Expr)
  | object (properties : List Property)
  /-- A markup element, or a fragment, which has no attributes. -/
  | element (attributes : List Attribute) (children : List Expr)

/-- The name of a property, method or field. -/
inductive Key
  /-- An identifier, a string or a number. -/
  | named (name : String)
  /-- A private name, with its `#`. -/
  | privateName (name : String)
  | computed (expr : Expr)
  /-- A big integer, which is not tracked as a name. -/
  | untracked

inductive Property
  | keyValue (key : Key) (value : Expr)
  | shorthand (name : String)
  /-- `name = value`, which only a pattern may hold. -/
  | shorthandDefault (name : String) (value : Expr)
  /-- A method, a getter or a setter. -/
  | method (key : Key) (body : Func)
  | spread (expr : Expr)

inductive Attribute
  | value (expr : Expr)
  /-- A fragment that stands as the value without braces around it. -/
  | fragment (children : List Expr)

inductive Func
  | mk (params : List Param) (body : Body) (span : Span)

inductive Body
  | block (stmts : List Stmt)
  | expr (result : Expr)
  /-- Only a head, as in an overload. -/
  | absent

inductive Param
  | pattern (decorators : List Expr) (pattern : Pattern)
  /-- A parameter of a constructor that is also a field. -/
  | property (decorators : List Expr) (name : String) (default : Option Expr)
  /-- One with a pattern. It is not tracked. -/
  | propertyPattern (decorators : List Expr) (pattern : Pattern) (default : Expr)

inductive Class
  | mk (decorators : List Expr) (heritage : Option Expr) (members : List Member)

inductive Member
  | constructor (body : Func)
  /-- A method, a getter or a setter. -/
  | method (decorators : List Expr) (key : Key) (body : Func)
  | field (decorators : List Expr) (key : Key) (value : Option Expr)
  | staticBlock (stmts : List Stmt)

/-- What a declaration, a parameter or an assignment binds. -/
inductive Pattern
  | ident (name : String)
  | array (elements : List Pattern)
  | object (fields : List PatternField)
  | rest (inner : Pattern)
  | withDefault (inner : Pattern) (value : Expr)
  /-- Anything else that can be assigned to. -/
  | expr (target : Expr)

inductive PatternField
  | keyValue (key : Key) (value : Pattern)
  | shorthand (name : String) (default : Option Expr)
  | rest (inner : Pattern)

inductive Decl
  | function (name : String) (body : Func)
  | class (name : String) (body : Class)
  | vars (kind : VarKind) (declarators : List Declarator)
  | using (declarators : List Declarator)
  /-- A declaration that only concerns types. -/
  | inert

inductive Declarator
  | mk (target : Pattern) (init : Option Expr)

inductive Stmt
  | decl (decl : Decl)
  | expr (expr : Expr)
  | block (stmts : List Stmt)
  | ret (value : Option Expr)
  | cond (test : Expr) (consequent : Stmt) (alternate : Option Stmt)
  | for (head : LoopHead) (test update : Option Expr) (body : Stmt)
  /-- `for … in` and `for … of`. -/
  | forEach (head : LoopHead) (iterated : Expr) (body : Stmt)
  | while (test : Expr) (body : Stmt)
  | doWhile (body : Stmt) (test : Expr)
  | labeled (body : Stmt)
  | switch (subject : Expr) (cases : List Case)
  | throw (value : Expr)
  /-- The body, the handler and the finalizer are blocks. -/
  | try (body : Stmt) (param : Option Pattern) (handler finalizer : Option Stmt)
  | with (object : Expr) (body : Stmt)
  /-- An empty statement, a jump or `debugger`. -/
  | inert

/-- What stands between `for (` and the first `;`, `in` or `of`. -/
inductive LoopHead
  | absent
  | decl (decl : Decl)
  | expr (expr : Expr)
  | pattern (pattern : Pattern)

inductive Case
  | mk (test : Option Expr) (body : List Stmt)

end

instance : Inhabited Expr := ⟨.literal⟩
instance : Inhabited Func := ⟨.mk [] .absent ⟨0, 0⟩⟩
instance : Inhabited Class := ⟨.mk [] none []⟩
instance : Inhabited Pattern := ⟨.array []⟩
instance : Inhabited Decl := ⟨.inert⟩
instance : Inhabited Stmt := ⟨.inert⟩

/-- One name of an import clause. -/
inductive ImportSpecifier
  /-- `imported as name`; `imported` is `name` if it is not written. -/
  | named (imported name : String)
  | default (name : String)
  | namespaceObject (name : String)
deriving DecidableEq, Repr, Inhabited

/-- One name of an export clause, `given as exported`. -/
structure ExportSpecifier where
  span : Span
  given : String
  exported : String
deriving DecidableEq, Repr, Inhabited

inductive ModuleItem
  | stmt (stmt : Stmt)
  | importNames (source : String) (specifiers : List ImportSpecifier)
  /-- `import name = require(source)`, or of a name, which has no source. -/
  | importEquals (name : String) (source : Option String)
  | exportDecl (decl : Decl)
  | exportDefaultFunction (name : Option String) (body : Func)
  | exportDefaultClass (name : Option String) (body : Class)
  | exportDefaultExpr (expr : Expr)
  /-- `export = expr` -/
  | exportAssignment (expr : Expr)
  | exportNames (source : Option String) (specifiers : List ExportSpecifier)
  /-- An item that the flow of functions does not depend on. -/
  | inert
deriving Inhabited

/-- The items of a source file that could be read. -/
structure Module where
  items : List ModuleItem
deriving Inhabited

end CallFlow.Syntax
