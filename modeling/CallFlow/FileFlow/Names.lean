import CallFlow.Syntax.Tree

/-!
# Names that a piece of syntax declares

The names are listed in the order in which they are written, which is the order in which they
are declared.
-/

namespace CallFlow.Syntax

mutual

/-- The names that a pattern binds. -/
def Pattern.names : Pattern → List String
  | .ident name => [name]
  | .array elements => Pattern.namesAll elements
  | .object fields => PatternField.namesAll fields
  | .rest inner => inner.names
  | .withDefault inner _ => inner.names
  | .expr _ => []

def Pattern.namesAll : List Pattern → List String
  | [] => []
  | p :: rest => p.names ++ Pattern.namesAll rest

def PatternField.names : PatternField → List String
  | .keyValue _ value => value.names
  | .shorthand name _ => [name]
  | .rest inner => inner.names

def PatternField.namesAll : List PatternField → List String
  | [] => []
  | f :: rest => f.names ++ PatternField.namesAll rest

end

/-- The names that a parameter binds. -/
def Param.names : Param → List String
  | .pattern _ p => p.names
  | .property _ name _ => [name]
  | .propertyPattern _ _ _ => []

def Declarator.target : Declarator → Pattern
  | .mk target _ => target

/-- The names that a list of declarators binds. -/
def Declarator.namesAll (declarators : List Declarator) : List String :=
  declarators.flatMap fun d => d.target.names

/-- The names that a `var` declaration binds; another declaration has none. -/
def Decl.varNames : Decl → List String
  | .vars .var declarators => Declarator.namesAll declarators
  | _ => []

def LoopHead.varNames : LoopHead → List String
  | .decl d => d.varNames
  | _ => []

mutual

/-- The names bound by `var` anywhere in a statement, but not in functions inside it. -/
def Stmt.varNames : Stmt → List String
  | .decl d => d.varNames
  | .block stmts => Stmt.varNamesAll stmts
  | .cond _ consequent none => consequent.varNames
  | .cond _ consequent (some alternate) => consequent.varNames ++ alternate.varNames
  | .for head _ _ body => head.varNames ++ body.varNames
  | .forEach head _ body => head.varNames ++ body.varNames
  | .while _ body => body.varNames
  | .doWhile body _ => body.varNames
  | .labeled body => body.varNames
  | .with _ body => body.varNames
  | .try body _ handler finalizer =>
    body.varNames ++ Stmt.varNamesOption handler ++ Stmt.varNamesOption finalizer
  | .switch _ cases => Case.varNamesAll cases
  | .expr _ | .ret _ | .throw _ | .inert => []

def Stmt.varNamesOption : Option Stmt → List String
  | none => []
  | some s => s.varNames

def Stmt.varNamesAll : List Stmt → List String
  | [] => []
  | s :: rest => s.varNames ++ Stmt.varNamesAll rest

def Case.varNames : Case → List String
  | .mk _ body => Stmt.varNamesAll body

def Case.varNamesAll : List Case → List String
  | [] => []
  | c :: rest => c.varNames ++ Case.varNamesAll rest

end

end CallFlow.Syntax
