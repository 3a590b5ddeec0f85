import CallFlow.FileFlow.Names
import Mathlib.Data.List.Basic

/-!
# Names that are declared on the way

`Stmt.varNames` lists the names that `var` binds anywhere in a statement, and these are declared
before the statement is walked. The walk over it declares names by `var` once more: those of a block
when it enters the block, and those of a loop when it meets its head. `Stmt.redeclared` lists these,
and `redeclared_subset` says that they are among the former.
-/

namespace CallFlow.Syntax

/-- The names that `var` binds in a statement itself, and not in one inside it. -/
def Stmt.ownVarNames : Stmt → List String
  | .decl d => d.varNames
  | _ => []

/-- The names that `var` binds directly among the statements of a block. -/
def Stmt.ownVarNamesAll (stmts : List Stmt) : List String :=
  stmts.flatMap Stmt.ownVarNames

/-- The names that `var` declares in the statements of a case, not those deeper inside. -/
def Case.ownVarNames : Case → List String
  | .mk _ body => Stmt.ownVarNamesAll body

mutual

/-- The names that are declared by `var` when the statement is walked. -/
def Stmt.redeclared : Stmt → List String
  | .block stmts => Stmt.ownVarNamesAll stmts ++ Stmt.redeclaredAll stmts
  | .cond _ consequent alternate => consequent.redeclared ++ Stmt.redeclaredOption alternate
  | .for head _ _ body => head.varNames ++ body.redeclared
  | .forEach head _ body => head.varNames ++ body.redeclared
  | .while _ body => body.redeclared
  | .doWhile body _ => body.redeclared
  | .labeled body => body.redeclared
  | .with _ body => body.redeclared
  | .switch _ cases => cases.flatMap Case.ownVarNames ++ Case.redeclaredAll cases
  | .try body _ handler finalizer =>
    body.redeclared ++ (Stmt.redeclaredOption handler ++ Stmt.redeclaredOption finalizer)
  | .decl _ | .expr _ | .ret _ | .throw _ | .inert => []

/-- What is redeclared in a statement that may be left out. -/
def Stmt.redeclaredOption : Option Stmt → List String
  | none => []
  | some s => s.redeclared

/-- What is redeclared in statements. -/
def Stmt.redeclaredAll : List Stmt → List String
  | [] => []
  | s :: rest => s.redeclared ++ Stmt.redeclaredAll rest

/-- What is redeclared in cases. -/
def Case.redeclaredAll : List Case → List String
  | [] => []
  | .mk _ body :: rest => Stmt.redeclaredAll body ++ Case.redeclaredAll rest

end

/-- A static block is walked like a block, and all other code of a class is in functions or is an
expression. -/
def Member.redeclared : Member → List String
  | .staticBlock stmts => Stmt.ownVarNamesAll stmts ++ Stmt.redeclaredAll stmts
  | .constructor _ | .method _ _ _ | .field _ _ _ => []

/-- The names of every `var` in an item of a module that are hoisted in one go. -/
def ModuleItem.ownVarNames : ModuleItem → List String
  | .stmt s => s.ownVarNames
  | .exportDecl d => d.varNames
  | _ => []

/-- Only statements of a module are walked as such. -/
def ModuleItem.redeclared : ModuleItem → List String
  | .stmt s => s.redeclared
  | _ => []

/-- The names that `var` declares in the statements of a body, not those deeper inside. -/
def Body.ownVarNames : Body → List String
  | .block stmts => Stmt.ownVarNamesAll stmts
  | .expr _ | .absent => []

/-- What is redeclared in a body. -/
def Body.redeclared : Body → List String
  | .block stmts => Stmt.redeclaredAll stmts
  | .expr _ | .absent => []

/-- The names bound by `var` anywhere in a function, but not in functions inside it. -/
def Body.varNames : Body → List String
  | .block stmts => Stmt.varNamesAll stmts
  | .expr _ | .absent => []

/-! ## They are declared before -/

theorem append_subset_append {as as' bs bs' : List String} (h : as ⊆ as') (h' : bs ⊆ bs') :
    as ++ bs ⊆ as' ++ bs' :=
  List.append_subset.2 ⟨List.subset_append_of_subset_left bs' h,
    List.subset_append_of_subset_right as' h'⟩

theorem Stmt.ownVarNames_subset (s : Stmt) : s.ownVarNames ⊆ s.varNames := by
  cases s with
  | decl d => rw [varNames]; exact List.Subset.refl _
  | _ => exact List.nil_subset _

/-- The names of several statements are among those that they declare with `var`. -/
theorem Stmt.ownVarNamesAll_subset (stmts : List Stmt) :
    Stmt.ownVarNamesAll stmts ⊆ Stmt.varNamesAll stmts := by
  induction stmts with
  | nil => exact List.Subset.refl _
  | cons s rest ih =>
    rw [varNamesAll]
    exact append_subset_append s.ownVarNames_subset ih

/-- So are those of cases. -/
theorem Case.ownVarNames_subset (cases : List Case) :
    cases.flatMap Case.ownVarNames ⊆ Case.varNamesAll cases := by
  induction cases with
  | nil => exact List.Subset.refl _
  | cons c rest ih =>
    obtain ⟨test, body⟩ := c
    rw [varNamesAll, varNames]
    exact append_subset_append (Stmt.ownVarNamesAll_subset body) ih

mutual

/-- What is redeclared has been declared with the rest. -/
theorem Stmt.redeclared_subset : ∀ s : Stmt, s.redeclared ⊆ s.varNames
  | .block stmts => by
    rw [Stmt.redeclared, Stmt.varNames]
    -- A block hoists its own names before it goes deeper.
    exact List.append_subset.2 ⟨Stmt.ownVarNamesAll_subset stmts, Stmt.redeclaredAll_subset stmts⟩
  | .cond _ consequent none => by
    rw [Stmt.redeclared, Stmt.varNames, Stmt.redeclaredOption, List.append_nil]
    exact Stmt.redeclared_subset consequent
  | .cond _ consequent (some alternate) => by
    rw [Stmt.redeclared, Stmt.varNames, Stmt.redeclaredOption]
    exact append_subset_append (Stmt.redeclared_subset consequent)
      (Stmt.redeclared_subset alternate)
  | .for head _ _ body | .forEach head _ body => by
    rw [Stmt.redeclared, Stmt.varNames]
    exact append_subset_append (List.Subset.refl _) (Stmt.redeclared_subset body)
  | .while _ body | .doWhile body _ | .labeled body | .with _ body => by
    rw [Stmt.redeclared, Stmt.varNames]
    exact Stmt.redeclared_subset body
  | .switch _ cases => by
    rw [Stmt.redeclared, Stmt.varNames]
    exact List.append_subset.2 ⟨Case.ownVarNames_subset cases, Case.redeclaredAll_subset cases⟩
  | .try body _ handler finalizer => by
    rw [Stmt.redeclared, Stmt.varNames, List.append_assoc]
    exact append_subset_append (Stmt.redeclared_subset body) (append_subset_append
      (Stmt.redeclaredOption_subset handler) (Stmt.redeclaredOption_subset finalizer))
  | .decl _ | .expr _ | .ret _ | .throw _ | .inert => by
    rw [Stmt.redeclared]
    exact List.nil_subset _

theorem Stmt.redeclaredOption_subset :
    ∀ s : Option Stmt, Stmt.redeclaredOption s ⊆ Stmt.varNamesOption s
  | none => List.nil_subset _
  | some s => by
    rw [Stmt.redeclaredOption, Stmt.varNamesOption]
    exact Stmt.redeclared_subset s

theorem Stmt.redeclaredAll_subset :
    ∀ ss : List Stmt, Stmt.redeclaredAll ss ⊆ Stmt.varNamesAll ss
  | [] => List.nil_subset _
  | s :: rest => by
    rw [Stmt.redeclaredAll, Stmt.varNamesAll]
    exact append_subset_append (Stmt.redeclared_subset s) (Stmt.redeclaredAll_subset rest)

theorem Case.redeclaredAll_subset :
    ∀ cs : List Case, Case.redeclaredAll cs ⊆ Case.varNamesAll cs
  | [] => List.nil_subset _
  | .mk _ body :: rest => by
    rw [Case.redeclaredAll, Case.varNamesAll, Case.varNames]
    exact append_subset_append (Stmt.redeclaredAll_subset body) (Case.redeclaredAll_subset rest)

end

/-- The walk over `if (c) for (var i;;) { var x; } else var y;` declares the head and the block. -/
example :
    let declares (name : String) : Decl := .vars .var [.mk (.ident name) none]
    let loop : Stmt := .for (.decl (declares "i")) none none (.block [.decl (declares "x")])
    let s : Stmt := .cond .literal loop (some (.decl (declares "y")))
    s.redeclared = ["i", "x"] ∧ s.varNames = ["i", "x", "y"] := by decide

theorem Body.redeclared_subset (body : Body) : body.redeclared ⊆ body.varNames := by
  cases body with
  | block stmts => exact Stmt.redeclaredAll_subset stmts
  | expr | absent => exact List.Subset.refl _

end CallFlow.Syntax
