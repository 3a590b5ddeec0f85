/-!
# Scopes

One tree spans the whole program: the global scope is its root, every file has a module scope
below it, and function, block and class scopes nest from there. Scopes are numbered in the
order of their creation; a scope is created below one that exists, so a parent always has the
smaller number.
-/

namespace CallFlow

/-- The number of a scope. -/
structure ScopeId where
  index : Nat
deriving DecidableEq, Repr, Inhabited

/-- What a scope belongs to. -/
inductive ScopeKind
  | globalScope
  | moduleScope
  | functionScope
  | arrowScope
  | blockScope
  | forScope
  | catchScope
  | classScope
deriving DecidableEq, Repr, Inhabited

/-- Whether a `var` declared somewhere inside belongs to this scope. -/
def ScopeKind.hoistsVars : ScopeKind → Bool
  | .globalScope | .moduleScope | .functionScope | .arrowScope => true
  | .blockScope | .forScope | .catchScope | .classScope => false

/-- A scope and the one around it; only the global scope has none. -/
structure Scope where
  kind : ScopeKind
  parent : Option ScopeId
deriving DecidableEq, Repr, Inhabited

/-- All scopes, by number. -/
structure ScopeTree where
  scopes : Array Scope := #[⟨.globalScope, none⟩]
deriving Inhabited

namespace ScopeTree

/-- The number of the global scope. -/
def global : ScopeId := ⟨0⟩

/-- The tree that holds only the global scope. -/
def empty : ScopeTree := {}

def size (tree : ScopeTree) : Nat := tree.scopes.size

def scope? (tree : ScopeTree) (id : ScopeId) : Option Scope :=
  tree.scopes[id.index]?

def parent? (tree : ScopeTree) (id : ScopeId) : Option ScopeId :=
  (tree.scope? id).bind Scope.parent

/-- Adds a scope below `parent`. -/
def create (tree : ScopeTree) (kind : ScopeKind) (parent : ScopeId) : ScopeId × ScopeTree :=
  (⟨tree.scopes.size⟩, { tree with scopes := tree.scopes.push ⟨kind, some parent⟩ })

/-- The first `n` scopes on the way from `id` to the root. -/
def chain (tree : ScopeTree) : Nat → ScopeId → List ScopeId
  | 0, _ => []
  | n + 1, id =>
    match tree.parent? id with
    | none => [id]
    | some parent => id :: tree.chain n parent

/-- The scope itself and all scopes around it, innermost first. The way to the root meets no
scope twice, so it is no longer than the tree is large. -/
def ancestors (tree : ScopeTree) (id : ScopeId) : List ScopeId :=
  tree.chain tree.size id

def kind? (tree : ScopeTree) (id : ScopeId) : Option ScopeKind :=
  (tree.scope? id).map Scope.kind

/-- The innermost scope around `id`, itself included, that `var` declarations belong to. -/
def varScope (tree : ScopeTree) (id : ScopeId) : ScopeId :=
  ((tree.ancestors id).find? fun s => (tree.kind? s).any ScopeKind.hoistsVars).getD global

end ScopeTree

end CallFlow
