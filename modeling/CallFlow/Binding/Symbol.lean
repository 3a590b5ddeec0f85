import CallFlow.Binding.Scope
import Std.Data.TreeMap

/-!
# Symbols

A symbol is a name declared in a scope. A scope has at most one symbol for a name: declaring
the name again gives the first one back. A name is looked up in the scope of its use and then
outwards.
-/

namespace CallFlow

/-- The number of a symbol. -/
structure SymbolId where
  index : Nat
deriving DecidableEq, Repr, Inhabited

/-- What declared a symbol. -/
inductive SymbolKind
  | variable
  | constant
  | functionName
  | className
  | parameter
  | importName
deriving DecidableEq, Repr, Inhabited

structure Symbol where
  name : String
  kind : SymbolKind
  scope : ScopeId
deriving DecidableEq, Repr, Inhabited

/-- The order of declarations: by scope, then by name. -/
def compareBinding : Nat × String → Nat × String → Ordering :=
  compareLex (compareOn Prod.fst) (compareOn Prod.snd)

instance : Std.TransCmp compareBinding :=
  inferInstanceAs (Std.TransCmp (compareLex (compareOn Prod.fst) (compareOn Prod.snd)))

instance : Std.LawfulEqCmp compareBinding where
  eq_of_compare {a b} h := by
    simp only [compareBinding, compareLex_eq_eq, compareOn,
      Std.LawfulEqCmp.compare_eq_iff_eq] at h
    exact Prod.ext h.1 h.2

/-- All symbols by number, and for each scope and name the symbol that they declare. -/
structure SymbolTable where
  symbols : Array Symbol := #[]
  bindings : Std.TreeMap (Nat × String) SymbolId compareBinding := ∅
deriving Inhabited

namespace SymbolTable

def empty : SymbolTable := {}

def size (table : SymbolTable) : Nat := table.symbols.size

def symbol? (table : SymbolTable) (id : SymbolId) : Option Symbol :=
  table.symbols[id.index]?

/-- The symbol that `name` has in this very scope. -/
def binding? (table : SymbolTable) (scope : ScopeId) (name : String) : Option SymbolId :=
  table.bindings[(scope.index, name)]?

/-- Declares `name` in `scope`; a name that is declared there keeps its symbol. -/
def declare (table : SymbolTable) (name : String) (kind : SymbolKind) (scope : ScopeId) :
    SymbolId × SymbolTable :=
  match table.binding? scope name with
  | some id => (id, table)
  | none =>
    let id : SymbolId := ⟨table.symbols.size⟩
    (id, {
      symbols := table.symbols.push ⟨name, kind, scope⟩
      bindings := table.bindings.insert (scope.index, name) id })

/-- The innermost symbol for `name` that is visible from `scope`; a global name has none. -/
def lookup (table : SymbolTable) (tree : ScopeTree) (name : String) (scope : ScopeId) :
    Option SymbolId :=
  (tree.ancestors scope).findSome? fun s => table.binding? s name

end SymbolTable

end CallFlow
