import CallFlow.Binding.Symbol
import CallFlow.Proofs.Binding.Scope

/-!
# Names and the symbols they are bound to

In a table that has only been declared into, a symbol is bound in its own scope to its own name and
nowhere else. So what is known of the scopes in which names are bound is known of symbols.
-/

namespace CallFlow.SymbolTable

variable {table : SymbolTable}

/-! ## Declaring a name -/

/-- A name is bound after its declaration; all others are as before. -/
theorem binding?_declare (table : SymbolTable) (name : String) (kind : SymbolKind)
    (scope other : ScopeId) (x : String) :
    (table.declare name kind scope).2.binding? other x =
      if other = scope ∧ x = name then some ((table.binding? scope name).getD ⟨table.size⟩)
      else table.binding? other x := by
  unfold declare
  split
  -- a bound name is left as it is
  · next id h =>
    split
    · next hsame => rw [hsame.1, hsame.2, h, Option.getD_some]
    · rfl
  · next h =>
    obtain ⟨i⟩ := scope
    obtain ⟨j⟩ := other
    simp only [binding?, size, Std.TreeMap.getElem?_insert, Std.LawfulEqCmp.compare_eq_iff_eq,
      Prod.mk.injEq, ScopeId.mk.injEq, eq_comm (a := i), eq_comm (a := name)]
    -- a free one gets the next symbol
    rw [show table.bindings[(i, name)]? = none from h, Option.getD_none]

/-- The symbol that a declaration answers is the one that the name has from then on. -/
theorem binding?_declare_self (table : SymbolTable) (name : String) (kind : SymbolKind)
    (scope : ScopeId) : (table.declare name kind scope).2.binding? scope name =
      some (table.declare name kind scope).1 := by
  rw [binding?_declare, if_pos ⟨rfl, rfl⟩, declare]
  cases table.binding? scope name <;> rfl

/-- A binding is never changed. -/
theorem binding?_declare_of_some {other : ScopeId} {x : String} {id : SymbolId}
    (h : table.binding? other x = some id) (name : String) (kind : SymbolKind) (scope : ScopeId) :
    (table.declare name kind scope).2.binding? other x = some id := by
  rw [binding?_declare]
  split
  · next hsame => rw [← hsame.1, ← hsame.2, h, Option.getD_some]
  · exact h

/-- A name that is declared keeps its symbol. -/
theorem declare_of_binding? {scope : ScopeId} {name : String} {x : SymbolId}
    (h : table.binding? scope name = some x) (kind : SymbolKind) :
    table.declare name kind scope = (x, table) := by
  rw [declare, h]

/-- A symbol is added only for a name that is free. -/
theorem size_declare (table : SymbolTable) (name : String) (kind : SymbolKind)
    (scope : ScopeId) :
    (table.declare name kind scope).2.size =
      table.size + if (table.binding? scope name).isSome then 0 else 1 := by
  unfold declare
  split
  · next h => simp [h]
  · next h => simp [h, size]

theorem symbol?_size (table : SymbolTable) : table.symbol? ⟨table.size⟩ = none :=
  Array.getElem?_size

/-- The symbols after a declaration: those before, and a new one if the name was free. -/
theorem symbol?_declare_eq_some_iff {name : String} {kind : SymbolKind} {scope : ScopeId}
    {id : SymbolId} {symbol : Symbol} :
    (table.declare name kind scope).2.symbol? id = some symbol ↔
      table.symbol? id = some symbol ∨
        table.binding? scope name = none ∧ id = ⟨table.size⟩ ∧ symbol = ⟨name, kind, scope⟩ := by
  obtain ⟨i⟩ := id
  unfold declare
  split
  · next old hold => simp [hold]
  · next hfree =>
    show (table.symbols.push _)[i]? = some symbol ↔ _
    rw [Array.getElem?_push]
    split
    -- the last number is that of the new symbol
    · next hlast =>
      subst hlast
      have hnone : table.symbol? ⟨table.symbols.size⟩ = none := table.symbol?_size
      simp [hnone, hfree, size, eq_comm]
    · next hother =>
      have hne : (⟨i⟩ : SymbolId) ≠ ⟨table.size⟩ := fun heq => hother (congrArg SymbolId.index heq)
      simp [hne, symbol?]

theorem symbol?_declare {id : SymbolId} {symbol : Symbol} (h : table.symbol? id = some symbol)
    (name : String) (kind : SymbolKind) (scope : ScopeId) :
    (table.declare name kind scope).2.symbol? id = some symbol :=
  symbol?_declare_eq_some_iff.2 (Or.inl h)

/-- The first declaration of a name makes its symbol. -/
theorem symbol?_declare_of_free {name : String} {scope : ScopeId}
    (h : table.binding? scope name = none) (kind : SymbolKind) :
    (table.declare name kind scope).2.symbol? (table.declare name kind scope).1 =
      some ⟨name, kind, scope⟩ := by
  refine symbol?_declare_eq_some_iff.2 (Or.inr ⟨h, ?_, rfl⟩)
  rw [declare, h]
  rfl

/-! ## What bindings lead to -/

/-- What a name is bound to is a symbol of the table. -/
def Closed (table : SymbolTable) : Prop :=
  ∀ scope name id, table.binding? scope name = some id → ∃ symbol, table.symbol? id = some symbol

/-- A new binding has its symbol. -/
theorem Closed.declare (h : table.Closed) (name : String) (kind : SymbolKind) (scope : ScopeId) :
    (table.declare name kind scope).2.Closed := by
  intro other x id hid
  rw [binding?_declare] at hid
  split at hid
  · cases hold : table.binding? scope name with
    | some old =>
      rw [hold, Option.getD_some, Option.some.injEq] at hid
      exact hid ▸ (h scope name old hold).imp fun _ hs => symbol?_declare hs name kind scope
    | none =>
      rw [hold, Option.getD_none, Option.some.injEq] at hid
      exact ⟨_, symbol?_declare_eq_some_iff.2 (Or.inr ⟨hold, hid.symm, rfl⟩)⟩
  · exact (h other x id hid).imp fun _ hs => symbol?_declare hs name kind scope

theorem Closed.lookup (h : table.Closed) {tree : ScopeTree} {name : String} {scope : ScopeId}
    {id : SymbolId} (hid : table.lookup tree name scope = some id) :
    ∃ symbol, table.symbol? id = some symbol := by
  obtain ⟨found, -, hbinding⟩ := List.exists_of_findSome?_eq_some hid
  exact h found name id hbinding

/-- Names are declared in scopes of the tree below its root, and denote symbols of the table. -/
def BindsIn (table : SymbolTable) (tree : ScopeTree) : Prop :=
  ∀ scope name id, table.binding? scope name = some id →
    0 < scope.index ∧ scope.index < tree.size ∧ id.index < table.size

/-- Declaring in a scope that is there binds in no other. -/
theorem BindsIn.declare {tree : ScopeTree} (h : table.BindsIn tree) (name : String)
    (kind : SymbolKind) {scope : ScopeId} (hpos : 0 < scope.index)
    (hlt : scope.index < tree.size) : (table.declare name kind scope).2.BindsIn tree := by
  intro other x id hid
  rw [binding?_declare] at hid
  rw [size_declare]
  split at hid
  · next hsame =>
    refine ⟨hsame.1 ▸ hpos, hsame.1 ▸ hlt, ?_⟩
    obtain rfl := Option.some.inj hid
    -- a name that was bound keeps its symbol
    cases hold : table.binding? scope name with
    | none => simp
    | some old => simpa using (h scope name old hold).2.2
  · obtain ⟨hpos', hlt', hid⟩ := h other x id hid
    exact ⟨hpos', hlt', by omega⟩

theorem BindsIn.lookup {tree : ScopeTree} (h : table.BindsIn tree) {name : String}
    {scope : ScopeId} {id : SymbolId} (hid : table.lookup tree name scope = some id) :
    id.index < table.size := by
  obtain ⟨s, -, hs⟩ := List.exists_of_findSome?_eq_some hid
  exact (h s name id hs).2.2

/-- A scope binds a name to the symbol that was declared for it there, and to no other. -/
def Faithful (table : SymbolTable) : Prop :=
  ∀ scope name id, table.binding? scope name = some id ↔
    ∃ kind, table.symbol? id = some ⟨name, kind, scope⟩

theorem faithful_empty : empty.Faithful := by
  intro scope name id
  simp [binding?, symbol?, empty]

/-- A declaration adds a symbol and its binding together, or neither. -/
theorem Faithful.declare (h : table.Faithful) (name : String) (kind : SymbolKind)
    (scope : ScopeId) : (table.declare name kind scope).2.Faithful := by
  intro other x id
  rw [binding?_declare]
  simp only [symbol?_declare_eq_some_iff]
  cases hold : table.binding? scope name with
  | some old =>
    -- the name keeps its symbol
    have hsame : (if other = scope ∧ x = name then some old else table.binding? other x) =
        table.binding? other x := by
      split
      · next heq => rw [heq.1, heq.2, hold]
      · rfl
    simp only [Option.getD_some, hsame, h other x id, reduceCtorEq, false_and, or_false]
  | none =>
    have hfresh : table.binding? other x ≠ some ⟨table.size⟩ := fun hbound => by
      obtain ⟨_, hsymbol⟩ := (h other x _).1 hbound
      rw [symbol?_size] at hsymbol
      cases hsymbol
    split
    · next heq =>
      obtain ⟨rfl, rfl⟩ := heq
      have hnone : ∀ kind, table.symbol? id ≠ some ⟨x, kind, other⟩ := fun kind hsymbol => by
        have hbound := (h other x id).2 ⟨kind, hsymbol⟩
        rw [hold] at hbound
        cases hbound
      simp [hnone, eq_comm]
    · next hne =>
      rw [h other x id]
      refine exists_congr fun k => ⟨Or.inl, fun hor => hor.resolve_right ?_⟩
      rintro ⟨-, -, heq⟩
      injection heq with hname _ hscope
      exact hne ⟨hscope, hname⟩

/-- A name that a scope binds is seen from this scope. -/
theorem lookup_of_binding? {tree : ScopeTree} (hsize : 0 < tree.size) {name : String}
    {scope : ScopeId} {id : SymbolId} (h : table.binding? scope name = some id) :
    table.lookup tree name scope = some id := by
  obtain ⟨around, haround⟩ := tree.exists_ancestors_eq_cons hsize scope
  rw [lookup, haround]
  exact List.findSome?_cons_of_isSome (by rw [h]; rfl) |>.trans h

end CallFlow.SymbolTable
