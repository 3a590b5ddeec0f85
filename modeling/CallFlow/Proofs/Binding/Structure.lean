import CallFlow.Proofs.Binding.Symbol
import Mathlib.Data.List.Basic
import Mathlib.Data.List.Induction

/-!
# The binding structure

Scopes are created and names are declared in any order, from many places. `Bindings.Sound` is what
these operations keep together, as long as a scope is only created below one that there is: the
scopes are the global one and behind it those created, the scope around a scope has the smaller
number, and a scope binds the names declared in it, each to its own symbol. What a name denotes and
where `var` belongs then follow along the way out of a scope.
-/

namespace CallFlow

namespace ScopeTree

/-- The innermost scope around this one, itself included, of which `p` holds. -/
def Innermost (tree : ScopeTree) (scope : ScopeId) (p : ScopeId → Prop) (found : ScopeId) : Prop :=
  ∃ inner outer, tree.ancestors scope = inner ++ found :: outer ∧ (∀ a ∈ inner, ¬ p a) ∧ p found

/-- The scope is that of a function, an arrow function or a module, or a global one. -/
def KeepsVars (tree : ScopeTree) (scope : ScopeId) : Prop :=
  ∃ kind ∈ [ScopeKind.functionScope, .arrowScope, .moduleScope, .globalScope],
    tree.kind? scope = some kind

theorem hoists_iff {tree : ScopeTree} {scope : ScopeId} :
    tree.hoists scope = true ↔ tree.KeepsVars scope := by
  rw [hoists, KeepsVars]
  cases tree.kind? scope with
  | none => simp
  | some kind => cases kind <;> simp [ScopeKind.hoistsVars]

end ScopeTree

/-- The scopes of a program, and the names declared in them. -/
structure Bindings where
  tree : ScopeTree := .empty
  table : SymbolTable := .empty

namespace Bindings

/-! ## Operations -/

/-- What may be done to the bindings. -/
inductive Operation
  | create (kind : ScopeKind) (parent : ScopeId)
  | declare (name : String) (kind : SymbolKind) (scope : ScopeId)
deriving DecidableEq, Repr

namespace Operation

/-- A scope is created below one that there is. -/
def AllowedIn (b : Bindings) : Operation → Prop
  | .create _ parent => parent.index < b.tree.size
  | .declare _ _ _ => True

instance (b : Bindings) : (op : Operation) → Decidable (op.AllowedIn b)
  | .create _ parent => inferInstanceAs (Decidable (parent.index < b.tree.size))
  | .declare _ _ _ => inferInstanceAs (Decidable True)

/-- The scope that an operation adds. -/
def scope? : Operation → Option Scope
  | .create kind parent => some ⟨kind, some parent⟩
  | .declare _ _ _ => none

end Operation

/-- The bindings after an operation. -/
def apply (b : Bindings) : Operation → Bindings
  | .create kind parent => { b with tree := (b.tree.create kind parent).2 }
  | .declare name kind scope => { b with table := (b.table.declare name kind scope).2 }

/-- What these operations lead to from the start. -/
def after (ops : List Operation) : Bindings := ops.foldl apply {}

/-- Each of the operations is allowed when its turn comes. -/
def Proper : Bindings → List Operation → Prop
  | _, [] => True
  | b, op :: ops => op.AllowedIn b ∧ Proper (b.apply op) ops

instance decidableProper : (b : Bindings) → (ops : List Operation) → Decidable (Proper b ops)
  | _, [] => inferInstanceAs (Decidable True)
  | b, op :: ops =>
    have := decidableProper (b.apply op) ops
    inferInstanceAs (Decidable (op.AllowedIn b ∧ Proper (b.apply op) ops))

/-- One of the operations declares the name in this very scope. -/
def Declared (ops : List Operation) (name : String) (scope : ScopeId) : Prop :=
  ∃ kind, Operation.declare name kind scope ∈ ops

variable {b : Bindings} {ops : List Operation} {op : Operation} {name : String} {scope : ScopeId}

theorem after_append (ops later : List Operation) :
    after (ops ++ later) = later.foldl apply (after ops) :=
  List.foldl_append

/-- Operations are proper if the first ones are, and the later ones where these have led. -/
theorem proper_append {later : List Operation} :
    Proper b (ops ++ later) ↔ Proper b ops ∧ Proper (ops.foldl apply b) later := by
  induction ops generalizing b with
  | nil => simp [Proper]
  | cons op ops ih => exact (and_congr_right fun _ => ih).trans and_assoc.symm

theorem declared_concat : Declared (ops ++ [op]) name scope ↔
    Declared ops name scope ∨ ∃ kind, op = .declare name kind scope := by
  simp only [Declared, List.mem_append, List.mem_singleton, exists_or, eq_comm]

/-! ## What every operation keeps -/

/-- A name that is bound stays bound to its symbol. -/
theorem binding?_foldl {x : SymbolId} (h : b.table.binding? scope name = some x)
    (ops : List Operation) : (ops.foldl apply b).table.binding? scope name = some x := by
  induction ops generalizing b with
  | nil => exact h
  | cons op ops ih =>
    cases op with
    | create => exact ih h
    | declare other kind root => exact ih (SymbolTable.binding?_declare_of_some h other kind root)

/-- A symbol keeps its number, whatever is done later. -/
theorem symbol?_foldl {x : SymbolId} {symbol : Symbol} (h : b.table.symbol? x = some symbol)
    (ops : List Operation) : (ops.foldl apply b).table.symbol? x = some symbol := by
  induction ops generalizing b with
  | nil => exact h
  | cons op ops ih =>
    cases op with
    | create => exact ih h
    | declare other kind root => exact ih (SymbolTable.symbol?_declare h other kind root)

/-- What these operations leave. -/
structure Sound (ops : List Operation) (b : Bindings) : Prop where
  scopes : b.tree.scopes.toList = ⟨.globalScope, none⟩ :: ops.filterMap Operation.scope?
  ordered : b.tree.Ordered
  faithful : b.table.Faithful
  free_iff : ∀ name scope, b.table.binding? scope name = none ↔ ¬ Declared ops name scope

theorem sound_start : Sound [] {} where
  scopes := rfl
  ordered := ScopeTree.ordered_empty
  faithful := SymbolTable.faithful_empty
  free_iff name scope := by simp [SymbolTable.binding?, SymbolTable.empty, Declared]

namespace Sound

theorem create (h : Sound ops b) (kind : ScopeKind) {parent : ScopeId}
    (hlt : parent.index < b.tree.size) :
    Sound (ops ++ [.create kind parent]) (b.apply (.create kind parent)) where
  scopes := by
    show (b.tree.scopes.push ⟨kind, some parent⟩).toList = _
    rw [Array.toList_push, h.scopes, List.filterMap_append]
    rfl
  ordered := h.ordered.create kind hlt
  faithful := h.faithful
  -- creating a scope declares no name
  free_iff name scope := by
    rw [declared_concat, or_iff_left (fun ⟨_, heq⟩ => Operation.noConfusion heq)]
    exact h.free_iff name scope

theorem declare (h : Sound ops b) (name : String) (kind : SymbolKind) (scope : ScopeId) :
    Sound (ops ++ [.declare name kind scope]) (b.apply (.declare name kind scope)) where
  scopes := by
    rw [List.filterMap_append]
    exact h.scopes.trans (congrArg _ (List.append_nil _).symm)
  ordered := h.ordered
  faithful := h.faithful.declare name kind scope
  free_iff other root := by
    have hthis : (∃ k, Operation.declare name kind scope = .declare other k root) ↔
        root = scope ∧ other = name := by
      simp [eq_comm, and_comm]
    have hbound := b.table.binding?_declare name kind scope root other
    rw [declared_concat, hthis, not_or, ← h.free_iff other root]
    -- the binding of this name in this scope is the only one that may change
    by_cases hsame : root = scope ∧ other = name
    · rw [if_pos hsame] at hbound
      exact iff_of_false (fun hnone => Option.some_ne_none _ (hbound.symm.trans hnone))
        fun hfree => hfree.2 hsame
    · rw [if_neg hsame] at hbound
      exact (Eq.congr_left hbound).trans (and_iff_left hsame).symm

theorem apply (h : Sound ops b) (hop : op.AllowedIn b) : Sound (ops ++ [op]) (b.apply op) := by
  cases op with
  | create kind parent => exact h.create kind hop
  | declare name kind scope => exact h.declare name kind scope

end Sound

/-- By induction on the operations. -/
theorem sound_after (h : Proper {} ops) : Sound ops (after ops) := by
  -- from the end, since `Sound` speaks of all operations up to the last one
  induction ops using List.reverseRecOn with
  | nil => exact sound_start
  | append_singleton ops op ih =>
    obtain ⟨hops, hop, -⟩ := proper_append.1 h
    rw [after_append]
    exact (ih hops).apply hop

/-! ## What follows -/

namespace Sound

variable {x : SymbolId}

/-- The global scope is the only one that has none around it. -/
theorem eq_global (h : Sound ops b) {kind : ScopeKind}
    (hroot : b.tree.scope? scope = some ⟨kind, none⟩) : scope = ScopeTree.global := by
  have hfound : (⟨.globalScope, none⟩ :: ops.filterMap Operation.scope?)[scope.index]? =
      some ⟨kind, none⟩ := by
    rw [← h.scopes, Array.getElem?_toList]
    exact hroot
  obtain ⟨i⟩ := scope
  cases i with
  | zero => rfl
  | succ i =>
    -- a scope that was created is below another one
    obtain ⟨op, -, hop⟩ := List.mem_filterMap.1 (List.mem_of_getElem? hfound)
    cases op <;> cases hop

theorem scope?_global (h : Sound ops b) :
    b.tree.scope? ScopeTree.global = some ⟨.globalScope, none⟩ := by
  show b.tree.scopes[0]? = _
  rw [← Array.getElem?_toList, h.scopes]
  rfl

/-- The way out ends in the global scope, since all others have a scope around them. -/
theorem getLast?_ancestors (h : Sound ops b) (hlt : scope.index < b.tree.size) :
    (b.tree.ancestors scope).getLast? = some ScopeTree.global := by
  obtain ⟨last, kind, hlast, hroot⟩ := (h.ordered.way_ancestors hlt).exists_last
  rw [hlast, h.eq_global hroot]

theorem nodup_ancestors (h : Sound ops b) (hlt : scope.index < b.tree.size) :
    (b.tree.ancestors scope).Nodup :=
  ((h.ordered.way_ancestors hlt).pairwise h.ordered).imp fun hdown heq =>
    hdown.ne (congrArg ScopeId.index heq).symm

/-- A `var` always finds its scope, since the global one is on every way out. -/
theorem innermost_varScope (h : Sound ops b) (hlt : scope.index < b.tree.size) :
    b.tree.Innermost scope b.tree.KeepsVars (b.tree.varScope scope) := by
  have hglobal : b.tree.hoists ScopeTree.global = true := ScopeTree.hoists_of_scope? h.scope?_global
  have hmem := List.mem_of_getLast? (h.getLast?_ancestors hlt)
  -- the search finds a scope, for the global one would do
  obtain ⟨found, hfound⟩ : ∃ found, b.tree.HoistsTo scope found :=
    Option.isSome_iff_exists.1 (List.find?_isSome.2 ⟨_, hmem, hglobal⟩)
  obtain ⟨hkeeps, inner, outer, heq, hnot⟩ := List.find?_eq_some_iff_append.1 hfound
  rw [hfound.varScope_eq]
  refine ⟨inner, outer, heq, fun a ha hkeepsa => ?_, ScopeTree.hoists_iff.1 hkeeps⟩
  simpa [ScopeTree.hoists_iff.2 hkeepsa] using hnot a ha

/-- A name has a symbol in the scopes in which it is declared. -/
theorem declared_iff (h : Sound ops b) :
    Declared ops name scope ↔ ∃ x kind, b.table.symbol? x = some ⟨name, kind, scope⟩ := by
  rw [← not_iff_not, ← h.free_iff name scope, Option.eq_none_iff_forall_ne_some, not_exists]
  exact forall_congr' fun x => (h.faithful scope name x).not

/-- There is one symbol for a name in a scope. -/
theorem symbol_unique (h : Sound ops b) {y : SymbolId} {kind kind' : SymbolKind}
    (hx : b.table.symbol? x = some ⟨name, kind, scope⟩)
    (hy : b.table.symbol? y = some ⟨name, kind', scope⟩) : x = y :=
  Option.some.inj <| ((h.faithful scope name x).2 ⟨kind, hx⟩).symm.trans
    ((h.faithful scope name y).2 ⟨kind', hy⟩)

/-- A lookup finds the symbol of the innermost scope on the way out that declares the name. -/
theorem lookup_eq_some_iff (h : Sound ops b) : b.table.lookup b.tree name scope = some x ↔
    ∃ found kind, b.tree.Innermost scope (Declared ops name) found ∧
      b.table.symbol? x = some ⟨name, kind, found⟩ := by
  rw [SymbolTable.lookup, List.findSome?_eq_some_iff]
  constructor
  -- the scopes that are passed do not bind the name, which is to say that they do not declare it
  · rintro ⟨inner, found, outer, heq, hbound, hfree⟩
    obtain ⟨kind, hsymbol⟩ := (h.faithful found name x).1 hbound
    exact ⟨found, kind, ⟨inner, outer, heq, fun a ha => (h.free_iff name a).1 (hfree a ha),
      h.declared_iff.2 ⟨x, kind, hsymbol⟩⟩, hsymbol⟩
  · rintro ⟨found, kind, ⟨inner, outer, heq, hfree, -⟩, hsymbol⟩
    exact ⟨inner, found, outer, heq, (h.faithful found name x).2 ⟨kind, hsymbol⟩,
      fun a ha => (h.free_iff name a).2 (hfree a ha)⟩

theorem lookup_eq_none_iff (h : Sound ops b) : b.table.lookup b.tree name scope = none ↔
    ∀ a ∈ b.tree.ancestors scope, ¬ Declared ops name a := by
  rw [SymbolTable.lookup, List.findSome?_eq_none_iff]
  exact forall₂_congr fun a _ => h.free_iff name a

end Sound

/-- The symbol that a declaration answers is what every later one of the name in this scope answers,
without a change to the table; it is that of the first declaration. -/
theorem declare_again {earlier later : List Operation} {kind : SymbolKind}
    (hproper : Proper {} (earlier ++ .declare name kind scope :: later)) :
    let x := ((after earlier).table.declare name kind scope).1
    let last := (after (earlier ++ .declare name kind scope :: later)).table
    (∀ again, last.declare name again scope = (x, last)) ∧
      (¬ Declared earlier name scope → last.symbol? x = some ⟨name, kind, scope⟩) := by
  intro x last
  have hearlier := sound_after (proper_append.1 hproper).1
  -- the operation splits the others into what is before it and what comes later
  have hlast :
      last = (later.foldl apply ((after earlier).apply (.declare name kind scope))).table :=
    congrArg table (after_append ..)
  have hbound : last.binding? scope name = some x := by
    rw [hlast]
    exact binding?_foldl ((after earlier).table.binding?_declare_self name kind scope) later
  refine ⟨SymbolTable.declare_of_binding? hbound, fun hfirst => ?_⟩
  rw [hlast]
  -- the first declaration decides the kind of the symbol
  have hfree := (hearlier.free_iff name scope).2 hfirst
  exact symbol?_foldl (SymbolTable.symbol?_declare_of_free hfree kind) later

/-- **The binding structure is sound.** After any operations that create scopes below scopes that
there are, the scope around a scope has the smaller number, and the ancestors of a scope are the
whole way out of it, without repetition, to the global scope. Each name has one symbol in each scope
in which it is declared, that of the first declaration, which is what all later ones answer. A name
denotes the symbol of the innermost scope around that declares it and nothing if none does, and
`var` belongs to the innermost scope around of a function, an arrow function or a module or to the
global one. -/
theorem after_sound (ops : List Operation) (hproper : Proper {} ops) :
    let b := after ops
    b.tree.scopes.toList = ⟨.globalScope, none⟩ :: ops.filterMap Operation.scope? ∧
    (∀ s parent, b.tree.parent? s = some parent → parent.index < s.index) ∧
    (∀ s, s.index < b.tree.size →
      (∀ way, b.tree.Way s way ↔ way = b.tree.ancestors s) ∧
      (b.tree.ancestors s).Nodup ∧ (b.tree.ancestors s).getLast? = some ScopeTree.global ∧
      b.tree.Innermost s b.tree.KeepsVars (b.tree.varScope s) ∧
      ∀ name, (∀ x, b.table.lookup b.tree name s = some x ↔
          ∃ found kind, b.tree.Innermost s (Declared ops name) found ∧
            b.table.symbol? x = some ⟨name, kind, found⟩) ∧
        (b.table.lookup b.tree name s = none ↔
          ∀ a ∈ b.tree.ancestors s, ¬ Declared ops name a)) ∧
    (∀ name s, Declared ops name s → ∃! x, ∃ kind, b.table.symbol? x = some ⟨name, kind, s⟩) ∧
    (∀ x symbol, b.table.symbol? x = some symbol → Declared ops symbol.name symbol.scope) ∧
    ∀ earlier name kind s later, ops = earlier ++ .declare name kind s :: later →
      let x := ((after earlier).table.declare name kind s).1
      (∀ again, b.table.declare name again s = (x, b.table)) ∧
        (¬ Declared earlier name s → b.table.symbol? x = some ⟨name, kind, s⟩) := by
  intro b
  have h : Sound ops b := sound_after hproper
  refine ⟨h.scopes, h.ordered, fun s hlt => ?_, fun name s hdeclared => ?_, fun x symbol hx => ?_,
    ?_⟩
  -- a walk outwards and the search both follow the ancestors
  · have hway := h.ordered.way_ancestors hlt
    exact ⟨fun way => ⟨hway.unique, fun heq => heq ▸ hway⟩, h.nodup_ancestors hlt,
      h.getLast?_ancestors hlt, h.innermost_varScope hlt, fun _ =>
        ⟨fun _ => h.lookup_eq_some_iff, h.lookup_eq_none_iff⟩⟩
  · obtain ⟨x, kind, hx⟩ := h.declared_iff.1 hdeclared
    exact ⟨x, ⟨kind, hx⟩, fun y ⟨_, hy⟩ => h.symbol_unique hy hx⟩
  · exact h.declared_iff.2 ⟨x, symbol.kind, hx⟩
  · rintro earlier name kind s later rfl
    exact declare_again hproper

/-- A parameter hides a name of the module and keeps its symbol when the body declares it again.
From a block of the function, both the name and `var` lead to the function. -/
theorem after_sound_example :
    let earlier := [Operation.create .moduleScope ScopeTree.global, .declare "x" .constant ⟨1⟩,
      .create .functionScope ⟨1⟩]
    let ops := earlier ++ [.declare "x" .parameter ⟨2⟩, .create .blockScope ⟨2⟩,
      .declare "x" .variable ⟨2⟩, .declare "y" .constant ⟨3⟩]
    let b := after ops
    Proper {} ops ∧ b.tree.Way ⟨3⟩ [⟨3⟩, ⟨2⟩, ⟨1⟩, ⟨0⟩] ∧ b.tree.varScope ⟨3⟩ = ⟨2⟩ ∧
      b.table.lookup b.tree "x" ⟨3⟩ = some ⟨1⟩ ∧ b.table.lookup b.tree "z" ⟨3⟩ = none ∧
      b.table.symbol? ⟨1⟩ = some ⟨"x", .parameter, ⟨2⟩⟩ ∧
      b.table.declare "x" .functionName ⟨2⟩ = (⟨1⟩, b.table) := by
  intro earlier ops b
  have hproper : Proper {} ops := by decide
  obtain ⟨-, -, hscopes, -, -, hfirst⟩ := after_sound ops hproper
  obtain ⟨hway, -, -, -, hnames⟩ := hscopes ⟨3⟩ (by decide)
  have hancestors : b.tree.ancestors ⟨3⟩ = [⟨3⟩, ⟨2⟩, ⟨1⟩, ⟨0⟩] := by decide
  have hnumber : ((after earlier).table.declare "x" .parameter ⟨2⟩).1 = ⟨1⟩ := by decide +kernel
  obtain ⟨hagain, hsymbol⟩ := hfirst earlier "x" .parameter ⟨2⟩ _ rfl
  rw [hnumber] at hagain hsymbol
  have hparameter := hsymbol (by simp [Declared, earlier])
  refine ⟨hproper, (hway _).2 hancestors.symm, by decide, ?_, ?_, hparameter, hagain _⟩
  · refine ((hnames "x").1 ⟨1⟩).2 ⟨⟨2⟩, .parameter, ⟨[⟨3⟩], [⟨1⟩, ⟨0⟩], hancestors, ?_, ?_⟩,
      hparameter⟩
    · simp [Declared, ops, earlier]
    · exact ⟨.parameter, by simp [ops]⟩
  · exact (hnames "z").2.2 fun a _ => by simp [Declared, ops, earlier]

end Bindings

end CallFlow
