import CallFlow.Proofs.FileFlow.Bindings
import CallFlow.Proofs.FileFlow.Course

/-!
# What a walk resolves

`Walk.Uses` lists the names that a walk resolves, each with its place and the state by then. A walk
is made of steps, and only one kind of step resolves a name. `Walk.Refers` says that the names are
those of a list of references, and that the declared ones among them denote variables. Which scopes
are around is part of it: a walk that starts where some names are in scope resolves its references
there, and leaves behind the names that it has declared for those that come after it.

* `Use.denoted` is the vertex that a name stands for, and `Use.IsVariable` says that it is that of a
  variable which is declared in a scope around.
* `Refers` has one lemma for each kind of step. From them `Course.refers` makes it a matter of the
  legs of a walk, whatever the walk is over.
-/

namespace CallFlow

open Syntax

/-! ## Uses -/

/-- A name that a walk resolves: where, and what there is by then. -/
structure Use where
  name : String
  place : Place
  state : FileState

namespace Use

/-- The vertex that the name denotes, and the state that has it. -/
def denoted (u : Use) : VertexId × FileState := Walk.resolve u.name u.place u.state

/-- The name denotes the variable of a symbol of this name, declared in a scope around. -/
def IsVariable (u : Use) : Prop :=
  ∃ x symbol, u.denoted.2.flow.graph.vertex? u.denoted.1 = some (.var x) ∧
    u.denoted.2.flow.symbols.symbol? x = some symbol ∧ symbol.name = u.name ∧
      symbol.scope ∈ u.state.flow.scopes.ancestors u.place.scope

end Use

/-- The name that is asked for is resolved, if it is declared to a variable. -/
structure Syntax.NameReference.Answers (r : NameReference) (u : Use) : Prop where
  name : u.name = r.name
  declared : r.declared = true → u.IsVariable

namespace Walk

/-- The steps of a walk that resolve no name. The last two may ask whether a name is a global, and
only record what is offered and taken. -/
inductive Basic : {α : Type} → Walk α → Prop
  | pure {α : Type} (a : α) : Basic (Pure.pure a : Walk α)
  | read : Basic (read : Walk Place)
  | vertex {v : Vertex} (hv : v.variable? = none) : Basic (vertex v)
  | exprVertex (span : Span) : Basic (exprVertex span)
  | edge (source target : VertexId) : Basic (edge source target)
  | addFunction (name : Option String) (paramCount : Nat) (isArrow : Bool) (span : Span) :
      Basic (addFunction name paramCount isArrow span)
  | addCall (kind : CallKind) (argCount : Nat) (span : Span) :
      Basic (addCall kind argCount span)
  | declare (kind : SymbolKind) (names : List String) : Basic (declare kind names)
  | declareVars (names : List String) : Basic (declareVars names)
  | addExport (name : String) (value : VertexId) : Basic (addExport name value)
  | addImport (specifier : String) (imported : ImportedName) (target : VertexId) :
      Basic (addImport specifier imported target)
  | exportAssigned (target : Pattern) (value : Option VertexId) :
      Basic (exportAssigned target value)
  | recordRequire (chained : Bool) (callee : Expr) (args : List Expr) (call : CallId) :
      Basic (recordRequire chained callee args call)

/-- What a walk that starts at this place in this state resolves, in its order. -/
inductive Uses : {α : Type} → Walk α → Place → FileState → List Use → Prop
  | basic {α : Type} {walk : Walk α} (h : Basic walk) (place : Place) (s : FileState) :
      Uses walk place s []
  | resolve (name : String) (place : Place) (s : FileState) :
      Uses (resolve name) place s [⟨name, place, s⟩]
  | bind {α β : Type} {walk : Walk α} {next : α → Walk β} {place : Place} {s : FileState}
      {us vs : List Use} (h : Uses walk place s us)
      (h' : Uses (next (walk place s).1) place (walk place s).2 vs) :
      Uses (walk >>= next) place s (us ++ vs)
  | inScope {α : Type} {walk : Walk α} {kind : ScopeKind} {place : Place} {s : FileState}
      {us : List Use}
      (h : Uses walk { place with scope := ⟨s.flow.scopes.size⟩ }
        (s.createScope kind place.scope) us) :
      Uses (inScope kind walk) place s us
  | inFunction {α : Type} {walk : Walk α} {change : Place → Place} {place : Place}
      {s : FileState} {us : List Use} (h : Uses walk (change place) s us) :
      Uses (withReader change walk) place s us

end Walk

/-! ## What a walk leaves in place -/

namespace FlowState

/-- All that there was is there, and names are bound to their own symbols if they were. -/
structure Continues (s t : FlowState) : Prop where
  later : s.Later t
  faithful : s.symbols.Faithful → t.symbols.Faithful

namespace Continues

variable {s t u : FlowState}

theorem refl (s : FlowState) : s.Continues s := ⟨.refl s, id⟩

theorem trans (h : s.Continues t) (h' : t.Continues u) : s.Continues u :=
  ⟨h.later.trans h'.later, fun hs => h'.faithful (h.faithful hs)⟩

theorem of_eq (h : t = s) : s.Continues t := h ▸ .refl s

/-- Names that are declared take nothing away. -/
theorem declareAll (scope : ScopeId) (kind : SymbolKind) (names : List String) (place : Place)
    (s : FileState) :
    s.flow.Continues ((names.forM (Walk.declareIn scope kind)) place s).2.flow := by
  induction names generalizing s with
  | nil => exact .refl _
  | cons name names ih =>
    exact trans ⟨.declare s name kind scope, fun hs => hs.declare name kind scope⟩
      (ih (s.declare name kind scope))

end Continues

end FlowState

namespace Walk

variable {α β : Type}

/-- An assignment to `module.exports` only changes the record. -/
theorem flow_exportAssigned (target : Pattern) (value : Option VertexId) (place : Place)
    (s : FileState) : (exportAssigned target value place s).2.flow = s.flow := by
  unfold exportAssigned
  split
  · show ((if (s.flow.symbols.lookup s.flow.scopes "module" place.scope).isNone then _ else _ :
      Walk Unit) place s).2.flow = s.flow
    split
    · cases value <;> rfl
    · rfl
  · rfl

/-- So does a call of `require`. -/
theorem flow_recordRequire (chained : Bool) (callee : Expr) (args : List Expr) (call : CallId)
    (place : Place) (s : FileState) :
    (recordRequire chained callee args call place s).2.flow = s.flow := by
  unfold recordRequire
  cases chained with
  | true => rfl
  | false =>
    cases requiredSpecifier? callee args with
    | none => rfl
    | some specifier =>
      show ((if (s.flow.symbols.lookup s.flow.scopes "require" place.scope).isNone then _ else _ :
        Walk Unit) place s).2.flow = s.flow
      split <;> rfl

/-- A step that resolves nothing takes nothing away. -/
theorem Basic.continues {walk : Walk α} (h : Basic walk) (place : Place) (s : FileState) :
    s.flow.Continues (walk place s).2.flow := by
  cases h with
  | pure | read | addExport | addImport => exact .refl s.flow
  | vertex hv => exact ⟨.intern s _, id⟩
  | exprVertex span => exact ⟨.intern s _, id⟩
  | edge source target => exact ⟨.addEdge s source target, id⟩
  | addFunction => exact ⟨.addFunction s _, id⟩
  | addCall => exact ⟨.addCall s _, id⟩
  | declare kind names => exact .declareAll place.scope kind names place s
  | declareVars names => exact .declareAll _ .variable names place s
  | exportAssigned target value => exact .of_eq (flow_exportAssigned target value place s)
  | recordRequire chained callee args call =>
    exact .of_eq (flow_recordRequire chained callee args call place s)

/-- The vertex that a name denotes. -/
theorem resolve_eq (name : String) (place : Place) (s : FileState) :
    resolve name place s = vertex
      (((s.flow.symbols.lookup s.flow.scopes name place.scope).map Vertex.var).getD (.prop name))
      place s := by
  have hlookup (next : Option SymbolId → Walk VertexId) : (lookup name >>= next) place s =
      next (s.flow.symbols.lookup s.flow.scopes name place.scope) place s := rfl
  rw [resolve, hlookup]
  cases s.flow.symbols.lookup s.flow.scopes name place.scope <;> rfl

theorem continues_resolve (name : String) (place : Place) (s : FileState) :
    s.flow.Continues (resolve name place s).2.flow := by
  rw [resolve_eq]
  exact ⟨.intern s _, id⟩

/-- A walk takes nothing away. -/
theorem Uses.continues {walk : Walk α} {place : Place} {s : FileState} {us : List Use}
    (h : Uses walk place s us) : s.flow.Continues (walk place s).2.flow := by
  induction h with
  | basic h place s => exact h.continues place s
  | resolve name place s => exact continues_resolve name place s
  | bind _ _ ih ih' => exact ih.trans ih'
  | @inScope _ _ kind place s _ _ ih => exact .trans ⟨.createScope s kind place.scope, id⟩ ih
  | inFunction _ ih => exact ih

end Walk

/-! ## What is in scope -/

namespace FlowState

/-- Each of these names is declared in this scope or in one around it, and to one of these scopes
a `var` belongs. -/
structure Sees (s : FlowState) (scope : ScopeId) (names : List String) : Prop where
  faithful : s.symbols.Faithful
  hoists : ∃ around ∈ s.scopes.ancestors scope, ∃ found, s.scopes.scope? around = some found ∧
    found.kind.hoistsVars = true
  bound : ∀ name ∈ names, ∃ around ∈ s.scopes.ancestors scope, ∃ x,
    s.symbols.binding? around name = some x

namespace Sees

variable {s t : FlowState} {scope : ScopeId} {names names' : List String}

theorem mono (h : s.Sees scope names) (hsub : names' ⊆ names) : s.Sees scope names' :=
  { h with bound := fun name hname => h.bound name (hsub hname) }

theorem append (h : s.Sees scope names) (h' : s.Sees scope names') :
    s.Sees scope (names ++ names') :=
  { h with
    bound := fun name hname => (List.mem_append.1 hname).elim (h.bound name) (h'.bound name) }

/-- What is in scope stays so. -/
theorem continues (h : s.Sees scope names) (ht : s.Continues t) : t.Sees scope names where
  faithful := ht.faithful h.faithful
  hoists := by
    obtain ⟨around, hmem, found, hfound, hhoists⟩ := h.hoists
    exact ⟨around, ht.later.mem_ancestors hmem, found, ht.later.scopes around found hfound, hhoists⟩
  bound name hname := by
    obtain ⟨around, hmem, x, hx⟩ := h.bound name hname
    exact ⟨around, ht.later.mem_ancestors hmem, x, ht.later.bindings around name x hx⟩

theorem size_pos (h : s.Sees scope names) : 0 < s.scopes.size := by
  obtain ⟨_, _, found, hfound, _⟩ := h.hoists
  exact (Nat.zero_le _).trans_lt (Array.getElem?_eq_some_iff.1 hfound).1

theorem self_mem_ancestors (h : s.Sees scope names) : scope ∈ s.scopes.ancestors scope :=
  s.scopes.self_mem_ancestors h.size_pos scope

/-- The scope that a `var` belongs to is one of those around. -/
theorem varScope_mem_ancestors (h : s.Sees scope names) :
    s.scopes.varScope scope ∈ s.scopes.ancestors scope := by
  obtain ⟨around, hmem, found, hfound, hhoists⟩ := h.hoists
  have hsome : ((s.scopes.ancestors scope).find? fun s' =>
      (s.scopes.kind? s').any ScopeKind.hoistsVars).isSome :=
    List.find?_isSome.2 ⟨around, hmem, by simp [ScopeTree.kind?, hfound, hhoists]⟩
  obtain ⟨kept, hkept⟩ := Option.isSome_iff_exists.1 hsome
  rw [ScopeTree.varScope, hkept]
  exact List.mem_of_find?_eq_some hkept

/-- A scope that is opened sees what is seen around it. -/
theorem create {s : FileState} (h : s.flow.Sees scope names) (kind : ScopeKind) :
    (s.createScope kind scope).flow.Sees ⟨s.flow.scopes.size⟩ names := by
  have hlater := Later.createScope s kind scope
  refine ⟨h.faithful, ?_, fun name hname => ?_⟩
  · obtain ⟨around, haround, found, hfound, hhoists⟩ := h.hoists
    exact ⟨around, Later.mem_ancestors_createScope kind haround, found,
      hlater.scopes around found hfound, hhoists⟩
  · obtain ⟨around, haround, x, hx⟩ := h.bound name hname
    exact ⟨around, Later.mem_ancestors_createScope kind haround, x, hx⟩

/-- What is declared in one of the scopes around is in scope. -/
theorem declareAll {s : FileState} {place : Place} {root : ScopeId}
    (h : s.flow.Sees place.scope names) (hroot : root ∈ s.flow.scopes.ancestors place.scope)
    (kind : SymbolKind) (declared : List String) :
    ((declared.forM (Walk.declareIn root kind)) place s).2.flow.Sees place.scope declared := by
  induction declared generalizing s with
  | nil => exact h.mono (List.nil_subset names)
  | cons name declared ih =>
    have hone : s.flow.Continues (s.declare name kind root).flow :=
      ⟨.declare s name kind root, fun hs => hs.declare name kind root⟩
    have hbound : (s.declare name kind root).flow.Sees place.scope [name] := by
      refine { h.continues hone with bound := fun x hx => ?_ }
      obtain rfl := List.mem_singleton.1 hx
      have hdeclared := s.flow.symbols.binding?_declare x kind root root x
      rw [if_pos ⟨rfl, rfl⟩] at hdeclared
      exact ⟨root, hroot, _, hdeclared⟩
    have hrest := Continues.declareAll root kind declared place (s.declare name kind root)
    exact (hbound.continues hrest).append (ih (h.continues hone) hroot)

end Sees

/-- A name that is in scope is resolved to the variable of its symbol. -/
theorem Sees.isVariable {s : FileState} {place : Place} {names : List String}
    (h : s.flow.Sees place.scope names) {name : String} (hname : name ∈ names) :
    (⟨name, place, s⟩ : Use).IsVariable := by
  obtain ⟨around, hmem, x, hx⟩ := h.bound name hname
  have hfound : (s.flow.symbols.lookup s.flow.scopes name place.scope).isSome :=
    List.findSome?_isSome_iff.2 ⟨around, hmem, Option.isSome_iff_exists.2 ⟨x, hx⟩⟩
  obtain ⟨y, hy⟩ := Option.isSome_iff_exists.1 hfound
  obtain ⟨inner, hinner, hbinding⟩ := List.exists_of_findSome?_eq_some hy
  obtain ⟨kind, hsymbol⟩ := (h.faithful inner name y).1 hbinding
  refine ⟨y, ⟨name, kind, inner⟩, ?_, ?_, rfl, hinner⟩ <;>
    rw [Use.denoted, Walk.resolve_eq, hy]
  · exact (FlowGraph.find?_eq_some_iff ..).1 (FlowGraph.find?_intern_self s.flow.graph (.var y))
  · exact hsymbol

end FlowState

namespace Walk

variable {α β : Type}

/-! ## Walks that answer references -/

/-- Where the `names` are in scope, and `this` has a vertex or not as `receiver` says, the walk
resolves the names of these references, the declared ones to variables. `after` is in scope once it
is done. -/
def Refers (walk : Walk α) (receiver : Bool) (names : List String)
    (references : List NameReference) (after : List String) : Prop :=
  ∀ (place : Place) (s : FileState), place.receiver.isSome = receiver →
    s.flow.Sees place.scope names →
    (∃ uses, walk.Uses place s uses ∧ List.Forall₂ NameReference.Answers references uses) ∧
      (walk place s).2.flow.Sees place.scope after

namespace Refers

variable {walk : Walk α} {next : α → Walk β} {receiver : Bool} {names names' : List String}
  {rs rs' : List NameReference} {after after' : List String} {P : α → Prop}

/-- A walk that resolves no name. -/
theorem quiet (h : ∀ (place : Place) (s : FileState), walk.Uses place s []) :
    walk.Refers receiver names [] names :=
  fun place s _ hsees => ⟨⟨[], h place s, .nil⟩, hsees.continues (h place s).continues⟩

theorem basic (h : Basic walk) : walk.Refers receiver names [] names :=
  quiet fun place s => .basic h place s

/-- Two walks one after the other, where something is known of the result of the first. What is in
scope after the first is so before the second. -/
theorem bindOf (hresult : ∀ (place : Place) (s : FileState), place.receiver.isSome = receiver →
      P (walk place s).1)
    (h : walk.Refers receiver names rs after)
    (hnext : ∀ a, P a → (next a).Refers receiver after rs' after') :
    (walk >>= next).Refers receiver names (rs ++ rs') after' := by
  intro place s hplace hsees
  obtain ⟨⟨us, hus, hanswers⟩, hafter⟩ := h place s hplace hsees
  obtain ⟨⟨vs, hvs, hanswers'⟩, hafter'⟩ :=
    hnext _ (hresult place s hplace) place (walk place s).2 hplace hafter
  exact ⟨⟨us ++ vs, .bind hus hvs, List.rel_append hanswers hanswers'⟩, hafter'⟩

/-- Two walks one after the other, the second of which finds the names that the first one leaves. -/
theorem bind (h : walk.Refers receiver names rs after)
    (hnext : ∀ a, (next a).Refers receiver after rs' after') :
    (walk >>= next).Refers receiver names (rs ++ rs') after' :=
  bindOf (P := fun _ => True) (fun _ _ _ => trivial) h fun a _ => hnext a

/-- A step that resolves no name. -/
theorem silent (h : walk.Refers receiver names [] after)
    (hnext : ∀ a, (next a).Refers receiver after rs after') :
    (walk >>= next).Refers receiver names rs after' :=
  h.bind hnext

theorem congr (h : walk.Refers receiver names rs after) (hrs : rs = rs') (hafter : after = after') :
    walk.Refers receiver names rs' after' :=
  hrs ▸ hafter ▸ h

/-- The last walk that resolves any name. -/
theorem ending (h : walk.Refers receiver names rs after)
    (hnext : ∀ a, (next a).Refers receiver after [] after') :
    (walk >>= next).Refers receiver names rs after' :=
  (h.bind hnext).congr (List.append_nil rs) rfl

/-- More names may be in scope before, and fewer need to be afterwards. -/
theorem weaken (h : walk.Refers receiver names rs after) (hnames : names ⊆ names')
    (hafter : after' ⊆ after) : walk.Refers receiver names' rs after' :=
  fun place s hplace hsees =>
    (h place s hplace (hsees.mono hnames)).imp_right fun hsees' => hsees'.mono hafter

/-- What is in scope before a walk is so afterwards. -/
theorem keep (h : walk.Refers receiver names rs after) (hnames : names ⊆ names') :
    walk.Refers receiver names' rs names' :=
  fun place s hplace hsees => by
    obtain ⟨⟨us, hus, hanswers⟩, -⟩ := h place s hplace (hsees.mono hnames)
    exact ⟨⟨us, hus, hanswers⟩, hsees.continues hus.continues⟩

/-- A name that is not declared may be resolved to anything. -/
theorem resolve (name : String) :
    (resolve name).Refers receiver names [.of names name] names := by
  intro place s _ hsees
  refine ⟨⟨_, .resolve name place s, .cons ⟨rfl, fun hdeclared => ?_⟩ .nil⟩,
    hsees.continues (continues_resolve name place s)⟩
  exact hsees.isVariable (List.contains_iff_mem.1 hdeclared)

/-- What is declared in a scope is forgotten with it. -/
theorem inScope (kind : ScopeKind) (h : walk.Refers receiver names rs after) :
    (inScope kind walk).Refers receiver names rs names := by
  intro place s hplace hsees
  obtain ⟨⟨us, hus, hanswers⟩, -⟩ :=
    h { place with scope := ⟨s.flow.scopes.size⟩ } (s.createScope kind place.scope) hplace
      (hsees.create kind)
  have hall : (Walk.inScope kind walk).Uses place s us := .inScope hus
  exact ⟨⟨us, hall, hanswers⟩, hsees.continues hall.continues⟩

/-- A function has its own receiver, unless it is an arrow. -/
theorem inFunction {f : FunctionId} {isArrow : Bool}
    (h : walk.Refers (if isArrow then receiver else true) names rs after) :
    Refers (withReader (fun place => { place with
      function := some f
      receiver := if isArrow then place.receiver else some f }) walk) receiver names rs after := by
  intro place s hplace hsees
  have hreceiver : (if isArrow then place.receiver else some f).isSome =
      if isArrow then receiver else true := by
    cases isArrow with
    | true => exact hplace
    | false => rfl
  obtain ⟨⟨us, hus, hanswers⟩, hafter⟩ :=
    h { place with function := some f, receiver := _ } s hreceiver hsees
  exact ⟨⟨us, .inFunction hus, hanswers⟩, hafter⟩

theorem declare (kind : SymbolKind) (declared : List String) :
    (declare kind declared).Refers receiver names [] (declared ++ names) := by
  refine fun place s _ hsees => ⟨⟨[], .basic (.declare kind declared) place s, .nil⟩, ?_⟩
  exact (hsees.declareAll hsees.self_mem_ancestors kind declared).append
    (hsees.continues ((Basic.declare kind declared).continues place s))

theorem declareVars (declared : List String) :
    (declareVars declared).Refers receiver names [] (declared ++ names) := by
  refine fun place s _ hsees => ⟨⟨[], .basic (.declareVars declared) place s, .nil⟩, ?_⟩
  exact (hsees.declareAll hsees.varScope_mem_ancestors .variable declared).append
    (hsees.continues ((Basic.declareVars declared).continues place s))

end Refers

end Walk

end CallFlow
