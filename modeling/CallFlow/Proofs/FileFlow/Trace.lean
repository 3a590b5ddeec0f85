import CallFlow.Proofs.FileFlow.Uses

/-!
# What a walk does with names

`Walk.Runs` lists, in their order, what a walk does with names: the names that it resolves and
declares and the functions that it enters, each with its place, with the state by then, and with the
kinds of the scopes opened on the way there. No step of a walk that does such a thing can be left
out of the list. What holds of a walk for each of these events is shown by induction on its steps.
-/

namespace CallFlow

open Syntax

/-- A kind of scope in which a `var` of the body around may stand: a block of the body itself. -/
def ScopeKind.nests : ScopeKind → Bool
  | .blockScope | .forScope | .catchScope => true
  | .globalScope | .moduleScope | .functionScope | .arrowScope | .classScope => false

/-! ## Events -/

/-- What a walk does with names. -/
inductive Act
  | resolve (name : String)
  /-- Declares names in the scope that the walk is in. -/
  | declare (kind : SymbolKind) (names : List String)
  /-- Declares names in the scope that `var` belongs to. -/
  | vars (names : List String)
  /-- Enters a function. -/
  | function (name own : Option String) (isArrow : Bool) (f : Func)

namespace Act

/-- The names that `var` declares there. -/
def varNames : Act → List String
  | .vars names => names
  | .resolve _ | .declare _ _ | .function _ _ _ _ => []

/-- Whether a name is declared other than by `var`. -/
def isDeclare : Act → Bool
  | .declare _ _ => true
  | .resolve _ | .vars _ | .function _ _ _ _ => false

end Act

/-- An act with its place, the state before it, and the scopes opened on the way to it, the
outermost first. -/
structure Event where
  act : Act
  place : Place
  state : FileState
  within : List ScopeKind := []

namespace Event

/-- The event as seen from outside of a scope. -/
def inside (kind : ScopeKind) (e : Event) : Event :=
  { e with within := kind :: e.within }

/-- The names declared by `var`, where all scopes on the way to them let them pass. -/
def varsThrough (passes : ScopeKind → Bool) (es : List Event) : List String :=
  es.flatMap fun e => if e.within.all passes then e.act.varNames else []

variable {passes : ScopeKind → Bool}

theorem varsThrough_append (es es' : List Event) :
    varsThrough passes (es ++ es') = varsThrough passes es ++ varsThrough passes es' :=
  List.flatMap_append

/-- Through a scope that does not let `var` pass nothing is declared. -/
theorem varsThrough_inside (kind : ScopeKind) (es : List Event) :
    varsThrough passes (es.map (inside kind)) =
      if passes kind then varsThrough passes es else [] := by
  have hone : ∀ e : Event, (if (e.inside kind).within.all passes then (e.inside kind).act.varNames
      else []) =
      if passes kind then (if e.within.all passes then e.act.varNames else []) else [] := by
    intro e
    simp only [inside, List.all_cons, Bool.and_eq_true]
    split <;> simp_all
  rw [varsThrough, List.flatMap_map]
  simp only [hone]
  split
  · rfl
  · simp

/-- A name comes from an event that is only inside of scopes which let `var` pass. -/
theorem mem_varsThrough {es : List Event} {name : String} :
    name ∈ varsThrough passes es ↔
      ∃ e ∈ es, e.within.all passes = true ∧ name ∈ e.act.varNames := by
  rw [varsThrough, List.mem_flatMap]
  refine exists_congr fun e => and_congr_right fun _ => ?_
  split <;> simp_all

end Event

namespace Walk

/-! ## Entering a function -/

/-- A function that has just been registered, with its scope open and nothing declared in it. -/
structure Entry where
  id : FunctionId
  value : VertexId
  place : Place
  state : FileState

/-- The kind of the scope of a function. -/
def functionKind (isArrow : Bool) : ScopeKind :=
  if isArrow then .arrowScope else .functionScope

/-- How the walk enters a function. -/
def entry (name : Option String) (isArrow : Bool) (f : Func) (place : Place) (s : FileState) :
    Entry :=
  let (id, registered) :=
    addFunction name (f.params.countP Param.isSlotted) isArrow f.span place s
  let (value, named) := vertex (.func id) place registered
  { id, value
    place := { place with
      scope := ⟨named.flow.scopes.size⟩
      function := some id
      receiver := if isArrow then place.receiver else some id }
    state := named.createScope (functionKind isArrow) place.scope }

/-- Everything in a function is declared before its parameters are bound. -/
theorem visitFunction_eq (name own : Option String) (isArrow : Bool) (f : Func) (place : Place)
    (s : FileState) :
    visitFunction name own isArrow f place s =
      let e := entry name isArrow f place s
      (e.id, (walkInside e.id f e.place (declareHead e.value own f e.place e.state).2).2) := by
  obtain ⟨params, body, span⟩ := f
  rw [visitFunction]
  rfl

end Walk

/-- The routine is back where it was when the body has been walked. -/
theorem Routine.visitFunction_apply (name own : Option String) (isArrow : Bool) (f : Func)
    (place : Place) (s : FileState) :
    visitFunction name own isArrow f place s =
      let e := Walk.entry name isArrow f place s
      let entered := (Walk.declareHead e.value own f e.place e.state).2
      ((e.id, place), (Walk.walkInside e.id f e.place entered).2) := by
  rw [visitFunction_eq]
  exact congrArg (fun r : FunctionId × FileState => ((r.1, place), r.2))
    (Walk.visitFunction_eq name own isArrow f place s)

namespace Walk

/-! ## Runs -/

/-- The steps of a walk that do nothing with names but to ask whether one is a global. -/
inductive Plain : {α : Type} → Walk α → Prop
  | pure {α : Type} (a : α) : Plain (Pure.pure a : Walk α)
  | read : Plain (read : Walk Place)
  | vertex {v : Vertex} (hv : v.variable? = none) : Plain (vertex v)
  | exprVertex (span : Span) : Plain (exprVertex span)
  | edge (source target : VertexId) : Plain (edge source target)
  | addCall (kind : CallKind) (argCount : Nat) (span : Span) : Plain (addCall kind argCount span)
  | addExport (name : String) (value : VertexId) : Plain (addExport name value)
  | addImport (specifier : String) (imported : ImportedName) (target : VertexId) :
      Plain (addImport specifier imported target)
  | exportAssigned (target : Pattern) (value : Option VertexId) :
      Plain (exportAssigned target value)
  | recordRequire (chained : Bool) (callee : Expr) (args : List Expr) (call : CallId) :
      Plain (recordRequire chained callee args call)

/-- What a walk that starts at this place in this state does with names, in its order. -/
inductive Runs : {α : Type} → Walk α → Place → FileState → List Event → Prop
  | plain {α : Type} {walk : Walk α} (h : Plain walk) (place : Place) (s : FileState) :
      Runs walk place s []
  | resolve (name : String) (place : Place) (s : FileState) :
      Runs (resolve name) place s [{ act := .resolve name, place, state := s }]
  | declare (kind : SymbolKind) (names : List String) (place : Place) (s : FileState) :
      Runs (declare kind names) place s [{ act := .declare kind names, place, state := s }]
  | declareVars (names : List String) (place : Place) (s : FileState) :
      Runs (declareVars names) place s [{ act := .vars names, place, state := s }]
  | bind {α β : Type} {walk : Walk α} {next : α → Walk β} {place : Place} {s : FileState}
      {es es' : List Event} (h : Runs walk place s es)
      (h' : Runs (next (walk place s).1) place (walk place s).2 es') :
      Runs (walk >>= next) place s (es ++ es')
  | inScope {α : Type} {walk : Walk α} {kind : ScopeKind} {place : Place} {s : FileState}
      {es : List Event}
      (h : Runs walk { place with scope := ⟨s.flow.scopes.size⟩ }
        (s.createScope kind place.scope) es) :
      Runs (inScope kind walk) place s (es.map (Event.inside kind))
  | function {name own : Option String} {isArrow : Bool} {f : Func} {place : Place}
      {s : FileState} {es : List Event}
      (h : Runs (do
          declareHead (entry name isArrow f place s).value own f
          walkInside (entry name isArrow f place s).id f)
        (entry name isArrow f place s).place (entry name isArrow f place s).state es) :
      Runs (visitFunction name own isArrow f) place s
        ({ act := .function name own isArrow f, place, state := s } ::
          es.map (Event.inside (functionKind isArrow)))

/-! ### What a run leaves in place -/

/-- What does nothing with names does nothing else that matters for them. -/
theorem Plain.basic {α : Type} {walk : Walk α} (h : Plain walk) : Basic walk := by
  cases h with
  | pure a => exact .pure a
  | read => exact .read
  | vertex hv => exact .vertex hv
  | exprVertex span => exact .exprVertex span
  | edge source target => exact .edge source target
  | addCall kind argCount span => exact .addCall kind argCount span
  | addExport name value => exact .addExport name value
  | addImport specifier imported target => exact .addImport specifier imported target
  | exportAssigned target value => exact .exportAssigned target value
  | recordRequire chained callee args call => exact .recordRequire chained callee args call

/-- Nothing is declared and no scope is opened. -/
theorem Plain.scopes_symbols {α : Type} {walk : Walk α} (h : Plain walk) (place : Place)
    (s : FileState) : (walk place s).2.flow.scopes = s.flow.scopes ∧
      (walk place s).2.flow.symbols = s.flow.symbols := by
  cases h with
  | exportAssigned target value =>
    rw [flow_exportAssigned]
    exact ⟨rfl, rfl⟩
  | recordRequire chained callee args call =>
    rw [flow_recordRequire]
    exact ⟨rfl, rfl⟩
  | _ => exact ⟨rfl, rfl⟩

theorem continues_entry (name : Option String) (isArrow : Bool) (f : Func) (place : Place)
    (s : FileState) : s.flow.Continues (entry name isArrow f place s).state.flow := by
  exact ⟨.trans (.addFunction s _) (.trans (.intern _ _) (.createScope _ _ place.scope)), id⟩

variable {α : Type} {walk : Walk α} {place : Place} {s : FileState} {es : List Event}

/-- The state after a walk continues the one before it. -/
theorem Runs.continues (h : Runs walk place s es) : s.flow.Continues (walk place s).2.flow := by
  induction h with
  | plain h place s => exact h.basic.continues place s
  | resolve name place s => exact continues_resolve name place s
  | declare kind names place s => exact (Basic.declare kind names).continues place s
  | declareVars names place s => exact (Basic.declareVars names).continues place s
  | bind _ _ ih ih' => exact ih.trans ih'
  | @inScope _ _ kind place s _ _ ih => exact .trans ⟨.createScope s kind place.scope, id⟩ ih
  | @function name own isArrow f place s _ _ ih =>
    rw [visitFunction_eq]
    exact (continues_entry name isArrow f place s).trans ih

/-- All that there was is there at each event. -/
theorem Runs.continues_of_mem (h : Runs walk place s es) :
    ∀ e ∈ es, s.flow.Continues e.state.flow := by
  induction h with
  | plain => exact List.forall_mem_nil _
  | resolve name place s | declare kind names place s | declareVars names place s =>
    exact List.forall_mem_singleton.2 (.refl s.flow)
  | bind h _ ih ih' =>
    exact List.forall_mem_append.2 ⟨ih, fun e he => h.continues.trans (ih' e he)⟩
  | @inScope _ _ kind place s _ _ ih =>
    exact List.forall_mem_map.2 fun e he =>
      .trans ⟨.createScope s kind place.scope, id⟩ (ih e he)
  | @function name own isArrow f place s _ _ ih =>
    exact List.forall_mem_cons.2 ⟨.refl s.flow, List.forall_mem_map.2 fun e he =>
      (continues_entry name isArrow f place s).trans (ih e he)⟩

end Walk

end CallFlow
