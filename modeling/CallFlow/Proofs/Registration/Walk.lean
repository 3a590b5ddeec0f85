import CallFlow.Proofs.FileFlow.Restoring
import CallFlow.Proofs.Registration.Once

/-!
# What a walk registers

`Walk.Registers` says of a walk that it adds to the program exactly the sites of a list of visits,
each in the file that is walked, and something about its result. Walks that add nothing are
`Silent`. Both are put together step by step, so that the lemma about a piece of syntax follows
the walk over it.
-/

namespace CallFlow

open Syntax

/-- The program has grown by these sites of one file, in this order; nothing else has changed. -/
structure Program.Gains (file : FileId) (sites : List Site) (before after : Program) : Prop where
  files : after.files = before.files
  functions : ∃ added, after.functions.toList = before.functions.toList ++ added ∧
    added.map (fun f => (f.file, f.location.span)) =
      (sites.filterMap Site.functionSpan?).map fun span => (file, span)
  calls : ∃ added, after.calls.toList = before.calls.toList ++ added ∧
    added.map (fun c => (c.file, c.kind, c.location.span)) =
      (sites.filterMap Site.callSpan?).map fun call => (file, call)

namespace Program.Gains

variable {file : FileId} {s t : List Site} {p q r : Program}

theorem refl (file : FileId) (p : Program) : Gains file [] p p :=
  ⟨rfl, ⟨[], (List.append_nil _).symm, rfl⟩, ⟨[], (List.append_nil _).symm, rfl⟩⟩

/-- First the entries of the one walk, then those of the other. -/
theorem trans (h : Gains file s p q) (h' : Gains file t q r) : Gains file (s ++ t) p r := by
  obtain ⟨fs, hfs, hfs'⟩ := h.functions
  obtain ⟨fs₂, hfs₂, hfs₂'⟩ := h'.functions
  obtain ⟨cs, hcs, hcs'⟩ := h.calls
  obtain ⟨cs₂, hcs₂, hcs₂'⟩ := h'.calls
  refine ⟨h'.files.trans h.files, ⟨fs ++ fs₂, ?_, ?_⟩, ⟨cs ++ cs₂, ?_, ?_⟩⟩
  · rw [hfs₂, hfs, List.append_assoc]
  · rw [List.map_append, hfs', hfs₂', List.filterMap_append, List.map_append]
  · rw [hcs₂, hcs, List.append_assoc]
  · rw [List.map_append, hcs', hcs₂', List.filterMap_append, List.map_append]

end Program.Gains

namespace Walk

variable {α β : Type}

/-! ## Walks that register nothing -/

/-- Whatever the place and the state, the program stays as it is. -/
def Silent (walk : Walk α) : Prop :=
  ∀ (place : Place) (s : FileState), (walk place s).2.flow.program = s.flow.program

namespace Silent

theorem pure (a : α) : Silent (Pure.pure a : Walk α) := fun _ _ => rfl

theorem bind {walk : Walk α} {next : α → Walk β} (h : Silent walk)
    (hnext : ∀ a, Silent (next a)) : Silent (walk >>= next) :=
  fun place s => (hnext _ place _).trans (h place s)

theorem forM {γ : Type} (f : γ → Walk Unit) (hf : ∀ c, Silent (f c)) (cs : List γ) :
    Silent (cs.forM f) := by
  induction cs with
  | nil => exact .pure ()
  | cons c cs ih => exact (hf c).bind fun _ => ih

theorem vertex (v : Vertex) : Silent (vertex v) := fun _ _ => rfl

theorem edge (source target : VertexId) : Silent (edge source target) := fun _ _ => rfl

theorem exprVertex (span : Span) : Silent (exprVertex span) := fun _ _ => rfl

theorem declareIn (scope : ScopeId) (kind : SymbolKind) (name : String) :
    Silent (declareIn scope kind name) := fun _ _ => rfl

theorem declare (kind : SymbolKind) (names : List String) : Silent (declare kind names) :=
  fun place => forM (Walk.declareIn place.scope kind) (.declareIn place.scope kind) names place

theorem declareVars (names : List String) : Silent (declareVars names) :=
  fun place s => forM _ (.declareIn (s.flow.scopes.varScope place.scope) .variable) names place s

theorem lookup (name : String) : Silent (lookup name) := fun _ _ => rfl

/-- An unresolved name gets a vertex for the global of that name, which is no entry of the program.
-/
theorem resolve (name : String) : Silent (resolve name) := by
  refine (Silent.lookup name).bind fun symbol => ?_
  cases symbol with
  | none => exact .vertex _
  | some symbol => exact .vertex _

theorem isGlobal (name : String) : Silent (isGlobal name) :=
  (Silent.lookup name).bind fun _ => .pure _

theorem addExport (name : String) (value : VertexId) : Silent (addExport name value) :=
  fun _ _ => rfl

theorem addImport (specifier : String) (imported : ImportedName) (target : VertexId) :
    Silent (addImport specifier imported target) := fun _ _ => rfl

theorem addRequire (specifier : String) (call : CallId) : Silent (addRequire specifier call) :=
  fun _ _ => rfl

/-- The value is recorded as an export if the target is `module.exports` and names the global. -/
theorem exportAssigned (target : Pattern) (value : Option VertexId) :
    Silent (exportAssigned target value) := by
  unfold Walk.exportAssigned
  split
  · refine (Silent.isGlobal "module").bind fun isGlobal => ?_
    -- a local called `module` exports nothing
    cases isGlobal with
    | false => exact .pure ()
    | true =>
      cases value with
      | none => exact .pure ()
      | some value => exact .addExport _ _
  · exact .pure ()

/-- A call of `require` notes the file it names. The call has been registered by then. -/
theorem recordRequire (chained : Bool) (callee : Expr) (args : List Expr) (call : CallId) :
    Silent (recordRequire chained callee args call) := by
  unfold Walk.recordRequire
  split
  · refine (Silent.isGlobal "require").bind fun isGlobal => ?_
    cases isGlobal with
    | false => exact .pure ()
    | true => exact .addRequire _ _
  · exact .pure ()

end Silent

/-! ## Walks that register sites -/

/-- Where `this` has a vertex or not as `receiver` says, the walk registers the sites of these
visits in their order. -/
def Registers (walk : Walk α) (receiver : Bool) (visits : List Visit) : Prop :=
  ∀ (place : Place) (s : FileState), place.receiver.isSome = receiver →
    s.flow.program.Gains place.file (visits.map Visit.site) (walk place s).2.flow.program

namespace Registers

variable {walk : Walk α} {next : α → Walk β} {receiver : Bool} {u v : List Visit}

theorem of_silent (h : Silent walk) : Registers walk receiver [] := by
  intro place s _
  rw [h place s]
  exact .refl place.file s.flow.program

/-- Two walks one after the other, where something is known of the result of the first. -/
theorem bindOf {P : α → Prop} (hresult : ∀ (place : Place) (s : FileState),
      place.receiver.isSome = receiver → P (walk place s).1)
    (h : walk.Registers receiver u) (hnext : ∀ a, P a → (next a).Registers receiver v) :
    (walk >>= next).Registers receiver (u ++ v) := by
  intro place s hplace
  rw [List.map_append]
  exact (h place s hplace).trans (hnext _ (hresult place s hplace) place (walk place s).2 hplace)

theorem bind (h : walk.Registers receiver u) (hnext : ∀ a, (next a).Registers receiver v) :
    (walk >>= next).Registers receiver (u ++ v) :=
  bindOf (P := fun _ => True) (fun _ _ _ => trivial) h fun a _ => hnext a

/-- A step that registers nothing. -/
theorem silent (h : Silent walk) (hnext : ∀ a, (next a).Registers receiver v) :
    (walk >>= next).Registers receiver v :=
  bind (of_silent h) hnext

theorem congr (h : walk.Registers receiver u) (huv : u = v) : walk.Registers receiver v :=
  huv ▸ h

/-- The last walk that registers anything. -/
theorem ending (h : walk.Registers receiver u) (hnext : ∀ a, Silent (next a)) :
    (walk >>= next).Registers receiver u :=
  (h.bind fun a => of_silent (hnext a)).congr (List.append_nil u)

/-- A walk that was made before registers the same sites again. -/
theorem again (h : walk.Registers receiver u) :
    walk.Registers receiver (u.map Visit.repeated) := by
  intro place s hplace
  rw [List.map_map]
  exact h place s hplace

theorem inScope (kind : ScopeKind) (h : walk.Registers receiver u) :
    (inScope kind walk).Registers receiver u :=
  fun place s hplace =>
    h { place with scope := (s.flow.scopes.create kind place.scope).1 }
      { s with flow := { s.flow with scopes := (s.flow.scopes.create kind place.scope).2 } } hplace

/-- A function has its own receiver, unless it is an arrow. -/
theorem inFunction {f : FunctionId} {isArrow : Bool}
    (h : walk.Registers (if isArrow then receiver else true) u) :
    Registers (withReader (fun place => { place with
      function := some f
      receiver := if isArrow then place.receiver else some f }) walk) receiver u := by
  intro place s hplace
  refine h { place with function := some f, receiver := _ } s ?_
  -- an arrow keeps the receiver around it, any other function is its own
  cases isArrow with
  | true => exact hplace
  | false => rfl

/-- The function itself is the one site here. What its parameters and its body hold comes later. -/
theorem addFunction (name : Option String) (paramCount : Nat) (isArrow : Bool) (span : Span) :
    (addFunction name paramCount isArrow span).Registers receiver [.first (.function span)] := by
  intro place s _
  exact ⟨rfl, ⟨[_], Array.toList_push .., rfl⟩, ⟨[], (List.append_nil _).symm, rfl⟩⟩

theorem addCall (kind : CallKind) (argCount : Nat) (span : Span) :
    (addCall kind argCount span).Registers receiver [.first (.call kind span)] := by
  intro place s _
  exact ⟨rfl, ⟨[], (List.append_nil _).symm, rfl⟩, ⟨[_], Array.toList_push .., rfl⟩⟩

end Registers

end Walk

end CallFlow
