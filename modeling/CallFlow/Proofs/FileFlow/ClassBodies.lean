import CallFlow.Proofs.FileFlow.Enclosing
import CallFlow.SourceFile

/-!
# Bodies of classes

A class has a scope for its own name, and nothing else of a function: what is written in its body is
walked with the receiver around, and a `var` in a static block belongs to the function around.
-/

namespace CallFlow

open Syntax

namespace Walk

/-- What is declared by `var` on the way is declared in the scope that it belongs to. -/
theorem Runs.hasNames {α : Type} {walk : Walk α} {place : Place} {s : FileState} {es : List Event}
    (h : Runs walk place s es) {root : ScopeId} (hroot : s.flow.scopes.HoistsTo place.scope root) :
    (walk place s).2.flow.HasNames root (Event.varsThrough ScopeKind.nests es) := by
  induction h generalizing root with
  | plain | resolve | declare => exact fun _ hname => absurd hname List.not_mem_nil
  | declareVars names place s =>
    rw [Walk.declareVars, hroot.varScope_eq]
    refine (FlowState.hasNames_declareAll root .variable names place s).mono ?_
    simp [Event.varsThrough, Act.varNames]
  | bind h h' ih ih' =>
    rw [Event.varsThrough_append]
    refine List.forall_mem_append.2 ⟨(ih hroot).continues h'.continues, ih' ?_⟩
    exact h.continues.later.hoistsTo hroot
  | @inScope _ _ kind _ _ _ _ ih =>
    rw [Event.varsThrough_inside]
    cases hnests : kind.nests with
    | false => exact fun _ hname => absurd hname List.not_mem_nil
    | true =>
      have hkind : kind.hoistsVars = false := by
        revert hnests
        cases kind <;> decide
      exact ih (hroot.create hkind)
  | @function name own isArrow f place s es _ _ =>
    have hnests : (functionKind isArrow).nests = false := by cases isArrow <;> rfl
    rw [← List.singleton_append, Event.varsThrough_append, Event.varsThrough_inside, hnests]
    exact fun _ hname => absurd hname List.not_mem_nil

end Walk

namespace Routine

/-- A static block gives the names of every `var` in it to the function around. This happens when
they are reached, as nothing is hoisted for the block. -/
theorem hasNames_staticBlock (stmts : List Stmt) {place : Place} {s : FileState} {root : ScopeId}
    (hroot : s.flow.scopes.HoistsTo place.scope root) :
    (visitMember (.staticBlock stmts) place s).2.flow.HasNames root
      (Member.staticBlock stmts).redeclared := by
  rw [visitMember_eq]
  obtain ⟨es, hruns, hvars, -⟩ := Walk.traced_visitMember false (.staticBlock stmts) place s
  exact hvars ▸ hruns.hasNames hroot

/-- The receiver around has a vertex as slot 0 of its function. -/
theorem result_this (role : Role) (place : Place) (s : FileState) (v : VertexId) :
    (visit role .this place s).1.1.result = some v ↔ ∃ g ∈ place.receiver,
      (visit role .this place s).2.flow.graph.find? (.param g 0) = some v := by
  rw [visit]
  obtain ⟨file, lines, scope, function, receiver⟩ := place
  cases receiver with
  | none =>
    constructor
    · intro hv
      cases hv
    · rintro ⟨g, hg, -⟩
      cases hg
  | some g =>
    show some (s.flow.graph.intern (.param g 0)).1 = some v ↔ ∃ g' ∈ some g,
      (s.flow.graph.intern (.param g 0)).2.find? (.param g' 0) = some v
    simp [FlowGraph.find?_intern_self]

end Routine

namespace FlowState

/-- **Bodies of classes are no contexts of their own.** A `var` that a static block declares, in its
own list of statements or in a block or a loop in it, is a name of the function around, or of the
module. And `this` is slot 0 of the innermost function around that is no arrow, whatever classes are
in between, and nothing if there is no such function. -/
theorem exists_classBodies (state : FlowState) (path : Path) (lines : LineTable) (m : Module) :
    let final := (state.addFile path lines m).2
    ∃ stops, state.NestedAs path lines m stops ∧
      (∀ x ∈ stops, ∀ stmts, x.piece = .member (.staticBlock stmts) →
        final.HasNames (x.bodyScope (state.opening lines).scope)
          (Member.staticBlock stmts).redeclared) ∧
      ∀ x ∈ stops, x.piece = .expr .this → ∃ role,
        let visited := Routine.visit role .this x.place x.state
        visited.2.flow.Later final ∧ ∀ v, visited.1.1.result = some v ↔
          ∃ g ∈ x.receiving, visited.2.flow.graph.find? (.param g 0) = some v := by
  intro final
  obtain ⟨stops, hnested⟩ := state.exists_nestedAs path lines m
  have hmodule : (state.opened path).flow.scopes.HoistsTo (state.opening lines).scope
      (state.opening lines).scope :=
    ScopeTree.hoistsTo_create_self state.scopes rfl ScopeTree.global
  have hreceiver : ∀ x ∈ stops, x.place.receiver = x.receiving := fun x hx => by
    rw [hnested.place x hx, Frame.receiver_foldl_place]
    exact Option.or_none
  refine ⟨stops, hnested, fun x hx stmts hpiece => ?_, fun x hx hpiece => ?_⟩
  · obtain ⟨α, routine, hover, hlater⟩ := hnested.started x hx
    rw [hpiece] at hover
    cases hover with
    | block stmts =>
      have hnames := Routine.hasNames_staticBlock stmts (hnested.walked.hoistsTo hmodule x hx)
      exact fun name hname => (hnames name hname).imp (hlater.bindings _ name)
  · obtain ⟨α, routine, hover, hlater⟩ := hnested.started x hx
    rw [hpiece] at hover
    cases hover with
    | expr role e =>
      refine ⟨role, hlater, fun v => ?_⟩
      rw [Routine.result_this, hreceiver x hx]

/-- A static block in a function, and a call of what it declares. -/
def leakingModule : Module where
  items := [.stmt (.decl (.function "g" (.mk [] (.block [
    .decl (.class "C" (.mk [] none
      [.staticBlock [.decl (.vars .var [.mk (.ident "x") (some .this)])]])),
    .expr (.call false ⟨52, 55⟩ (.ident "x") [])]) ⟨0, 58⟩)))]

/-- A function with a class, the static block of which declares a name. The function then calls what
the name stands for. -/
def leaking : SourceFile where
  path := ⟨"a.js"⟩
  text := "function g() \x7b class C \x7b static \x7b var x = this; \x7d \x7d x(); \x7d"
  dialect := .javaScript
  reading := ⟨some leakingModule.items, []⟩

/-- The receiver of the function gets into the name that the static block declares, and this is a
name of the function, so that it is the one that is called outside of the block. -/
theorem classBody_shared :
    let flow := (({} : FlowState).addFile leaking.path leaking.lines leakingModule).2
    flow.scopes.scope? ⟨2⟩ = some ⟨.functionScope, some ⟨1⟩⟩ ∧
      flow.symbols.symbol? ⟨2⟩ = some ⟨"x", .variable, ⟨2⟩⟩ ∧
      flow.graph.containsEdge (.param ⟨0⟩ 0) (.var ⟨2⟩) = true ∧
      flow.graph.containsEdge (.var ⟨2⟩) (.callee ⟨0⟩) = true := by
  decide +kernel

end FlowState

end CallFlow
