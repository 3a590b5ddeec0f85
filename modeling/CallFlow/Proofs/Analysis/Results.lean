import CallFlow.Proofs.Analysis.Arguments
import CallFlow.Proofs.FileFlow.Results

/-!
# Values and callees

In whatever is built and propagated, a visit of an expression leaves a way from each expression that
its value may come from to its own vertex. For a call this is a way to its callee, so that a
function that what is called may evaluate to is among what the call may invoke.
-/

namespace CallFlow

open Syntax

namespace History

/-- **No possible value is lost.** Let a history contain what the visit of an expression leaves.
Each expression that the value may come from either has the vertex that the visit returns, or
there is a path from its vertex to this one through compound expressions alone; an edge leads from
the value of what a call invokes to its callee. Every call that is registered comes from such a
visit. -/
theorem values_after (steps : List Step) :
    let t := (after steps).flow
    (∀ (place : Place) (v : ExprWalk), (v.after place).flow.Later t → t.Carries place v) ∧
    ∀ c site, t.program.call? c = some site →
      ∃ file ∈ (after steps).files, ∃ (place : Place) (v : ExprWalk) (shape : CallShape),
        (v.after place).flow.Later t ∧ v.call = c ∧ file.module.Holds (.expr v.expr) ∧
          v.expr.callShape? = some shape ∧ site.Reads file shape := by
  intro t
  refine ⟨fun place v => ExprWalk.carries, fun c site hc => ?_⟩
  obtain ⟨file, hfile, place, e, shape, hshape, hreads, hof⟩ := (traced_after steps).calls c site hc
  obtain ⟨s, role, -, -, rfl, hlater⟩ := hof.walked
  exact ⟨file, hfile, place, ⟨role, e, s⟩, shape, hlater, rfl, hof.held, hshape, hreads⟩

/-- The call of one of two functions. -/
def invokingEither : Expr :=
  .call false ⟨0, 10⟩ (.paren (.logical ⟨1, 7⟩ (.ident "f") (.ident "g"))) []

/-- The lines of the file. -/
def eitherLines : LineTable := .ofText "(f || g)()"

/-- The file with this call alone. -/
def eitherBuilt : List Step :=
  [.build (.file ⟨"a.js"⟩ eitherLines ⟨[.stmt (.expr invokingEither)]⟩)]

/-- The visit of the call. -/
def eitherVisit : ExprWalk where
  expr := invokingEither
  state := ({} : FlowState).opened ⟨"a.js"⟩

/-- The file is nothing but this visit. -/
theorem flow_eitherBuilt : (after eitherBuilt).flow =
    (eitherVisit.after (({} : FlowState).opening eitherLines)).flow := by
  have hwalked : (after eitherBuilt).flow =
      (Walk.visitModule ⟨[.stmt (.expr invokingEither)]⟩
        (({} : FlowState).opening eitherLines) (({} : FlowState).opened ⟨"a.js"⟩)).2.flow := rfl
  rw [hwalked]
  simp only [Walk.visitModule, List.forM_eq_forM, List.forM_cons, List.forM_nil, Walk.hoistItem,
    Walk.visitItem, Walk.visitStmt, Stmt.varNames]
  rfl

/-- Both functions get to the callee through the vertex of the expression that chooses. -/
theorem values_after_either :
    let place := ({} : FlowState).opening eitherLines
    let t := (after eitherBuilt).flow
    ∃ chosen slot, t.graph.find? (.callee ⟨0⟩) = some slot ∧ t.graph.hasEdge chosen slot = true ∧
      ∀ name ∈ ["f", "g"], ∃ (w : ExprWalk) (u : VertexId), w.expr = .ident name ∧
        w.result place = some u ∧ t.Joins u chosen := by
  intro place t
  have hcarries := (values_after eitherBuilt).1 place eitherVisit (flow_eitherBuilt ▸ .refl _)
  let shape : CallShape := ⟨.call, ⟨0, 10⟩, 1, []⟩
  let callee : Expr := .paren (.logical ⟨1, 7⟩ (.ident "f") (.ident "g"))
  let inner := eitherVisit.called place shape callee
  let f : ExprWalk := ⟨.value, .ident "f", inner.state⟩
  let g : ExprWalk := ⟨.value, .ident "g", f.after place⟩
  -- both operands are what the callee may come from
  have hsource : ∀ w ∈ [f, g], ExprWalk.Source place inner w := by
    refine List.forall_mem_cons.2 ⟨.paren (.left (.own rfl)), List.forall_mem_singleton.2 ?_⟩
    exact .paren (.right (.own rfl))
  -- and a name has a vertex
  have hresult : ∀ w ∈ [f, g], ∃ u, w.result place = some u := by
    refine List.forall_mem_cons.2 ⟨?_, List.forall_mem_singleton.2 ?_⟩ <;>
      rw [ExprWalk.result, Walk.visit] <;> exact ⟨_, rfl⟩
  have hcallee := hcarries.callee shape callee rfl rfl
  obtain ⟨u, hu⟩ := hresult f List.mem_cons_self
  obtain ⟨chosen, hchosen, hf, slot, hslot, hedge⟩ := hcallee f u (hsource f List.mem_cons_self) hu
  refine ⟨chosen, slot, hslot, hedge,
    List.forall_mem_cons.2 ⟨⟨f, u, rfl, hu, hf⟩, List.forall_mem_singleton.2 ?_⟩⟩
  have hmem : g ∈ [f, g] := List.mem_cons_of_mem f List.mem_cons_self
  obtain ⟨u', hu'⟩ := hresult g hmem
  obtain ⟨chosen', hchosen', hg, -⟩ := hcallee g u' (hsource g hmem) hu'
  obtain rfl := Option.some.inj (hchosen.symm.trans hchosen')
  exact ⟨g, u', rfl, hu', hg⟩

end History

end CallFlow
