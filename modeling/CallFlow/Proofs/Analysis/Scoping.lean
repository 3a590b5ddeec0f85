import CallFlow.Proofs.Analysis.Isolation
import CallFlow.Proofs.FileFlow.Scoping

/-!
# Names that are declared

Whatever has been built before, the walk over a file resolves a name in the scope of a declaration
to the variable of a symbol of this name, and never to the property of this name that all objects
share. What is in scope where is said by the references of the module.
-/

namespace CallFlow

open Syntax

/-- The scope of a module sees itself, and a `var` belongs to it. -/
theorem FlowState.sees_opened {s : FlowState} (hfaithful : s.symbols.Faithful) (path : Path)
    (lines : LineTable) : (s.opened path).flow.Sees (s.opening lines).scope [] where
  faithful := hfaithful
  hoists := by
    have hcreated : (s.opened path).flow.scopes.scope? (s.opening lines).scope =
        some ⟨.moduleScope, some ScopeTree.global⟩ :=
      (ScopeTree.scope?_create ..).trans (if_pos rfl)
    have hsize : 0 < (s.opened path).flow.scopes.size :=
      (Nat.zero_le _).trans_lt (Array.getElem?_eq_some_iff.1 hcreated).1
    exact ⟨_, (s.opened path).flow.scopes.self_mem_ancestors hsize _, _, hcreated, rfl⟩
  bound := nofun

namespace History

/-- **Declared names are variables.** The walk by which a file is added resolves the names of the
references of its module, in this order, and those in the scope of a declaration to the variable
of a symbol that has this name and is declared around. -/
theorem declared_isVariable (whats : List Build) (path : Path) (lines : LineTable) (m : Module) :
    let before := (after (whats.map .build)).flow
    let walk := Walk.visitModule m
    (before.addFile path lines m).2 = (walk (before.opening lines) (before.opened path)).2.flow ∧
      ∃ uses, walk.Uses (before.opening lines) (before.opened path) uses ∧
        List.Forall₂ NameReference.Answers m.references uses := by
  have hsees := FlowState.sees_opened (tidy_after whats).faithful path lines
  exact ⟨congrArg Prod.snd (FlowState.addFile_eq _ path lines m),
    (Walk.refers_visitModule m _ _ rfl hsees).1⟩

/-- A handler, a function in it and a function that is declared after its use. -/
def handlerModule : Module where
  items := [
    .stmt (.try (.block [.expr (.call false ⟨6, 9⟩ (.ident "g") [])]) (some (.ident "e"))
      (some (.block [.decl (.vars .var [.mk (.ident "v") (some (.paren (.function (some "own")
        (.mk [.pattern [] (.ident "p")] (.block [.expr (.call false ⟨52, 64⟩ (.ident "own")
          [.ident "p", .ident "e", .ident "f"])]) ⟨34, 67⟩))))])])) none),
    .stmt (.decl (.function "f" (.mk [] (.block []) ⟨75, 90⟩))),
    .stmt (.expr (.call false ⟨91, 94⟩ (.ident "v") []))]

/-- Only `g` is declared nowhere. What has a name of its own asks for it before anything else. -/
example : handlerModule.references.map (fun r => (r.name, r.declared)) =
    [("g", false), ("e", true), ("own", true), ("p", true), ("own", true), ("p", true),
      ("e", true), ("f", true), ("v", true), ("f", true), ("v", true)] := by decide +kernel

/-- A static block that asks for a `var` outside of the block that it is nested in. -/
def nestedVarModule : Module where
  items := [.stmt (.decl (.class "C" (.mk [] none [.staticBlock [
    .expr (.call false ⟨19, 22⟩ (.ident "x") []),
    .block [.decl (.vars .var [.mk (.ident "x") none])]]])))]

/-- What is called is the property of this name. -/
example : nestedVarModule.references = [⟨"x", false⟩, ⟨"x", true⟩] ∧
    (({} : FlowState).addFile ⟨"a.js"⟩ (.ofText "") nestedVarModule).2.graph.containsEdge
      (.prop "x") (.callee ⟨0⟩) = true := by decide +kernel

end History

end CallFlow
