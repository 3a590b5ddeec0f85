import CallFlow.Proofs.FileFlow.Restoring
import CallFlow.Proofs.Syntax.Legs
import CallFlow.Proofs.Syntax.Wrappers

/-!
# Equations of the walk

Two functions of the walk look at what is inside of a piece of syntax before they walk it. These
equations say what they do without looking inside, so that a lemma about the walk need not.
-/

namespace CallFlow.Walk

open Syntax

/-- A computed key is walked, unless it is a string. -/
theorem visitKey_computed (e : Expr) :
    (∃ name, e = .string name ∧ visitKey (.computed e) = vertex (.prop name)) ∨
      visitKey (.computed e) = (do
        let _ ← visit .value e
        vertex .unknown) := by
  cases e with
  | string name => exact .inl ⟨name, rfl, by rw [visitKey]⟩
  | _ =>
    refine .inr ?_
    rw [visitKey]
    exact nofun

/-- A computed key that is no string is walked. -/
theorem visitKey_of_not_isString {e : Expr} (h : e.isString = false) :
    visitKey (.computed e) = (do
      let _ ← visit .value e
      vertex .unknown) := by
  refine (visitKey_computed e).resolve_left ?_
  rintro ⟨name, rfl, -⟩
  cases h

/-- A rest parameter is bound like the pattern inside. -/
theorem bindParam_pattern (source : VertexId) (decorators : List Expr) (p : Pattern) :
    bindParam source (.pattern decorators p) = bind p (some source) := by
  cases p with
  | rest inner => rw [bindParam, bind]
  | _ =>
    rw [bindParam]
    exact nofun

/-- Declares all that a function binds in its scope. -/
def declareHead (value : VertexId) (own : Option String) (f : Func) : Walk Unit := do
  bindOwnName value own
  declare .parameter (f.params.flatMap Param.names)
  hoistBody f.body

/-- Binds the parameters of a function and walks its body. -/
def walkInside (id : FunctionId) (f : Func) : Walk Unit := do
  bindParams id 1 f.params
  visitBody id f.body

/-- The role of the value that a declarator starts with. -/
def initRole : Pattern → Role
  | .ident name => .named name
  | _ => .value

theorem visitDeclarators_init (target : Pattern) (init : Expr) (rest : List Declarator) :
    visitDeclarators (.mk target (some init) :: rest) = (do
      let value ← visit (initRole target) init
      bind target value.result
      visitDeclarators rest) := by
  cases target <;> rfl

/-- What an assignment does with its target. -/
theorem visit_assign (role : Role) (op : AssignOp) (target : Pattern) (value : Expr) :
    visit role (.assign op target value) = (do
      let value ← visit target.valueRole value
      let stored := if op = .arithmetic then none else value.result
      match target.superKey? with
      | some key => flow stored (← visitKey key)
      | none =>
        if target.isLeftAlone then pure ()
        else
          exportAssigned target stored
          bind target stored
      return { result := stored }) := by
  rw [visit]
  refine bind_congr fun result => ?_
  dsimp only
  split
  · rfl
  · rfl
  · rfl
  · next hsuper htyped hchained =>
    -- The walk has told the forms of the target apart already.
    have hkey : target.superKey? = none := by
      unfold Pattern.superKey?
      split
      · next key => exact (hsuper key rfl).elim
      · rfl
    rw [hkey, Pattern.isLeftAlone_eq_false htyped hchained]
    rfl

end CallFlow.Walk
