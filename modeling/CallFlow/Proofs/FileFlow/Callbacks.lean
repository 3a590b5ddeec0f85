import CallFlow.Proofs.FileFlow.Results

/-!
# Which values are functions

The walk over an expression returns the vertex of a function exactly if the expression is a
callback: what it looks through returns what is inside, and all other expressions have vertices of
other kinds.
-/

namespace CallFlow.Walk

open Syntax

/-- What is chosen between two values is neither of them. -/
theorem returns_joinAt (span : Span) (left right : Option VertexId) :
    Returns false Evaluated.result (joinAt span left right) := by
  have hjoined : Returns false some (exprVertex span) := fun place s =>
    Returns.vertex (v := .expr ⟨place.file, span⟩) (.of_ne trivial nofun) place s
  exact hjoined.keep (fun joined => .step (.flow left joined) fun _ =>
    .step (.flow right joined) fun _ => .pure _) fun _ _ _ => rfl

/-- A walk that returns no value. -/
theorem Returns.none {α : Type} {callback : Bool} {value : α → Option VertexId} {a : α}
    (h : value a = .none) : Returns callback value (pure a) := by
  intro place s id hid
  exact absurd (h.symm.trans hid) nofun

mutual

/-- What an expression returns is the vertex of a function exactly if the expression is a callback.
-/
theorem callback_visit (role : Role) :
    ∀ e : Expr, Returns e.isCallback Evaluated.result (visit role e)
  | .ident _ | .this | .function _ _ | .arrow _ | .class _ _ | .call _ _ _ _ | .construct _ _ _
  | .tagged _ _ _ | .member _ _ _ | .superMember _ => returns_visit rfl role
  | .string _ | .literal => by
    rw [visit]
    exact .none rfl
  | .assign op target value => by
    -- What is stored is what the whole assignment returns.
    have hstored : Returns (op ≠ .arithmetic && value.isCallback)
        (fun v => if op = .arithmetic then none else v.result)
        (visit target.valueRole value) := by
      cases op with
      | arithmetic => exact fun _ _ => .none
      | plain | logical => exact callback_visit target.valueRole value
    rw [visit_assign_storeIn, Expr.isCallback]
    exact hstored.keep (fun v => .step (traced_storeIn target _) fun _ => .pure _)
      fun _ _ _ => rfl
  | .logical span left right => by
    intro place s
    -- A choice between two values has a vertex of its own, even where both values are functions.
    rw [visit_logical, Expr.isCallback]
    exact returns_joinAt span _ _ place _
  | .conditional span test consequent alternate => by
    intro place s
    rw [visit_conditional, Expr.isCallback]
    exact returns_joinAt span _ _ place _
  | .sequence exprs => by
    rw [visit, Expr.isCallback]
    exact (callback_visitAll exprs).give fun _ => rfl
  | .paren inner => by
    rw [visit, Expr.isCallback]
    exact (callback_visit role.inParens inner).give fun _ => rfl
  | .await inner | .typed inner | .spread inner => by
    rw [visit, Expr.isCallback]
    exact (callback_visit .value inner).give fun _ => rfl
  | .array operands | .untracked operands | .object properties => by
    rw [visit]
    exact .after _ fun _ => .none rfl
  | .element attributes children => by
    rw [visit]
    exact .after _ fun _ => .after _ fun _ => .none rfl

/-- The last of several expressions decides. -/
theorem callback_visitAll : ∀ es : List Expr, Returns (Expr.isCallbackLast es) id (visitAll es)
  | [] => by
    rw [visitAll]
    exact .none rfl
  | [e] => by
    rw [visitAll, Expr.isCallbackLast]
    exact (callback_visit .value e).give fun _ => rfl
  | e :: e' :: rest => by
    rw [visitAll, Expr.isCallbackLast]
    · exact .after _ fun _ => callback_visitAll (e' :: rest)
    · simp
    · simp

end

/-- The value of a callback is a function, wherever it is visited. -/
theorem exists_function_of_isCallback {e : Expr} (h : e.isCallback = true) (role : Role)
    (place : Place) (s : FileState) : ∃ id f, (visit role e place s).1.result = some id ∧
      (visit role e place s).2.flow.graph.find? (.func f) = some id := by
  have hsome := isSome_visit place e role s
  rw [e.yields_of_isCallback _ h] at hsome
  obtain ⟨id, hid⟩ := Option.isSome_iff_exists.1 hsome
  obtain ⟨v, hv, hvalue⟩ := callback_visit role e place s id hid
  obtain ⟨f, rfl⟩ := hvalue.function.2 h
  exact ⟨id, f, hid, hv⟩

/-- If the value of an expression is a function, the expression is a callback. -/
theorem isCallback_of_function {role : Role} {e : Expr} {place : Place} {s t : FileState}
    {value : Evaluated} (hwalk : visit role e place s = (value, t)) {id : VertexId}
    (hid : id ∈ value.result) {f : FunctionId} (hf : t.flow.graph.find? (.func f) = some id) :
    e.isCallback = true := by
  have hreturns := callback_visit role e place s
  rw [hwalk] at hreturns
  obtain ⟨v, hv, hvalue⟩ := hreturns id hid
  exact hvalue.function.1 ⟨f, FlowGraph.find?_inj hv hf⟩

end CallFlow.Walk
