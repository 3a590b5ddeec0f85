import CallFlow.Proofs.FileFlow.Equations

/-!
# Which walks return a value

Whether an expression has a value is a matter of syntax, but for `this`, which has one where there
is a receiver. A class has one if it has a constructor.
-/

namespace CallFlow.Walk

open Syntax

/-- `this` has a vertex where there is a receiver. -/
theorem isSome_receiver (place : Place) (s : FileState) :
    (receiver place s).1.isSome = place.receiver.isSome := by
  obtain ⟨file, lines, scope, function, around⟩ := place
  cases around <;> rfl

/-- The members of a class that follow a constructor keep it, unless there is another one. -/
theorem isSome_visitMembers (name : Option String) (ms : List Member) (last : Option VertexId)
    (place : Place) (s : FileState) :
    (visitMembers name last ms place s).1.isSome =
      (last.isSome || ms.any Member.isConstructor) := by
  induction ms generalizing last s with
  | nil =>
    rw [visitMembers]
    exact (Bool.or_false _).symm
  | cons m rest ih =>
    -- What is no constructor returns nothing of its own.
    have hother (hm : ∀ f, m ≠ .constructor f) (hnot : m.isConstructor = false) :
        (visitMembers name last (m :: rest) place s).1.isSome =
          (last.isSome || (m :: rest).any Member.isConstructor) := by
      rw [visitMembers, List.any_cons, hnot]
      · exact ih last _
      · exact hm
    cases m with
    | constructor f =>
      rw [visitMembers, List.any_cons, Member.isConstructor, Bool.true_or, Bool.or_true]
      exact ih (some _) _
    | method _ _ _ | field _ _ _ | staticBlock _ => exact hother nofun rfl

theorem isSome_visitClass (name own : Option String) (c : Syntax.Class) (place : Place)
    (s : FileState) : (visitClass name own c place s).1.isSome = c.hasConstructor := by
  obtain ⟨decorators, heritage, members⟩ := c
  rw [visitClass]
  exact isSome_visitMembers name members none _ _

mutual

/-- The walk over an expression returns a vertex if the expression yields one. -/
theorem isSome_visit (place : Place) : ∀ (e : Expr) (role : Role) (s : FileState),
    (visit role e place s).1.result.isSome = e.yields place.receiver.isSome
  | .ident _, _, _ | .string _, _, _ | .literal, _, _ | .arrow _, _, _ | .call _ _ _ _, _, _
  | .construct _ _ _, _, _ | .tagged _ _ _, _, _ | .member _ _ _, _, _ | .logical _ _ _, _, _
  | .conditional _ _ _ _, _, _ | .array _, _, _ | .untracked _, _, _ | .object _, _, _
  | .element _ _, _, _ => by
    rw [visit]
    rfl
  | .this, _, s => by
    rw [visit]
    exact isSome_receiver place s
  | .function own _, _, _ => by
    cases own <;> (rw [visit]; rfl)
  | .class own c, _, _ => by
    cases own <;> (rw [visit]; exact isSome_visitClass _ _ c place _)
  | .superMember _, role, _ => by
    rw [visit]
    split <;> rfl
  | .assign op target value, _, s => by
    have hvalue := isSome_visit place value target.valueRole s
    have hstored : (if op = .arithmetic then none
        else (visit target.valueRole value place s).1.result).isSome =
          (Expr.assign op target value).yields place.receiver.isSome := by
      rw [Expr.yields]
      by_cases hop : op = .arithmetic
      · simp [hop]
      · simp [hop, hvalue]
    -- whatever is done with the target, the value that is stored is returned
    rw [visit_assign]
    cases target.superKey? with
    | some key => exact hstored
    | none => cases target.isLeftAlone <;> exact hstored
  | .sequence exprs, _, s => by
    rw [visit]
    exact isSome_visitAll place exprs s
  | .paren inner, role, s => by
    rw [visit]
    exact isSome_visit place inner role.inParens s
  | .await inner, _, s | .typed inner, _, s | .spread inner, _, s => by
    rw [visit]
    exact isSome_visit place inner .value s

/-- The value of several expressions is that of the last one. -/
theorem isSome_visitAll (place : Place) : ∀ (es : List Expr) (s : FileState),
    (visitAll es place s).1.isSome = Expr.yieldsLast place.receiver.isSome es
  | [], _ => by
    rw [visitAll]
    rfl
  | [e], s => by
    rw [visitAll]
    exact isSome_visit place e .value s
  | e :: e' :: rest, s => by
    unfold visitAll
    exact isSome_visitAll place (e' :: rest) _

end

end CallFlow.Walk
