import CallFlow.Proofs.FileFlow.CourseVisit
import CallFlow.Proofs.FileFlow.Yields
import CallFlow.Proofs.Registration.Steps
import CallFlow.Proofs.Registration.Walk

/-!
# A walk registers the visits of its legs

What a walk comes to on its legs is read off the syntax, and the visits of a piece are those of its
legs. So a walk registers the visits of the piece that it is over.
-/

namespace CallFlow

open Syntax

namespace Syntax

/-! ## The visits on a leg -/

mutual

/-- What a walk comes to on a leg. A function that is not an arrow has a receiver. -/
def Leg.visits (receiver : Bool) : Leg → List Visit
  | .resolve _ | .declare _ _ => []
  | .enter p => p.visits receiver
  | .func _ isArrow f => f.visits (if isArrow then receiver else true)
  | .class _ c => c.visits receiver
  | .head h => h.boundVisits receiver
  | .withDefault inner value =>
    value.visits receiver ++ (inner.visits receiver ++
      if value.yields receiver then (inner.visits receiver).map Visit.repeated else [])
  | .scope _ legs => Leg.visitsAll receiver legs

/-- What a walk comes to on its legs, one after the other. -/
def Leg.visitsAll (receiver : Bool) : List Leg → List Visit
  | [] => []
  | leg :: rest => leg.visits receiver ++ Leg.visitsAll receiver rest

end

section

variable (receiver : Bool)

theorem Leg.visitsAll_eq (legs : List Leg) :
    Leg.visitsAll receiver legs = legs.flatMap fun leg => leg.visits receiver :=
  eq_flatMap rfl (fun _ _ => rfl) legs

theorem Leg.visitsAll_append (legs legs' : List Leg) : Leg.visitsAll receiver (legs ++ legs') =
    Leg.visitsAll receiver legs ++ Leg.visitsAll receiver legs' := by
  simp [Leg.visitsAll_eq]

theorem Leg.visitsAll_singleton (leg : Leg) :
    Leg.visitsAll receiver [leg] = leg.visits receiver := List.append_nil _

/-- The head of a `for … in` is visited as its legs are: the bound names, without the initialisers.
-/
theorem LoopHead.boundVisits_eq (h : LoopHead) :
    h.boundVisits receiver = Leg.visitsAll receiver h.boundLegs := by
  cases h with
  | decl d =>
    cases d with
    | vars kind declarators =>
      rw [boundVisits, Declarator.targetVisitsAll_eq, boundLegs, Leg.visitsAll_eq,
        List.flatMap_assoc]
      -- both sides take the declarators one by one
      congr 1
      funext d
      cases d
      simp [Declarator.targetVisitsAll, Decl.declares, Leg.visits, Piece.visits, Declarator.target]
    | _ => rfl
  | pattern p => simp [boundVisits, boundLegs, Leg.visitsAll, Leg.visits, Piece.visits]
  | expr | absent => rfl

/-- A class is visited as its legs are, with or without a name of its own. -/
theorem Class.visits_eq (own : Option String) (c : Class) :
    c.visits receiver = Leg.visitsAll receiver (c.legs own) := by
  obtain ⟨decorators, heritage, members⟩ := c
  -- asking for the name of the class comes to nothing
  have hname : Leg.visitsAll receiver
      (if members.any Member.isConstructor then own.toList.map .resolve else []) = [] := by
    cases members.any Member.isConstructor <;> cases own <;> rfl
  rw [Leg.visitsAll_eq] at hname
  simp only [Class.visits, legs, Leg.visitsAll_eq, Leg.visits, List.flatMap_append,
    List.flatMap_cons, List.flatMap_nil, hname]
  simp [Leg.visits, Piece.visits, Expr.visitsAll_eq, Expr.visitsOption_eq, Member.visitsAll_eq,
    List.flatMap_map]

/-- A piece comes to itself if it is a call or a function, and then to what is on its legs. -/
theorem Piece.visits_eq (p : Piece) :
    p.visits receiver = p.site?.toList.map .first ++ Leg.visitsAll receiver p.legs := by
  cases p with
  | expr e =>
    cases e with
    | assign op target value =>
      -- the assignment to a member of `super` has a walk of its own
      cases hsuper : target.superKey? with
      | some key =>
        obtain rfl := Pattern.eq_of_superKey? hsuper
        simp [visits, site?, Expr.callShape?, legs, hsuper, Expr.visits, Pattern.visits,
          Pattern.isLeftAlone, Leg.visitsAll_eq, Leg.visits]
      | none =>
        cases hleft : target.isLeftAlone <;>
          simp [visits, site?, Expr.callShape?, legs, hsuper, hleft, Expr.visits,
            Leg.visitsAll_eq, Leg.visits]
    | _ =>
      simp [visits, site?, Expr.callShape?, legs, Expr.visits, Leg.visitsAll_eq, Leg.visits,
        List.flatMap_map, Expr.visitsAll_eq, Property.visitsAll_eq, Attribute.visitsAll_eq]
  | key k =>
    cases k with
    | computed e => cases e <;> simp [visits, site?, legs, Key.visits, Expr.visits,
        Leg.visitsAll_eq, Leg.visits]
    | _ => rfl
  | property p =>
    cases p <;> simp [visits, site?, legs, Property.visits, Leg.visitsAll_eq, Leg.visits]
  | attr a =>
    cases a <;> simp [visits, site?, legs, Attribute.visits, Attribute.visitsAll,
      Leg.visitsAll_eq, Leg.visits]
  | func f =>
    cases f
    simp [visits, site?, legs, Func.visits, Func.span, Leg.visitsAll_eq, Leg.visits,
      List.flatMap_map, Param.visitsAll_eq]
  | body b =>
    cases b <;> simp [visits, site?, legs, Body.visits, Leg.visitsAll_eq, Leg.visits,
      List.flatMap_map, Stmt.visitsAll_eq]
  | param p =>
    cases p <;> simp [visits, site?, legs, Param.visits, Leg.visitsAll_eq, Leg.visits,
      List.flatMap_map, Expr.visitsOption_eq]
  | «class» c => exact c.visits_eq receiver none
  | member m =>
    cases m with
    | method decorators key f =>
      -- only decorators of a public method are walked
      cases h : key.isPrivate <;> simp [visits, site?, legs, Member.visits, h, Leg.visitsAll_eq,
        Leg.visits, List.flatMap_map, Expr.visitsAll_eq]
    | _ =>
      simp [visits, site?, legs, Member.visits, Stmt.blockLegs, Leg.visitsAll_eq, Leg.visits,
        List.flatMap_map, Expr.visitsOption_eq, Stmt.visitsAll_eq]
  | pattern p =>
    cases p <;> simp [visits, site?, legs, Pattern.visits, Leg.visitsAll_eq, Leg.visits,
      List.flatMap_map, Pattern.visitsAll_eq, PatternField.visitsAll_eq]
  | field f =>
    cases f <;> simp [visits, site?, legs, PatternField.visits, Leg.visitsAll_eq, Leg.visits,
      List.flatMap_map, Expr.visitsOption_eq]
  | decl d =>
    cases d with
    | «class» name c =>
      -- a class without a constructor has no value that the name is bound to
      cases h : c.hasConstructor <;>
        simp [visits, site?, legs, Decl.visits, h, Leg.visitsAll_eq, Leg.visits]
    | _ =>
      simp [visits, site?, legs, Decl.visits, Leg.visitsAll_eq, Leg.visits, List.flatMap_map,
        Declarator.visitsAll_eq]
  | declarator d =>
    cases d
    simp [visits, site?, legs, Declarator.visits, Declarator.visitsAll, Leg.visitsAll_eq,
      Leg.visits, List.flatMap_map, Expr.visitsOption_eq]
  | stmt s =>
    cases s with
    | forEach h iterated b =>
      simp [visits, site?, legs, Stmt.visits, Leg.visitsAll_eq, Leg.visits]
    | «try» b p handler finalizer =>
      -- the parameter is bound only if there is a handler
      cases handler <;> cases p <;> simp [visits, site?, legs, Stmt.visits, Pattern.caughtLegs,
        Leg.visitsAll_eq, Leg.visits, List.flatMap_map, Stmt.visitsOption_eq,
        Pattern.visitsOption_eq]
    | _ =>
      simp [visits, site?, legs, Stmt.visits, Stmt.blockLegs, Leg.visitsAll_eq, Leg.visits,
        List.flatMap_map, Stmt.visitsAll_eq, Expr.visitsOption_eq, Stmt.visitsOption_eq,
        Case.visitsAll_eq]
  | head h =>
    cases h with
    | decl d =>
      cases d <;> simp [visits, site?, legs, LoopHead.visits, Decl.declares, Leg.visitsAll_eq,
        Leg.visits, List.flatMap_map, Declarator.visitsAll_eq]
    | _ => simp [visits, site?, legs, LoopHead.visits, Leg.visitsAll_eq, Leg.visits]
  | «case» c =>
    cases c
    simp [visits, site?, legs, Case.visits, Case.visitsAll, Leg.visitsAll_eq, Leg.visits,
      List.flatMap_map, Expr.visitsOption_eq, Stmt.visitsAll_eq]

/-- The name that a function expression is declared under in its own scope comes to no site. -/
theorem Func.visitsAll_headLegs (own : Option String) (f : Func) :
    Leg.visitsAll receiver (f.headLegs own) = [] := by
  cases own <;> rfl

end

end Syntax

/-! ## Walks over legs -/

namespace Walk

variable {α : Type} {walk : Walk α} {legs : List Leg}

/-- An idle step registers nothing. -/
theorem Idle.silent (h : Idle walk) : Silent walk := by
  induction h with
  | pure a => exact .pure a
  | bind _ _ ih ihnext => exact ih.bind ihnext
  | read => exact fun _ _ => rfl
  | vertex _ => exact .vertex _
  | exprVertex span => exact .exprVertex span
  | edge source target => exact .edge source target
  | addExport name value => exact .addExport name value
  | addImport specifier imported target => exact .addImport specifier imported target
  | exportAssigned target value => exact .exportAssigned target value
  | recordRequire chained callee args call => exact .recordRequire chained callee args call

/-- A walk registers what is visited on its legs. -/
theorem Course.registers (h : Course walk legs) (receiver : Bool) :
    walk.Registers receiver (Leg.visitsAll receiver legs) := by
  induction h generalizing receiver with
  | idle h => exact .of_silent h.silent
  | resolve name => exact .of_silent (.resolve name)
  | declare kind names => exact .of_silent (.declare kind names)
  | declareVars names => exact .of_silent (.declareVars names)
  | declaresNone h => exact .of_silent h.silent
  | declaresBoth _ _ ih => exact ih receiver
  | bindOf hresult _ _ ih ihnext =>
    rw [Leg.visitsAll_append]
    exact .bindOf (fun place s _ => hresult place s) (ih receiver) fun a ha => ihnext a ha receiver
  | @inScope _ _ kind _ _ _ ih =>
    rw [Leg.visitsAll_singleton]
    exact .inScope kind (ih receiver)
  | @node _ _ p _ hsite _ ih =>
    rw [Leg.visitsAll_singleton, Leg.visits, Piece.visits_eq, hsite]
    exact ih receiver
  | @pass _ _ p _ hnode _ ih =>
    refine (ih receiver).congr ?_
    rw [Leg.visitsAll, Leg.visits, Piece.visits_eq, Piece.site?_eq_none hnode]
    exact Leg.visitsAll_append receiver p.legs _
  | @«class» _ own c _ ih =>
    rw [Leg.visitsAll_singleton, Leg.visits, c.visits_eq receiver own]
    exact ih receiver
  | @call role e shape _ hshape hwalk _ ih =>
    rw [hwalk, Leg.visitsAll_singleton, Leg.visits, Piece.visits_eq, Piece.site?, hshape]
    exact .bind (.addCall shape.kind shape.argCount shape.span) fun c => ih c receiver
  | @function name own isArrow f _ _ _ ihhead ihparams ihbody =>
    rw [Leg.visitsAll_singleton, Leg.visits]
    generalize hinner : (if isArrow then receiver else true) = inner
    obtain ⟨params, body, span⟩ := f
    have hvisits : Func.visits inner (.mk params body span) = .first (.function span) ::
        (Leg.visitsAll inner (params.map (.enter <| .param ·)) ++
          Leg.visitsAll inner [.enter (.body body)]) :=
      Eq.trans (Piece.visits_eq inner (.func (.mk params body span))) <|
        congrArg (List.cons _) (Leg.visitsAll_append inner _ _)
    have hinside (value : VertexId) (id : FunctionId) : Registers (do
        Walk.declareHead value own (.mk params body span)
        bindParams id 1 params
        visitBody id body) inner _ :=
      ((ihhead value inner).congr (Func.visitsAll_headLegs inner own _)).bind fun _ =>
        (ihparams id inner).bind fun _ => ihbody id inner
    rw [visitFunction, hvisits]
    refine .bind (.addFunction name (params.countP Param.isSlotted) isArrow span) fun id => ?_
    refine .silent (.vertex _) fun value => ?_
    -- from here on the walk is in the scope of the function, with its receiver
    exact .ending (.inScope _ (.inFunction (hinner ▸ hinside value id))) fun _ => .pure _
  | @withDefault inner value source _ _ ihvalue ihinner =>
    rw [Leg.visitsAll_singleton, Walk.bind, Leg.visits]
    refine .bindOf (P := fun v => v.result.isSome = value.yields receiver) ?_
      ((ihvalue receiver).congr (Leg.visitsAll_singleton ..)) fun default hdefault => ?_
    · rintro place s rfl
      exact isSome_visit place value .value s
    have hwalked (source : Option VertexId) :
        Registers (Walk.bind inner source) receiver (inner.visits receiver) :=
      (ihinner source receiver).congr (Leg.visitsAll_singleton ..)
    refine .bind (hwalked source) fun _ => ?_
    -- the default is walked into the same pattern if it has a vertex to bind
    rw [← hdefault]
    cases default.result with
    | none => exact .of_silent (.pure ())
    | some default => exact (hwalked default).again
  | @head _ h _ ih =>
    rw [Leg.visitsAll_singleton, Leg.visits, LoopHead.boundVisits_eq]
    exact ih receiver

end Walk

end CallFlow
