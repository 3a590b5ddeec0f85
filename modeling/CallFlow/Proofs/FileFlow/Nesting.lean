import CallFlow.Proofs.FileFlow.Stops
import CallFlow.Proofs.Registration.Visit

/-!
# Walks stop where the syntax leads

The walk over a piece of syntax stops at the pieces that are reached from it, and at each of them
it is inside of the functions that are crossed on the way. On its legs the same pieces are
reached.
-/

namespace CallFlow

open Syntax

namespace Syntax

/-! ## What is reached on a leg -/

mutual

/-- The walk over a leg comes to the piece, inside of these scopes and functions. -/
def Leg.Reaches : Leg → List Crossing → Piece → Prop
  | .resolve _ | .declare _ _ => fun _ _ => False
  | .enter p => Piece.Reaches false p
  | .func _ isArrow f => Piece.Reaches isArrow (.func f)
  | .class _ c => Piece.Reaches false (.class c)
  | .head h => Piece.ReachesAny false (h.boundSteps.filterMap Step.entered?)
  | .withDefault inner value => Piece.ReachesAny false [.expr value, .pattern inner]
  | .scope kind legs => Piece.Within (.scope kind) (Leg.ReachesAny legs)

/-- The walk over one of these legs does. -/
def Leg.ReachesAny : List Leg → List Crossing → Piece → Prop
  | [] => fun _ _ => False
  | leg :: rest => fun cs q => leg.Reaches cs q ∨ Leg.ReachesAny rest cs q

end

/-- A target that is a property of the superclass is not stopped at, only its key is. -/
theorem Piece.inner_assign (op : AssignOp) (target : Pattern) (value : Expr) :
    (expr (.assign op target value)).inner = [expr value] ++
      match target.superKey? with
      | some k => [key k]
      | none => if target.isLeftAlone then [] else [pattern target] := by
  cases target with
  | expr e =>
    cases e with
    | member chained object k => cases chained <;> rfl
    | _ => rfl
  | _ => rfl

section

variable {cs : List Crossing} {q : Piece}

theorem Leg.reachesAny_append (legs legs' : List Leg) : Leg.ReachesAny (legs ++ legs') cs q ↔
    Leg.ReachesAny legs cs q ∨ Leg.ReachesAny legs' cs q := by
  induction legs with
  | nil => simp [Leg.ReachesAny]
  | cons leg legs ih => simp [Leg.ReachesAny, ih, or_assoc]

theorem Leg.reachesAny_singleton (leg : Leg) :
    Leg.ReachesAny [leg] cs q ↔ leg.Reaches cs q := or_iff_left id

theorem Leg.reachesAny_map_enter {α : Type} (piece : α → Piece) (as : List α) :
    Leg.ReachesAny (as.map fun a => .enter (piece a)) cs q ↔
      Piece.ReachesAny false (as.map piece) cs q := by
  induction as with
  | nil => exact ⟨False.elim, Piece.reachesAny_nil⟩
  | cons a as ih => simp [Leg.ReachesAny, Leg.Reaches, ih, Piece.reachesAny_cons]

theorem Leg.reachesAny_map_resolve {α : Type} (name : α → String) (as : List α) :
    ¬Leg.ReachesAny (as.map fun a => .resolve (name a)) cs q := by
  induction as with
  | nil => exact id
  | cons a as ih => simp [Leg.ReachesAny, Leg.Reaches, ih]

/-- Its own name has no part in what is reached in a class. -/
theorem Class.interior_iff_legs (own : Option String) (c : Class) :
    (Piece.class c).Interior cs q ↔ Leg.ReachesAny (c.legs own) cs q := by
  obtain ⟨decorators, heritage, members⟩ := c
  have hname (cs : List Crossing) : ¬Leg.ReachesAny
      (if members.any Member.isConstructor then own.toList.map .resolve else []) cs q := by
    cases members.any Member.isConstructor <;> cases own <;> simp [Leg.ReachesAny, Leg.Reaches]
  simp [Piece.Interior, Piece.opens, Piece.inner, Piece.isArrow, legs, Piece.Within,
    Leg.ReachesAny, Leg.Reaches, Leg.reachesAny_append, Leg.reachesAny_map_enter,
    Piece.reachesAny_append, hname, or_assoc, -List.any_eq_true]

/-- From a piece that is no function the same is reached as on its legs. -/
theorem Piece.interior_iff_legs {p : Piece} (hp : p.isFunc = false) :
    p.Interior cs q ↔ Leg.ReachesAny p.legs cs q := by
  cases p with
  | func f => cases hp
  | «class» c => exact c.interior_iff_legs none
  | expr e =>
    cases e with
    | assign op target value =>
      cases hsuper : target.superKey? with
      | some key =>
        obtain rfl := Pattern.eq_of_superKey? hsuper
        simp [Interior, opens, inner, isArrow, legs, hsuper, Leg.ReachesAny, Leg.Reaches,
          reachesAny_nil, reachesAny_cons]
      | none =>
        rw [interior_of_not_opens rfl, inner_assign, hsuper]
        cases hleft : target.isLeftAlone <;>
          simp [isArrow, legs, hsuper, hleft, Leg.ReachesAny, Leg.Reaches, reachesAny_nil,
            reachesAny_cons]
    | _ =>
      simp [Interior, opens, inner, entered, steps, isArrow, legs, Leg.ReachesAny, Leg.Reaches,
        Leg.reachesAny_append, Leg.reachesAny_map_enter, reachesAny_nil, reachesAny_cons,
        reachesAny_append]
  | key k =>
    cases k with
    | computed e =>
      cases e <;> simp [Interior, opens, inner, entered, steps, isArrow, legs, Leg.ReachesAny,
        Leg.Reaches, reachesAny_nil, reachesAny_cons]
    | _ =>
      simp [Interior, opens, inner, entered, steps, isArrow, legs, Leg.ReachesAny, reachesAny_nil]
  | member m =>
    cases m with
    | method decorators k f =>
      cases h : k.isPrivate <;>
        simp [Interior, opens, inner, entered, steps, isArrow, legs, h, Leg.ReachesAny, Leg.Reaches,
          Leg.reachesAny_append, Leg.reachesAny_map_enter, reachesAny_nil, reachesAny_cons,
          reachesAny_append]
    | _ =>
      simp [Interior, opens, inner, entered, steps, isArrow, legs, Stmt.blockLegs, Leg.ReachesAny,
        Leg.Reaches, Leg.reachesAny_map_enter, reachesAny_nil, reachesAny_cons]
  | decl d =>
    cases d with
    | «class» name c =>
      cases h : c.hasConstructor <;>
        simp [Interior, opens, inner, entered, steps, isArrow, legs, h, Leg.ReachesAny, Leg.Reaches,
          reachesAny_nil, reachesAny_cons]
    | _ =>
      simp [Interior, opens, inner, entered, steps, isArrow, legs, Leg.ReachesAny, Leg.Reaches,
        Leg.reachesAny_map_enter, reachesAny_nil, reachesAny_cons]
  | stmt s =>
    cases s with
    | «try» b p handler finalizer =>
      cases handler with
      | none =>
        simp [Interior, opens, inner, isArrow, legs, Leg.ReachesAny, Leg.Reaches,
          Leg.reachesAny_map_enter, reachesAny_cons]
      | some handler =>
        -- the handler is walked before the code that is always run
        have hhandler (cs : List Crossing) :
            ReachesAny false (p.toList.map pattern ++ [stmt handler]) cs q ↔
              Leg.ReachesAny (Pattern.caughtLegs p ++ [.enter (stmt handler)]) cs q := by
          cases p <;> simp [Pattern.caughtLegs, Leg.ReachesAny, Leg.Reaches, reachesAny_nil,
            reachesAny_cons]
        simp only [Interior, opens, inner, isArrow, legs, Within, Leg.ReachesAny, Leg.Reaches,
          Leg.reachesAny_map_enter, reachesAny_cons, Option.mem_def, Option.some.injEq,
          exists_eq_left', hhandler]
        exact or_right_comm.trans or_assoc
    | _ =>
      simp [Interior, opens, inner, entered, steps, isArrow, legs, Stmt.blockLegs, Within,
        Leg.ReachesAny, Leg.Reaches, Leg.reachesAny_append, Leg.reachesAny_map_enter,
        reachesAny_nil, reachesAny_cons, reachesAny_append]
  | head h =>
    cases h with
    | decl d =>
      cases d <;>
        simp [Interior, opens, inner, entered, steps, isArrow, legs, Decl.declares, Leg.ReachesAny,
          Leg.Reaches, Leg.reachesAny_map_enter, reachesAny_nil, List.filterMap_cons]
    | _ =>
      simp [Interior, opens, inner, entered, steps, isArrow, legs, Leg.ReachesAny, Leg.Reaches,
        reachesAny_nil, reachesAny_cons, List.filterMap_cons]
  | property x | attr x | body x | param x | pattern x | field x | declarator x | «case» x =>
    cases x <;>
      simp [Interior, opens, inner, entered, steps, isArrow, legs, Leg.ReachesAny, Leg.Reaches,
        Leg.reachesAny_append, Leg.reachesAny_map_enter, reachesAny_nil, reachesAny_cons,
        reachesAny_append, List.filterMap_cons]

/-- What is reached from a function is reached in it. -/
theorem Func.reaches_iff_legs (isArrow : Bool) (f : Func) :
    Piece.Reaches isArrow (.func f) cs q ↔ (cs = [] ∧ q = .func f) ∨
      Piece.Within (.function f isArrow) (Leg.ReachesAny (Piece.func f).legs) cs q := by
  obtain ⟨params, body, span⟩ := f
  simp [Piece.reaches_func_iff, Piece.Within, Piece.inner, Piece.entered, Piece.steps, Piece.legs,
    Leg.reachesAny_append, Leg.reachesAny_map_enter, Leg.ReachesAny, Leg.Reaches,
    Piece.reachesAny_append, Piece.reachesAny_singleton]

/-- What is bound in the first part of a loop is reached on its legs. -/
theorem LoopHead.reachesAny_boundLegs (h : LoopHead) : Leg.ReachesAny h.boundLegs cs q ↔
    Piece.ReachesAny false (h.boundSteps.filterMap Step.entered?) cs q := by
  cases h with
  | decl d =>
    cases d with
    | vars kind declarators =>
      simp only [boundLegs, boundSteps]
      induction declarators with
      | nil => simp [Leg.ReachesAny, Piece.reachesAny_nil]
      | cons d rest ih =>
        obtain ⟨target, init⟩ := d
        rw [List.flatMap_cons, List.flatMap_cons, List.filterMap_append, Leg.reachesAny_append,
          Piece.reachesAny_append, ih]
        refine or_congr_left ?_
        cases init <;> simp [Leg.ReachesAny, Leg.Reaches, Decl.declares, Declarator.target,
          Piece.reachesAny_singleton, List.filterMap_cons]
    | _ => simp [boundLegs, boundSteps, Leg.ReachesAny, Piece.reachesAny_nil, List.filterMap_cons]
  | pattern p =>
    simp [boundLegs, boundSteps, Leg.ReachesAny, Leg.Reaches, Piece.reachesAny_singleton]
  | expr | absent =>
    simp [boundLegs, boundSteps, Leg.ReachesAny, Piece.reachesAny_nil, List.filterMap_cons]

theorem Func.not_reachesAny_headLegs (own : Option String) (f : Func) :
    ¬Leg.ReachesAny (f.headLegs own) cs q := by
  cases own <;> simp [headLegs, Leg.ReachesAny, Leg.Reaches]

/-- An item declares names and asks for names besides. -/
theorem ModuleItem.reachesAny_legs (item : ModuleItem) :
    Leg.ReachesAny item.legs cs q ↔ Piece.ReachesAny false item.parts cs q := by
  cases item with
  | exportDefaultClass name c =>
    cases name <;> cases h : c.hasConstructor <;>
      simp [legs, h, parts, Leg.ReachesAny, Leg.Reaches, Piece.reachesAny_singleton]
  | exportDefaultFunction name f =>
    cases name <;> simp [legs, parts, Leg.ReachesAny, Leg.Reaches, Piece.reachesAny_singleton]
  | importEquals name source =>
    cases source <;> simp [legs, parts, Leg.ReachesAny, Leg.Reaches, Piece.reachesAny_nil]
  | importNames source specifiers =>
    simp [legs, parts, Leg.reachesAny_map_resolve, Piece.reachesAny_nil]
  | exportNames source specifiers =>
    cases source <;>
      simp [legs, parts, Leg.ReachesAny, Leg.reachesAny_map_resolve, Piece.reachesAny_nil]
  | exportDecl d =>
    -- Exported names are resolved behind the declaration, and lead nowhere.
    have hnames : ¬Leg.ReachesAny (d.exportedNames.map .resolve) cs q :=
      Leg.reachesAny_map_resolve id d.exportedNames
    simp [legs, parts, Leg.ReachesAny, Leg.Reaches, hnames, Piece.reachesAny_singleton]
  | _ =>
    simp [legs, parts, Leg.ReachesAny, Leg.Reaches, Piece.reachesAny_nil,
      Piece.reachesAny_singleton]

end

end Syntax

namespace Walk

variable {α β : Type}

/-! ## Steps at which a walk does not stop -/

theorem Course.still {walk : Walk α} {legs : List Leg} (h : Course walk legs)
    (hsilent : Silent walk) : Still walk :=
  ⟨hsilent, fun place s => by
    obtain ⟨es, hruns, -⟩ := h.traced place s
    exact hruns.continues.later⟩

/-! ## Walks over legs -/

/-- Wherever the walk starts, it stops at these pieces, inside of these scopes and functions. -/
def StopsAt (walk : Walk α) (reaches : List Crossing → Piece → Prop) : Prop :=
  ∀ (place : Place) (s : FileState), ∃ stops, walk.Stops place s stops ∧
    ∀ cs q, (∃ x ∈ stops, x.crossings = cs ∧ x.piece = q) ↔ reaches cs q

namespace StopsAt

variable {walk : Walk α} {next : α → Walk β} {R R' : List Crossing → Piece → Prop}

theorem congr (h : StopsAt walk R) (hiff : ∀ cs q, R cs q ↔ R' cs q) : StopsAt walk R' := by
  intro place s
  obtain ⟨stops, hstops, hat⟩ := h place s
  exact ⟨stops, hstops, fun cs q => (hat cs q).trans (hiff cs q)⟩

theorem leg {leg : Leg} (h : StopsAt walk leg.Reaches) : StopsAt walk (Leg.ReachesAny [leg]) :=
  h.congr fun _ _ => (Leg.reachesAny_singleton leg).symm

theorem still (h : Still walk) : StopsAt walk fun _ _ => False := by
  refine fun place s => ⟨[], .still h place s, fun cs q => ⟨?_, False.elim⟩⟩
  rintro ⟨x, hx, -⟩
  cases hx

/-- Two walks one after the other, where something is known of the result of the first. -/
theorem bindOf {P : α → Prop} (hresult : ∀ (place : Place) (s : FileState), P (walk place s).1)
    (h : StopsAt walk R) (hnext : ∀ a, P a → StopsAt (next a) R') :
    StopsAt (walk >>= next) fun cs q => R cs q ∨ R' cs q := by
  intro place s
  obtain ⟨stops, hstops, hat⟩ := h place s
  obtain ⟨stops', hstops', hat'⟩ :=
    hnext (walk place s).1 (hresult place s) place (walk place s).2
  refine ⟨stops ++ stops', .bind hstops hstops', fun cs q => ?_⟩
  show _ ↔ R cs q ∨ R' cs q
  rw [← hat, ← hat']
  simp [or_and_right, exists_or]

theorem bind (h : StopsAt walk R) (hnext : ∀ a, StopsAt (next a) R') :
    StopsAt (walk >>= next) fun cs q => R cs q ∨ R' cs q :=
  bindOf (P := fun _ => True) (fun _ _ => trivial) h fun a _ => hnext a

/-- A walk that may do again some of what it has done. -/
theorem again (h : StopsAt walk R)
    (hnext : ∀ a, ∃ R', StopsAt (next a) R' ∧ ∀ cs q, R' cs q → R cs q) :
    StopsAt (walk >>= next) R := by
  intro place s
  obtain ⟨stops, hstops, hat⟩ := h place s
  obtain ⟨R', hagain, hsub⟩ := hnext (walk place s).1
  obtain ⟨stops', hstops', hat'⟩ := hagain place (walk place s).2
  refine ⟨stops ++ stops', .bind hstops hstops', fun cs q => ⟨?_, fun hq => ?_⟩⟩
  · rintro ⟨x, hx, hpiece⟩
    rcases List.mem_append.1 hx with hx | hx
    · exact (hat cs q).1 ⟨x, hx, hpiece⟩
    · exact hsub cs q ((hat' cs q).1 ⟨x, hx, hpiece⟩)
  · obtain ⟨x, hx, hpiece⟩ := (hat cs q).2 hq
    exact ⟨x, List.mem_append_left _ hx, hpiece⟩

/-- Inside a scope all stops are those of the walk in it. -/
theorem inScope {kind : ScopeKind} (hkind : kind.hoistsVars = false) (h : StopsAt walk R) :
    StopsAt (inScope kind walk) (Piece.Within (.scope kind) R) := by
  intro place s
  obtain ⟨stops, hstops, hat⟩ := h { place with scope := ⟨s.flow.scopes.size⟩ }
    (s.createScope kind place.scope)
  refine ⟨_, .inScope hkind hstops, fun cs q => ?_⟩
  simp only [Piece.Within, ← hat, List.mem_map, exists_exists_and_eq_and]
  constructor
  · rintro ⟨x, hx, rfl, rfl⟩
    exact ⟨x.crossings, rfl, x, hx, rfl, rfl⟩
  · rintro ⟨_, rfl, x, hx, rfl, rfl⟩
    exact ⟨x, hx, rfl, rfl⟩

/-- The piece that the walk is over is stopped at first. -/
theorem here {p : Piece} (hover : Over p walk) (hfunc : p.isFunc = false)
    (h : StopsAt walk p.Interior) : StopsAt walk (p.Reaches false) := by
  have hnode : p.isNode = true := by cases hover <;> rfl
  intro place s
  obtain ⟨stops, hstops, hat⟩ := h place s
  refine ⟨_, .here hover hfunc hstops, fun cs q => ?_⟩
  rw [Piece.reaches_iff hfunc, ← hat]
  simp [hnode, Stop.crossings, eq_comm]

/-- A call is registered when the walk over it starts. -/
theorem call {role : Role} {e : Expr} {shape : CallShape} (hshape : e.callShape? = some shape)
    {next : CallId → Walk Evaluated}
    (hwalk : visit role e = addCall shape.kind shape.argCount shape.span >>= next)
    (h : ∀ c, StopsAt (next c) (Piece.expr e).Interior) :
    StopsAt (visit role e) ((Piece.expr e).Reaches false) := by
  intro place s
  obtain ⟨stops, hstops, hat⟩ := h ⟨s.flow.program.calls.size⟩ place
    (addCall shape.kind shape.argCount shape.span place s).2
  refine ⟨_, .call hshape hwalk hstops, fun cs q => ?_⟩
  rw [Piece.reaches_iff rfl, ← hat]
  simp [Piece.isNode, Stop.crossings, eq_comm]

/-- A function is registered when the walk over it starts, and then it is entered. -/
theorem function (name own : Option String) {isArrow : Bool} {f : Func}
    (hhead : ∀ value, StopsAt (declareHead value own f) fun _ _ => False)
    (h : ∀ id, StopsAt (walkInside id f) R) :
    StopsAt (visitFunction name own isArrow f) fun cs q =>
      (cs = [] ∧ q = .func f) ∨ Piece.Within (.function f isArrow) R cs q := by
  intro place s
  obtain ⟨stops, hstops, hat⟩ := (hhead (entry name isArrow f place s).value).bind
    (fun _ => h (entry name isArrow f place s).id) (entry name isArrow f place s).place
      (entry name isArrow f place s).state
  refine ⟨_, .function hstops, fun cs q => ?_⟩
  simp only [false_or] at hat
  simp only [Piece.Within, ← hat, List.mem_cons, List.mem_map, exists_eq_or_imp,
    exists_exists_and_eq_and]
  refine or_congr ?_ ?_
  · simp [Stop.crossings, eq_comm]
  · constructor
    · rintro ⟨x, hx, rfl, rfl⟩
      exact ⟨x.crossings, rfl, x, hx, rfl, rfl⟩
    · rintro ⟨_, rfl, x, hx, rfl, rfl⟩
      exact ⟨x, hx, rfl, rfl⟩

end StopsAt

/-- Where a walk registers nothing and nothing is reached, it does not stop. -/
theorem Course.stopsAt_nothing {walk : Walk α} {legs : List Leg} (h : Course walk legs)
    (hsilent : Silent walk) (hlegs : ∀ cs q, ¬Leg.ReachesAny legs cs q) :
    StopsAt walk (Leg.ReachesAny legs) :=
  (StopsAt.still (h.still hsilent)).congr fun cs q => (iff_false_intro (hlegs cs q)).symm

/-- A walk stops at what is reached on its legs. -/
theorem Course.stopsAt {walk : Walk α} {legs : List Leg} (h : Course walk legs) :
    StopsAt walk (Leg.ReachesAny legs) := by
  induction h with
  | idle h => exact (Course.idle h).stopsAt_nothing h.silent fun _ _ => id
  | resolve name =>
    exact (Course.resolve name).stopsAt_nothing (.resolve name)
      (by simp [Leg.ReachesAny, Leg.Reaches])
  | declare kind names =>
    exact (Course.declare kind names).stopsAt_nothing (.declare kind names)
      (by simp [Leg.ReachesAny, Leg.Reaches])
  | declareVars names =>
    exact (Course.declareVars names).stopsAt_nothing (.declareVars names)
      (by simp [Leg.ReachesAny, Leg.Reaches])
  | declaresNone h =>
    exact (Course.declaresNone h).stopsAt_nothing h.silent (by simp [Leg.ReachesAny, Leg.Reaches])
  | declaresBoth _ _ ih => exact ih.congr (by simp [Leg.ReachesAny, Leg.Reaches])
  | bindOf hresult _ _ ih ihnext =>
    exact (StopsAt.bindOf hresult ih ihnext).congr fun _ _ => (Leg.reachesAny_append _ _).symm
  | inScope hkind _ ih => exact (StopsAt.inScope hkind ih).leg
  -- The walk stops at the piece itself, then at what is inside of it.
  | @node _ _ p hover hsite _ ih =>
    have hfunc := Piece.isFunc_eq_false hsite
    refine (StopsAt.here hover hfunc ?_).leg
    exact ih.congr fun _ _ => (Piece.interior_iff_legs hfunc).symm
  -- A piece without a walk of its own is no stop.
  | @pass _ _ p legs hnode _ ih =>
    refine ih.congr fun cs q => ?_
    have hfunc := Piece.isFunc_eq_false (Piece.site?_eq_none hnode)
    rw [Leg.reachesAny_append, ← Piece.interior_iff_legs hfunc]
    refine or_congr_left ?_
    rw [Leg.Reaches, Piece.reaches_iff hfunc]
    simp [hnode]
  | @«class» name own c _ ih =>
    refine (StopsAt.here (.class name own c) rfl ?_).leg
    exact ih.congr fun _ _ => (c.interior_iff_legs own).symm
  | @call role e shape _ hshape hwalk _ ih =>
    refine (StopsAt.call hshape hwalk fun c => ?_).leg
    exact (ih c).congr fun _ _ => (Piece.interior_iff_legs rfl).symm
  | @function name own isArrow f _ _ _ ihhead ihparams ihbody =>
    have hlegs :
        (Piece.func f).legs = f.params.map (.enter <| .param ·) ++ [.enter (.body f.body)] := by
      cases f
      rfl
    have hinside (id : FunctionId) :
        StopsAt (walkInside id f) (Leg.ReachesAny (Piece.func f).legs) := by
      refine ((ihparams id).bind fun _ => ihbody id).congr fun cs q => ?_
      rw [hlegs, Leg.reachesAny_append]
    -- Names in the head lead nowhere, so only the parameters and the body are left.
    refine StopsAt.leg (StopsAt.congr (.function name own (fun value => ?_) hinside) fun cs q => ?_)
    · exact (ihhead value).congr fun _ _ => iff_false_intro (f.not_reachesAny_headLegs own)
    · exact (f.reaches_iff_legs isArrow).symm
  | @withDefault inner value source _ _ ihvalue ihinner =>
    rw [Walk.bind]
    refine StopsAt.leg ((ihvalue.bind fun default =>
      StopsAt.again (ihinner source) fun _ => ?_).congr fun cs q => ?_)
    · cases default.result with
      -- Whether the inner pattern is walked twice or not, the same pieces are reached.
      | none => exact ⟨_, .still ((Course.pure ()).still (.pure ())), fun _ _ => False.elim⟩
      | some default => exact ⟨_, ihinner (some default), fun _ _ => id⟩
    · simp [Leg.ReachesAny, Leg.Reaches, Piece.reachesAny_cons, Piece.reachesAny_nil]
  | @head _ h _ ih =>
    refine ih.congr fun _ _ => ?_
    rw [Leg.reachesAny_singleton, h.reachesAny_boundLegs]
    rfl

/-- The walk over a module stops where the module reaches. -/
theorem stopsAt_visitModule (m : Module) : StopsAt (visitModule m) m.Reaches := by
  refine (course_visitModule m).stopsAt.congr fun cs q => ?_
  have hitems (items : List ModuleItem) : Leg.ReachesAny (items.flatMap ModuleItem.legs) cs q ↔
      ∃ item ∈ items, Piece.ReachesAny false item.parts cs q := by
    induction items with
    | nil => simp [Leg.ReachesAny]
    | cons item items ih =>
      simp [Leg.reachesAny_append, ih, item.reachesAny_legs]
  rw [Module.legs]
  exact (or_iff_right id).trans (hitems m.items)

end Walk

end CallFlow
