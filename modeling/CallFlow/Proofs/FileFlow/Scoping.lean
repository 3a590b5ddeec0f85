import CallFlow.Proofs.FileFlow.CourseVisit
import CallFlow.Proofs.FileFlow.Uses
import CallFlow.Proofs.Registration.Steps

/-!
# A walk answers the references on its legs

A leg asks for names where some are in scope, and brings others into scope for the legs after it.
The references of a piece are those on its legs. So the walk over a piece resolves its references,
and those to declared names to variables, whenever the names that are in scope there are seen.
-/

namespace CallFlow

open Syntax

namespace Syntax

/-! ## The references on a leg -/

/-- What a single attribute refers to. -/
def Attribute.references (receiver : Bool) (names : List String) (a : Attribute) :
    List NameReference :=
  Attribute.referencesAll receiver names [a]

/-- What a single declarator refers to. -/
def Declarator.references (receiver : Bool) (names : List String) (d : Declarator) :
    List NameReference :=
  Declarator.referencesAll receiver names [d]

/-- What a single case refers to. -/
def Case.references (receiver : Bool) (names : List String) (c : Case) : List NameReference :=
  Case.referencesAll receiver names [c]

/-- Only what stands before the first `;` of a loop is in scope after it. -/
def Piece.bound : Piece → List String
  | head h => h.bound
  | expr _ | key _ | property _ | attr _ | func _ | body _ | param _ | .class _ | member _
  | pattern _ | field _ | decl _ | declarator _ | stmt _ | .case _ => []

/-- What a piece refers to where some names are in scope. A class has no name of its own here. -/
def Piece.references (receiver : Bool) (names : List String) : Piece → List NameReference
  | expr e => e.references receiver names
  | key k => k.references receiver names
  | property p => p.references receiver names
  | attr a => a.references receiver names
  | func f => f.references receiver [] names
  | body b => b.references receiver names
  | param p => p.references receiver names
  | .class c => c.references receiver none names
  | member m => m.references receiver names
  | pattern p => p.references receiver names
  | field f => f.references receiver names
  | decl d => d.references receiver names
  | declarator d => d.references receiver names
  | stmt s => s.references receiver names
  | head h => h.references receiver names
  | .case c => c.references receiver names

/-- What a leg brings into scope for the legs after it. -/
def Leg.bound : Leg → List String
  | .declare bound _ => bound
  | .enter p => p.bound
  | .head h => h.bound
  | .resolve _ | .func _ _ _ | .class _ _ | .withDefault _ _ | .scope _ _ => []

/-- What is in scope after these legs. -/
def Leg.after (names : List String) : List Leg → List String
  | [] => names
  | leg :: rest => Leg.after (leg.bound ++ names) rest

mutual

/-- What is asked for on a leg where these names are in scope. -/
def Leg.references (receiver : Bool) (names : List String) : Leg → List NameReference
  | .resolve name => [.of names name]
  | .declare _ _ => []
  | .enter p => p.references receiver (p.bound ++ names)
  | .func own isArrow f => f.references (if isArrow then receiver else true) own.toList names
  | .class own c => c.references receiver own names
  | .head h => h.targetReferences receiver names
  | .withDefault inner value =>
    value.references receiver names ++ (inner.references receiver names ++
      if value.yields receiver then inner.references receiver names else [])
  | .scope _ legs => Leg.referencesAll receiver names legs

/-- What legs refer to, each where the legs before it have left their names. -/
def Leg.referencesAll (receiver : Bool) (names : List String) : List Leg → List NameReference
  | [] => []
  | leg :: rest =>
    leg.references receiver names ++ Leg.referencesAll receiver (leg.bound ++ names) rest

end

namespace Leg

/-- Names that two lists of legs leave behind. -/
theorem after_append (names : List String) (legs legs' : List Leg) :
    after names (legs ++ legs') = after (after names legs) legs' := by
  induction legs generalizing names with
  | nil => rfl
  | cons leg legs ih => exact ih (leg.bound ++ names)

/-- What two lists of legs refer to. The second one finds the names that the first one leaves. -/
theorem referencesAll_append (receiver : Bool) (names : List String) (legs legs' : List Leg) :
    referencesAll receiver names (legs ++ legs') =
      referencesAll receiver names legs ++ referencesAll receiver (after names legs) legs' := by
  induction legs generalizing names with
  | nil => rfl
  | cons leg legs ih =>
    rw [List.cons_append, referencesAll, ih, referencesAll, List.append_assoc]
    rfl

section

variable {legs : List Leg} {names : List String} (h : legs.flatMap bound = [])

include h

/-- Legs that bring nothing into scope. -/
theorem after_eq : after names legs = names := by
  induction legs with
  | nil => rfl
  | cons leg legs ih =>
    rw [List.flatMap_cons, List.append_eq_nil_iff] at h
    rw [after, h.1]
    exact ih h.2

/-- Legs that leave no names all refer from where the first one does. -/
theorem referencesAll_eq (receiver : Bool) : referencesAll receiver names legs =
    legs.flatMap fun leg => leg.references receiver names := by
  induction legs with
  | nil => rfl
  | cons leg legs ih =>
    rw [List.flatMap_cons, List.append_eq_nil_iff] at h
    rw [referencesAll, h.1, List.nil_append, ih h.2, List.flatMap_cons]

end

end Leg

/-! ## Lists of pieces -/

section

variable (receiver : Bool) (names : List String)

theorem Expr.referencesAll_eq (es : List Expr) : Expr.referencesAll receiver names es =
    es.flatMap fun e => e.references receiver names :=
  eq_flatMap rfl (fun _ _ => rfl) es

theorem Expr.referencesOption_eq (e : Option Expr) : Expr.referencesOption receiver names e =
    e.toList.flatMap fun e => e.references receiver names := by
  cases e <;> simp [Expr.referencesOption]

theorem Property.referencesAll_eq (ps : List Property) :
    Property.referencesAll receiver names ps = ps.flatMap fun p => p.references receiver names :=
  eq_flatMap rfl (fun _ _ => rfl) ps

theorem Attribute.referencesAll_eq (as : List Attribute) :
    Attribute.referencesAll receiver names as = as.flatMap fun a => a.references receiver names :=
  eq_flatMap rfl (fun a _ => by
    cases a <;> simp [Attribute.references, Attribute.referencesAll]) as

theorem Pattern.referencesAll_eq (ps : List Pattern) : Pattern.referencesAll receiver names ps =
    ps.flatMap fun p => p.references receiver names :=
  eq_flatMap rfl (fun _ _ => rfl) ps

theorem PatternField.referencesAll_eq (fs : List PatternField) :
    PatternField.referencesAll receiver names fs =
      fs.flatMap fun f => f.references receiver names :=
  eq_flatMap rfl (fun _ _ => rfl) fs

theorem Param.referencesAll_eq (ps : List Param) : Param.referencesAll receiver names ps =
    ps.flatMap fun p => p.references receiver names :=
  eq_flatMap rfl (fun _ _ => rfl) ps

theorem Member.referencesAll_eq (ms : List Member) : Member.referencesAll receiver names ms =
    ms.flatMap fun m => m.references receiver names :=
  eq_flatMap rfl (fun _ _ => rfl) ms

theorem Declarator.referencesAll_eq (ds : List Declarator) :
    Declarator.referencesAll receiver names ds =
      ds.flatMap fun d => d.references receiver names :=
  eq_flatMap rfl (fun d _ => by
    cases d; simp [Declarator.references, Declarator.referencesAll]) ds

theorem Stmt.referencesAll_eq (ss : List Stmt) : Stmt.referencesAll receiver names ss =
    ss.flatMap fun s => s.references receiver names :=
  eq_flatMap rfl (fun _ _ => rfl) ss

theorem Stmt.referencesOption_eq (s : Option Stmt) : Stmt.referencesOption receiver names s =
    s.toList.flatMap fun s => s.references receiver names := by
  cases s <;> simp [Stmt.referencesOption]

theorem Case.referencesAll_eq (cs : List Case) : Case.referencesAll receiver names cs =
    cs.flatMap fun c => c.references receiver names :=
  eq_flatMap rfl (fun c _ => by cases c; simp [Case.references, Case.referencesAll]) cs

end

/-! ## One piece at a time -/

section

variable (receiver : Bool) (names : List String)

/-- A class leaves no names behind. -/
theorem Class.after_legs (own : Option String) (c : Class) :
    Leg.after names (c.legs own) = names := by
  obtain ⟨decorators, heritage, members⟩ := c
  simp [Class.legs, Leg.after_eq, Leg.bound, Piece.bound]

/-- What the legs of a piece bring into scope, the piece does. -/
theorem Piece.after_legs (p : Piece) : Leg.after names p.legs = p.bound ++ names := by
  cases p with
  | «class» c => exact c.after_legs names none
  -- Only the first part of a loop leaves its names to what is around it.
  | head h =>
    cases h with
    | decl d =>
      cases d <;>
        simp [legs, Decl.declares, bound, LoopHead.bound, Decl.bound, Leg.after, Leg.after_eq,
          Leg.bound]
    | _ => rfl
  | expr e =>
    cases e with
    | assign op target value =>
      simp only [legs]
      split
      · rfl
      · split <;> rfl
    | _ => simp [legs, bound, Leg.after_eq, Leg.bound]
  | decl d =>
    cases d with
    | «class» name c =>
      cases h : c.hasConstructor <;> simp [legs, h, bound, Leg.after_eq, Leg.bound]
    | _ => simp [legs, bound, Leg.after_eq, Leg.bound]
  | member m =>
    cases m with
    | method decorators k f =>
      cases h : k.isPrivate <;> simp [legs, h, bound, Leg.after_eq, Leg.bound]
    | _ => simp [legs, bound, Leg.after_eq, Leg.bound]
  | key k =>
    cases k with
    | computed e => cases e <;> rfl
    | _ => rfl
  | stmt s =>
    cases s with
    | «try» b p handler finalizer =>
      cases handler <;> simp [legs, bound, Leg.after_eq, Leg.bound]
    | _ => simp [legs, bound, Leg.after_eq, Leg.bound]
  | property x | attr x | func x | body x | param x | pattern x | field x | declarator x
  | «case» x =>
    cases x <;> simp [legs, bound, Leg.after_eq, Leg.bound]

/-- What stands before `in` or `of` is bound one by one. -/
theorem LoopHead.targetReferences_eq (h : LoopHead) :
    h.targetReferences receiver names = Leg.referencesAll receiver names h.boundLegs := by
  cases h with
  | decl d =>
    cases d with
    | vars kind declarators =>
      rw [targetReferences, boundLegs]
      induction declarators generalizing names with
      | nil => rfl
      | cons d rest ih =>
        obtain ⟨target, init⟩ := d
        simp [Declarator.targetReferencesAll, ih, Decl.declares, Decl.bound, Declarator.namesAll,
          Leg.referencesAll, Leg.references, Leg.bound, Piece.references, Piece.bound,
          Declarator.target]
    | _ => rfl
  | pattern p => exact (List.append_nil _).symm
  | expr | absent => rfl

/-- What the first part of a loop binds is in scope behind its legs. -/
theorem LoopHead.bound_subset (h : LoopHead) : h.bound ++ names ⊆ Leg.after names h.boundLegs := by
  cases h with
  | decl d =>
    cases d with
    | vars kind declarators =>
      rw [bound, boundLegs]
      induction declarators generalizing names with
      | nil => exact List.Subset.refl _
      | cons d rest ih =>
        obtain ⟨target, init⟩ := d
        refine List.Subset.trans (fun x hx => ?_) (ih (target.names ++ [] ++ names))
        simp only [Declarator.namesAll, List.flatMap_cons, Declarator.target,
          List.mem_append] at hx ⊢
        tauto
    | _ => exact List.Subset.refl _
  | pattern p => exact List.Subset.refl _
  | expr | absent => exact List.Subset.refl _

/-- What a class refers to is on its legs: all but its decorators and what it extends in the scope
of its own name. -/
theorem Class.references_eq (own : Option String) (c : Class) :
    c.references receiver own names = Leg.referencesAll receiver names (c.legs own) := by
  obtain ⟨decorators, heritage, members⟩ := c
  have hname : Leg.referencesAll receiver (own.toList ++ names)
      (if members.any Member.isConstructor then own.toList.map .resolve else []) =
        if members.any Member.isConstructor then own.toList.map (.of (own.toList ++ names))
        else [] := by
    cases members.any Member.isConstructor <;> cases own <;> rfl
  have hexprs : Leg.after names ((decorators ++ heritage.toList).map (.enter <| .expr ·)) = names :=
    Leg.after_eq (by simp [Leg.bound, Piece.bound])
  have hmembers : Leg.after (own.toList ++ names) (members.map (.enter <| .member ·)) =
      own.toList ++ names :=
    Leg.after_eq (by simp [Leg.bound, Piece.bound])
  simp only [Class.references, legs, List.cons_append, Leg.referencesAll_append, Leg.referencesAll,
    Leg.references, Leg.bound, hexprs, hmembers, hname]
  simp [Leg.references, Leg.referencesAll_eq, Leg.bound, Piece.references, Piece.bound,
    List.flatMap_map, Expr.referencesAll_eq, Expr.referencesOption_eq, Member.referencesAll_eq]

/-- A piece asks for what is asked for on its legs. -/
theorem Piece.references_eq {p : Piece} (hp : p.isFunc = false) :
    p.references receiver (p.bound ++ names) = Leg.referencesAll receiver names p.legs := by
  cases p with
  | func f => cases hp
  | «class» c => exact c.references_eq receiver names none
  | head h =>
    cases h with
    | decl d =>
      cases d <;> simp [legs, Decl.declares, references, bound, LoopHead.bound, Decl.bound,
        LoopHead.references, Leg.referencesAll, Leg.referencesAll_eq, Leg.references, Leg.bound,
        List.flatMap_map, Declarator.referencesAll_eq]
    | _ =>
      simp [legs, references, bound, LoopHead.bound, LoopHead.references, Leg.referencesAll_eq,
        Leg.references, Leg.bound]
  | expr e =>
    cases e with
    -- The target is passed over, taken by its key or bound.
    | assign op target value =>
      cases hsuper : target.superKey? with
      | some key =>
        obtain rfl := Pattern.eq_of_superKey? hsuper
        simp [legs, hsuper, references, bound, Expr.references, Pattern.references,
          Pattern.isLeftAlone, Leg.referencesAll_eq, Leg.references, Leg.bound]
      | none =>
        cases hleft : target.isLeftAlone <;>
          simp [legs, hsuper, hleft, references, bound, Expr.references, Leg.referencesAll_eq,
            Leg.references, Leg.bound]
    | _ => simp [legs, references, bound, Leg.referencesAll_eq, Leg.references, Leg.bound,
        Expr.references, List.flatMap_map, Expr.referencesAll_eq, Property.referencesAll_eq,
        Attribute.referencesAll_eq]
  | key k =>
    cases k with
    | computed e => cases e <;> simp [legs, references, bound, Key.references, Expr.references,
        Leg.referencesAll_eq, Leg.references, Leg.bound]
    | _ => rfl
  | property p =>
    cases p <;> simp [legs, references, bound, Property.references, Leg.referencesAll_eq,
      Leg.references, Leg.bound]
  | attr a =>
    cases a <;> simp [legs, references, bound, Attribute.references, Attribute.referencesAll,
      Leg.referencesAll_eq, Leg.references, Leg.bound]
  | body b =>
    cases b <;> simp [legs, references, bound, Body.references, Leg.referencesAll_eq,
      Leg.references, Leg.bound, List.flatMap_map, Stmt.referencesAll_eq]
  | param p =>
    cases p <;> simp [legs, references, bound, Param.references, Leg.referencesAll_eq,
      Leg.references, Leg.bound, List.flatMap_map, Expr.referencesOption_eq]
  | member m =>
    cases m with
    | method decorators k f =>
      cases h : k.isPrivate <;> simp [legs, h, references, bound, Member.references,
        Leg.referencesAll_eq, Leg.references, Leg.bound, List.flatMap_map, Expr.referencesAll_eq]
    | staticBlock stmts =>
      simp [legs, references, bound, Member.references, Stmt.blockLegs, Leg.referencesAll,
        Leg.references, Leg.bound, Leg.referencesAll_eq, List.flatMap_map, Stmt.referencesAll_eq]
    | _ => simp [legs, references, bound, Member.references, Leg.referencesAll_eq,
        Leg.references, Leg.bound, List.flatMap_map, Expr.referencesOption_eq]
  | pattern p =>
    cases p <;> simp [legs, references, bound, Pattern.references, Leg.referencesAll_eq,
      Leg.references, Leg.bound, List.flatMap_map, Pattern.referencesAll_eq,
      PatternField.referencesAll_eq]
  | field f =>
    cases f <;> simp [legs, references, bound, PatternField.references, Leg.referencesAll_eq,
      Leg.references, Leg.bound, List.flatMap_map, Expr.referencesOption_eq]
  | decl d =>
    cases d with
    | «class» name c =>
      cases h : c.hasConstructor <;> simp [legs, h, references, bound, Decl.references,
        Leg.referencesAll_eq, Leg.references, Leg.bound]
    | _ =>
      simp [legs, references, bound, Decl.references, Leg.referencesAll_eq, Leg.references,
        Leg.bound, List.flatMap_map, Declarator.referencesAll_eq]
  | declarator d =>
    cases d
    simp [legs, references, bound, Declarator.references, Declarator.referencesAll,
      Leg.referencesAll_eq, Leg.references, Leg.bound, List.flatMap_map, Expr.referencesOption_eq]
  | stmt s =>
    cases s with
    | block stmts =>
      simp [legs, references, bound, Stmt.references, Stmt.blockLegs, Leg.referencesAll,
        Leg.references, Leg.bound, Leg.referencesAll_eq, List.flatMap_map, Stmt.referencesAll_eq]
    | «for» h test update b =>
      simp [legs, references, bound, Stmt.references, Leg.referencesAll,
        Leg.references, Leg.bound, Leg.referencesAll_eq, List.flatMap_map, Expr.referencesOption_eq]
    | forEach h iterated b =>
      simp [legs, references, bound, Stmt.references, Leg.referencesAll, Leg.references, Leg.bound]
    | «switch» subject cases =>
      simp [legs, references, bound, Stmt.references, Leg.referencesAll, Leg.references, Leg.bound,
        Leg.referencesAll_eq, List.flatMap_map, Case.referencesAll_eq]
    -- The names of what is caught are in scope in its handler alone.
    | «try» b p handler finalizer =>
      cases handler with
      | none =>
        simp [legs, references, bound, Stmt.references, Leg.referencesAll_eq, Leg.references,
          Leg.bound, List.flatMap_map, Stmt.referencesOption_eq]
      | some handler =>
        cases p <;> simp [legs, references, bound, Stmt.references, Pattern.caughtLegs,
          Pattern.caught, Pattern.referencesOption, Leg.referencesAll, Leg.references, Leg.bound,
          Leg.referencesAll_eq, List.flatMap_map, Stmt.referencesOption_eq]
    | _ =>
      simp [legs, references, bound, Stmt.references, Leg.referencesAll_eq, Leg.references,
        Leg.bound, List.flatMap_map, Expr.referencesOption_eq, Stmt.referencesOption_eq]
  | «case» c =>
    cases c
    simp [legs, references, bound, Case.references, Case.referencesAll, Leg.referencesAll_eq,
      Leg.references, Leg.bound, List.flatMap_map, Expr.referencesOption_eq, Stmt.referencesAll_eq]

/-- The legs on which a function is entered ask for its own name only. -/
theorem Func.referencesAll_headLegs (own : Option String) (f : Func) :
    Leg.referencesAll receiver names (f.headLegs own) =
      own.toList.map (.of (own.toList ++ names)) := by
  cases own <;> rfl

/-- A function has its own name, its parameters and what its body binds in scope, the last ones in
front. -/
theorem Func.after_headLegs (own : Option String) (f : Func) : Leg.after names (f.headLegs own) =
    f.body.bound ++ (Param.boundAll f.params ++ (own.toList ++ names)) := by
  cases own <;> rfl

end

end Syntax

/-! ## Walks over legs -/

namespace Walk

variable {α : Type} {walk : Walk α} {legs : List Leg}

/-- What is no leg resolves no name. -/
theorem Idle.uses (h : Idle walk) (place : Place) (s : FileState) : walk.Uses place s [] := by
  induction h generalizing place s with
  | pure a => exact .basic (.pure a) place s
  | bind _ _ ih ihnext => exact .bind (ih place s) (ihnext _ place _)
  | read => exact .basic .read place s
  | vertex hv => exact .basic (.vertex hv) place s
  | exprVertex span => exact .basic (.exprVertex span) place s
  | edge source target => exact .basic (.edge source target) place s
  | addExport name value => exact .basic (.addExport name value) place s
  | addImport specifier imported target =>
    exact .basic (.addImport specifier imported target) place s
  | exportAssigned target value => exact .basic (.exportAssigned target value) place s
  | recordRequire chained callee args call =>
    exact .basic (.recordRequire chained callee args call) place s

/-- A walk resolves what is asked for on its legs. -/
theorem Course.refers (h : Course walk legs) (receiver : Bool) (names : List String) :
    walk.Refers receiver names (Leg.referencesAll receiver names legs) (Leg.after names legs) := by
  induction h generalizing receiver names with
  | idle h => exact .quiet h.uses
  | resolve name => exact .resolve name
  | declare kind declared => exact .declare kind declared
  | declareVars declared => exact .declareVars declared
  | declaresNone h => exact .quiet h.uses
  | @declaresBoth _ bound bound' kept _ _ _ hkept ih =>
    refine (ih receiver names).weaken (List.Subset.refl names) ?_
    show kept ++ names ⊆ bound' ++ (bound ++ names)
    intro x hx
    simp only [List.mem_append] at hx ⊢
    have := @hkept x
    simp only [List.mem_append] at this
    tauto
  | bindOf hresult _ _ ih ihnext =>
    rw [Leg.referencesAll_append, Leg.after_append]
    exact .bindOf (fun place s _ => hresult place s) (ih receiver names) fun a ha =>
      ihnext a ha receiver _
  | @inScope _ _ kind _ _ _ ih =>
    exact (Refers.inScope kind (ih receiver names)).congr (List.append_nil _).symm rfl
  | @node _ _ p _ hsite _ ih =>
    refine (ih receiver names).congr ?_ (p.after_legs names)
    rw [← Piece.references_eq receiver names (Piece.isFunc_eq_false hsite)]
    exact (List.append_nil _).symm
  | @pass _ _ p legs hnode _ ih =>
    have hfunc := Piece.isFunc_eq_false (Piece.site?_eq_none hnode)
    refine (ih receiver names).congr ?_ ?_
    · rw [Leg.referencesAll_append, p.after_legs, ← Piece.references_eq receiver names hfunc]
      rfl
    · rw [Leg.after_append, p.after_legs]
      rfl
  | @«class» _ own c _ ih =>
    refine (ih receiver names).congr ?_ (c.after_legs names own)
    rw [← c.references_eq]
    exact (List.append_nil _).symm
  | @call role e shape _ hshape hwalk _ ih =>
    rw [hwalk]
    refine Refers.congr (.bind (.basic (.addCall shape.kind shape.argCount shape.span)) fun c =>
      ih c receiver names) ?_ (Piece.after_legs names (.expr e))
    rw [← Piece.references_eq receiver names rfl]
    exact (List.append_nil _).symm
  | @function name own isArrow f _ _ _ ihhead ihparams ihbody =>
    obtain ⟨params, body, span⟩ := f
    have hinside (inner : Bool) (value : VertexId) (id : FunctionId) : Refers (do
        Walk.declareHead value own (.mk params body span)
        bindParams id 1 params
        visitBody id body) inner names
      (Func.references inner own.toList names (.mk params body span))
          (body.bound ++ (Param.boundAll params ++ (own.toList ++ names))) := by
      refine .bind ((ihhead value inner names).congr (Func.referencesAll_headLegs ..)
        (Func.after_headLegs ..)) fun _ => ?_
      -- what is declared in the body is declared by now, but the parameters do not count on it
      have hparams := (ihparams id inner (Param.boundAll params ++ (own.toList ++ names))).keep
        (List.subset_append_right body.bound _)
      refine .bind (hparams.congr ?_ rfl) fun _ => (ihbody id inner _).congr (List.append_nil _) rfl
      simp [Leg.referencesAll_eq, Leg.references, Leg.bound, Piece.references, Piece.bound,
        List.flatMap_map, Param.referencesAll_eq, Func.params]
    refine Refers.congr ?_ (List.append_nil _).symm rfl
    rw [visitFunction]
    refine .silent (.basic (.addFunction name (params.countP Param.isSlotted) isArrow span))
      fun id => ?_
    refine .silent (.basic (.vertex rfl)) fun value => ?_
    -- from here on the walk is in the scope of the function, with its receiver
    exact .ending (.inScope _ (.inFunction (hinside _ value id))) fun _ => .basic (.pure _)
  | @withDefault inner value source _ _ ihvalue ihinner =>
    refine Refers.congr ?_ (List.append_nil _).symm rfl
    rw [Walk.bind, Leg.references]
    refine .bindOf (P := fun v => v.result.isSome = value.yields receiver) ?_
      ((ihvalue receiver names).congr (List.append_nil _) rfl) fun default hdefault => ?_
    · rintro place s rfl
      exact isSome_visit place value .value s
    have hwalked (source : Option VertexId) :
        Refers (Walk.bind inner source) receiver names (inner.references receiver names) names :=
      (ihinner source receiver names).congr (List.append_nil _) rfl
    refine .bind (hwalked source) fun _ => ?_
    -- the default is walked into the same pattern if it has a vertex to bind
    rw [← hdefault]
    cases default.result with
    | none => exact .basic (.pure ())
    | some default => exact hwalked default
  | @head _ h _ ih =>
    refine ((ih receiver names).weaken (List.Subset.refl names) (h.bound_subset names)).congr ?_ rfl
    rw [← h.targetReferences_eq]
    exact (List.append_nil _).symm

/-! ## The walk over a module -/

end Walk

/-- No function is around an item of a module. -/
theorem Syntax.ModuleItem.references_eq (names : List String) (item : ModuleItem) :
    item.references names = Leg.referencesAll false names item.legs ∧
      Leg.after names item.legs = names := by
  cases item with
  | exportDefaultClass name c =>
    cases name <;> cases h : c.hasConstructor <;>
      simp [references, legs, h, Leg.referencesAll, Leg.references, Leg.after, Leg.bound]
  | importEquals name source =>
    cases source <;>
      simp [references, legs, Leg.referencesAll, Leg.references, Leg.after, Leg.bound]
  | exportNames source specifiers =>
    cases source <;>
      simp [references, legs, Leg.referencesAll_eq, Leg.references, Leg.after_eq, Leg.bound,
        List.flatMap_map, ← List.map_eq_flatMap]
  | _ =>
    simp [references, legs, Leg.referencesAll_eq, Leg.references, Leg.after_eq, Leg.bound,
      Piece.references, Piece.bound, List.flatMap_map, ← List.map_eq_flatMap]

/-- A module refers to what is on its legs. -/
theorem Syntax.Module.references_eq (m : Module) :
    m.references = Leg.referencesAll false [] m.legs := by
  have hitems (names : List String) (items : List ModuleItem) :
      items.flatMap (ModuleItem.references names) =
        Leg.referencesAll false names (items.flatMap ModuleItem.legs) := by
    induction items with
    | nil => rfl
    | cons item items ih =>
      obtain ⟨hitem, hafter⟩ := item.references_eq names
      rw [List.flatMap_cons, List.flatMap_cons, Leg.referencesAll_append, hitem, hafter, ih]
  refine (hitems _ m.items).trans ?_
  rw [Module.legs, Leg.referencesAll, Leg.bound, List.append_nil]
  rfl

namespace Walk

/-- A module asks for its references, and those to declared names are variables. -/
theorem refers_visitModule (m : Module) :
    (visitModule m).Refers false [] m.references (Leg.after [] m.legs) :=
  ((course_visitModule m).refers false []).congr m.references_eq.symm rfl

end Walk

end CallFlow
