import CallFlow.Proofs.FileFlow.CourseVisit
import CallFlow.Proofs.FileFlow.Trace

/-!
# What the walk over a tree declares

What a walk over legs does with names can be listed from wherever it starts. In the list the names
that `var` declares for the body around are those on the legs, and for a piece of syntax these are
the ones of `Stmt.redeclared`.
-/

namespace CallFlow

open Syntax

namespace Syntax

/-! ## The names on a leg -/

/-- What a single case redeclares. -/
def Case.redeclared (c : Case) : List String := Case.redeclaredAll [c]

/-- The names that are declared by `var` for the body around when the piece is walked. Nothing of a
function is. -/
def Piece.redeclared : Piece → List String
  | body b => b.redeclared
  | member m => m.redeclared
  | stmt s => s.redeclared
  | head h => h.varNames
  | .case c => c.redeclared
  | expr _ | key _ | property _ | attr _ | func _ | param _ | .class _ | pattern _ | field _
  | decl _
  | declarator _ => []

/-- Whether nothing but names of `var` is declared in the scope around the piece. -/
def Piece.apart : Piece → Bool
  | head _ => false
  | expr _ | key _ | property _ | attr _ | func _ | body _ | param _ | .class _ | member _
  | pattern _ | field _ | decl _ | declarator _ | stmt _ | .case _ => true

/-- Whether nothing is declared on the leg but by `var`, and but inside of scopes. -/
def Leg.apart : Leg → Bool
  | .declare _ _ | .head _ => false
  | .enter p => p.apart
  | .resolve _ | .func _ _ _ | .class _ _ | .withDefault _ _ | .scope _ _ => true

mutual

/-- The names that are declared by `var` for the body around. -/
def Leg.vars : Leg → List String
  | .declare _ vars => vars
  | .enter p => p.redeclared
  | .head h => h.varNames
  | .scope kind legs => if kind.nests then Leg.varsAll legs else []
  | .resolve _ | .func _ _ _ | .class _ _ | .withDefault _ _ => []

/-- What `var` declares on legs, in their order. -/
def Leg.varsAll : List Leg → List String
  | [] => []
  | leg :: rest => leg.vars ++ Leg.varsAll rest

end

theorem Leg.varsAll_eq (legs : List Leg) : Leg.varsAll legs = legs.flatMap Leg.vars :=
  eq_flatMap rfl (fun _ _ => rfl) legs

theorem Leg.varsAll_append (legs legs' : List Leg) :
    Leg.varsAll (legs ++ legs') = Leg.varsAll legs ++ Leg.varsAll legs' := by
  simp [Leg.varsAll_eq]

theorem Stmt.redeclaredAll_eq (ss : List Stmt) :
    Stmt.redeclaredAll ss = ss.flatMap fun s => s.redeclared :=
  eq_flatMap (by rw [Stmt.redeclaredAll]) (fun _ _ => by rw [Stmt.redeclaredAll]) ss

/-- A statement that may be left out adds what it redeclares if it is there. -/
theorem Stmt.redeclaredOption_eq (s : Option Stmt) :
    Stmt.redeclaredOption s = s.toList.flatMap fun s => s.redeclared := by
  cases s <;> simp [Stmt.redeclaredOption]

theorem Case.redeclaredAll_eq (cs : List Case) :
    Case.redeclaredAll cs = cs.flatMap fun c => c.redeclared :=
  eq_flatMap (by rw [Case.redeclaredAll])
    (fun c _ => by cases c; simp [Case.redeclared, Case.redeclaredAll]) cs

/-- What `var` declares in the first part of a loop is on its legs. -/
theorem LoopHead.varNames_eq (h : LoopHead) : h.varNames = Leg.varsAll h.boundLegs := by
  cases h with
  | decl d =>
    cases d with
    | vars kind declarators =>
      rw [varNames, boundLegs]
      induction declarators with
      | nil => cases kind <;> rfl
      | cons d rest ih =>
        have hnames : (Decl.vars kind (d :: rest)).varNames =
            (Decl.vars kind [d]).varNames ++ (Decl.vars kind rest).varNames := by
          cases kind with
          | var => simp [Decl.varNames, Declarator.namesAll]
          | «let» | const => rfl
        rw [hnames, ih]
        rfl
    | _ => rfl
  | _ => rfl

/-- Nothing in a class is declared around it. -/
theorem Class.varsAll_legs (own : Option String) (c : Class) : Leg.varsAll (c.legs own) = [] := by
  obtain ⟨decorators, heritage, members⟩ := c
  simp [legs, Leg.varsAll_eq, Leg.vars, Piece.redeclared, ScopeKind.nests]

/-- What is declared when a piece is walked is declared on its legs. -/
theorem Piece.redeclared_eq {p : Piece} (hp : p.isFunc = false) :
    p.redeclared = Leg.varsAll p.legs := by
  cases p with
  | func f => cases hp
  | «class» c => exact (c.varsAll_legs none).symm
  | expr e =>
    cases e with
    | assign op target value =>
      simp only [legs]
      split
      · rfl
      · split <;> rfl
    | _ => simp [legs, redeclared, Leg.varsAll_eq, Leg.vars]
  | key k =>
    cases k with
    | computed e => cases e <;> rfl
    | _ => rfl
  | member m =>
    cases m with
    | method decorators k f =>
      cases h : k.isPrivate <;>
        simp [legs, h, redeclared, Member.redeclared, Leg.varsAll_eq, Leg.vars]
    | _ =>
      simp [legs, redeclared, Member.redeclared, Stmt.blockLegs, Leg.varsAll_eq, Leg.vars,
        Stmt.redeclaredAll_eq, ScopeKind.nests, List.flatMap_map]
  | body b =>
    cases b <;>
      simp [legs, redeclared, Body.redeclared, Leg.varsAll_eq, Leg.vars, Stmt.redeclaredAll_eq,
        List.flatMap_map]
  -- Statements are the only pieces in which a `var` passes out of a scope, and so the only ones
  -- with names on their legs.
  | stmt s =>
    cases s with
    | «try» b p handler finalizer =>
      cases handler <;> cases p <;>
        simp [legs, redeclared, Stmt.redeclared, Pattern.caughtLegs, Leg.varsAll_eq, Leg.vars,
          ScopeKind.nests, List.flatMap_map, Stmt.redeclaredOption_eq]
    | «for» h test update b =>
      cases test <;> cases update <;>
        simp [legs, redeclared, Stmt.redeclared, Leg.varsAll_eq, Leg.vars, ScopeKind.nests]
    | _ =>
      simp [legs, redeclared, Stmt.redeclared, Stmt.blockLegs, Leg.varsAll_eq, Leg.vars,
        ScopeKind.nests, List.flatMap_map, Stmt.redeclaredAll_eq, Stmt.redeclaredOption_eq,
        Case.redeclaredAll_eq]
  | head h =>
    cases h with
    | decl d =>
      cases d <;>
        simp [legs, redeclared, LoopHead.varNames, Decl.declares, Decl.varNames, Leg.varsAll_eq,
          Leg.vars]
    | _ => rfl
  | «case» c =>
    cases c
    simp [legs, redeclared, Case.redeclared, Case.redeclaredAll, Leg.varsAll_eq, Leg.vars,
      List.flatMap_map, Stmt.redeclaredAll_eq]
  | decl d =>
    cases d with
    | «class» name c =>
      cases h : c.hasConstructor <;> simp [legs, h, redeclared, Leg.varsAll_eq, Leg.vars]
    | _ => simp [legs, redeclared, Leg.varsAll_eq, Leg.vars]
  | property x | attr x | param x | pattern x | field x | declarator x =>
    cases x <;> simp [legs, redeclared, Leg.varsAll_eq, Leg.vars]

theorem Class.apart_legs (own : Option String) (c : Class) :
    (c.legs own).all Leg.apart = true := by
  obtain ⟨decorators, heritage, members⟩ := c
  simp [legs, Leg.apart, Piece.apart]

/-- No piece declares a name for what is around it, but for the first part of a loop. -/
theorem Piece.apart_legs {p : Piece} (h : p.apart = true) : p.legs.all Leg.apart = true := by
  cases p with
  | head => cases h
  | «class» c => exact c.apart_legs none
  | expr e =>
    cases e with
    | assign op target value =>
      simp only [legs]
      split
      · rfl
      · split <;> rfl
    | _ => simp [legs, Leg.apart, apart]
  | key k =>
    cases k with
    | computed e => cases e <;> rfl
    | _ => rfl
  | member m =>
    cases m with
    | method decorators k f => cases h : k.isPrivate <;> simp [legs, h, Leg.apart, apart]
    | _ => simp [legs, Leg.apart, apart]
  | decl d =>
    cases d with
    | «class» name c => cases h : c.hasConstructor <;> simp [legs, h, Leg.apart]
    | _ => simp [legs, Leg.apart, apart]
  | stmt s =>
    cases s with
    -- What is caught has its name in a scope.
    | «try» b p handler finalizer => cases handler <;> simp [legs, Leg.apart, apart]
    | _ => simp [legs, Leg.apart, apart]
  | property x | attr x | func x | body x | param x | pattern x | field x | declarator x
  | «case» x =>
    cases x <;> simp [legs, Leg.apart, apart]

/-- Only statements of a module are walked as such, and nothing is declared but what they do. -/
theorem ModuleItem.redeclared_eq (item : ModuleItem) : item.redeclared = Leg.varsAll item.legs := by
  cases item with
  | exportDefaultClass name c =>
    cases h : c.hasConstructor <;> simp [redeclared, legs, h, Leg.varsAll_eq, Leg.vars]
  | importEquals name source => cases source <;> rfl
  | exportNames source specifiers =>
    cases source <;> simp [redeclared, legs, Leg.varsAll_eq, Leg.vars]
  | _ => simp [redeclared, legs, Leg.varsAll_eq, Leg.vars, Piece.redeclared]

theorem ModuleItem.apart_legs (item : ModuleItem) : item.legs.all Leg.apart = true := by
  cases item with
  | exportDefaultClass name c => cases h : c.hasConstructor <;> simp [legs, h, Leg.apart]
  | importEquals name source => cases source <;> rfl
  | exportNames source specifiers => cases source <;> simp [legs, Leg.apart]
  | _ => simp [legs, Leg.apart, Piece.apart]

end Syntax

namespace Walk

variable {α β : Type}

/-! ## Walks that can be listed -/

/-- From wherever the walk starts, what it does with names can be listed, and these are the names
that it declares by `var` for the body around. A walk that keeps `apart` declares no others in the
scope that it starts in. -/
def Traced (apart : Bool) (walk : Walk α) (vars : List String) : Prop :=
  ∀ (place : Place) (s : FileState), ∃ es, walk.Runs place s es ∧
    Event.varsThrough ScopeKind.nests es = vars ∧
      (apart = true → ∀ e ∈ es, e.within = [] → e.act.isDeclare = false)

namespace Traced

variable {apart : Bool} {walk : Walk α} {next : α → Walk β} {vars vars' : List String}

theorem plain (h : Plain walk) : Traced apart walk [] :=
  fun place s => ⟨[], .plain h place s, rfl, fun _ => List.forall_mem_nil _⟩

theorem pure (a : α) : Traced apart (Pure.pure a : Walk α) [] := .plain (.pure a)

theorem congr (h : Traced apart walk vars) (hvars : vars = vars') : Traced apart walk vars' :=
  hvars ▸ h

/-- Names may be declared in the scope where none has to be kept apart. -/
theorem weaken {apart' : Bool} (h : Traced apart walk vars)
    (hapart : apart' = true → apart = true) :
    Traced apart' walk vars := by
  intro place s
  obtain ⟨es, hruns, hvars, hkeep⟩ := h place s
  exact ⟨es, hruns, hvars, fun h => hkeep (hapart h)⟩

/-- Two walks one after the other, where something is known of the result of the first. -/
theorem bindOf {P : α → Prop} (hresult : ∀ (place : Place) (s : FileState), P (walk place s).1)
    (h : Traced apart walk vars) (hnext : ∀ a, P a → Traced apart (next a) vars') :
    Traced apart (walk >>= next) (vars ++ vars') := by
  intro place s
  obtain ⟨es, hruns, hvars, hapart⟩ := h place s
  obtain ⟨es', hruns', hvars', hapart'⟩ :=
    hnext (walk place s).1 (hresult place s) place (walk place s).2
  refine ⟨es ++ es', .bind hruns hruns', ?_, fun hb =>
    List.forall_mem_append.2 ⟨hapart hb, hapart' hb⟩⟩
  rw [Event.varsThrough_append, hvars, hvars']

theorem bind (h : Traced apart walk vars) (hnext : ∀ a, Traced apart (next a) vars') :
    Traced apart (walk >>= next) (vars ++ vars') :=
  bindOf (P := fun _ => True) (fun _ _ => trivial) h fun a _ => hnext a

/-- A walk that declares nothing for the body around. -/
theorem step (h : Traced apart walk []) (hnext : ∀ a, Traced apart (next a) vars) :
    Traced apart (walk >>= next) vars :=
  h.bind hnext

theorem forM {γ : Type} {f : γ → Walk Unit} {bound : γ → List String}
    (hf : ∀ c, Traced apart (f c) (bound c)) (cs : List γ) :
    Traced apart (cs.forM f) (cs.flatMap bound) := by
  induction cs with
  | nil => exact .pure ()
  | cons c cs ih => exact (hf c).bind fun _ => ih

/-! ### Steps -/

theorem vertex {v : Vertex} (hv : v.variable? = none) : Traced apart (vertex v) [] :=
  .plain (.vertex hv)

theorem edge (source target : VertexId) : Traced apart (edge source target) [] :=
  .plain (.edge source target)

theorem flow (source : Option VertexId) (target : VertexId) :
    Traced apart (flow source target) [] := by
  cases source with
  | none => exact .pure ()
  | some source => exact .edge source target

theorem passReceiver (call : CallId) (object : Option VertexId) :
    Traced apart (passReceiver call object) [] := by
  cases object with
  | none => exact .pure ()
  | some object => exact .step (.vertex rfl) fun _ => .edge _ _

theorem resolve (name : String) : Traced apart (resolve name) [] :=
  fun place s => ⟨_, .resolve name place s, rfl, fun _ => List.forall_mem_singleton.2 fun _ => rfl⟩

theorem declare (kind : SymbolKind) (names : List String) :
    Traced false (declare kind names) [] :=
  fun place s => ⟨_, .declare kind names place s, rfl, nofun⟩

theorem declareVars (names : List String) : Traced apart (declareVars names) names :=
  fun place s => ⟨_, .declareVars names place s, List.append_nil names,
    fun _ => List.forall_mem_singleton.2 fun _ => rfl⟩

/-- What is declared in a scope of its own is not declared around it. -/
theorem inScope (kind : ScopeKind) (h : Traced false walk vars) :
    Traced apart (inScope kind walk) (if kind.nests then vars else []) := by
  intro place s
  obtain ⟨es, hruns, hvars, -⟩ :=
    h { place with scope := ⟨s.flow.scopes.size⟩ } (s.createScope kind place.scope)
  refine ⟨_, .inScope hruns, ?_, fun _ => List.forall_mem_map.2 fun e _ => nofun⟩
  rw [Event.varsThrough_inside, hvars]

/-- Nothing in a function is declared around it. -/
theorem function (name own : Option String) (isArrow : Bool) (f : Func)
    (h : ∀ value id, Traced false (do
      declareHead value own f
      walkInside id f) vars) : Traced apart (visitFunction name own isArrow f) [] := by
  intro place s
  obtain ⟨es, hruns, -⟩ := h (entry name isArrow f place s).value (entry name isArrow f place s).id
    (entry name isArrow f place s).place (entry name isArrow f place s).state
  have hkind : (functionKind isArrow).nests = false := by cases isArrow <;> rfl
  refine ⟨_, .function hruns, ?_, fun _ => List.forall_mem_cons.2 ⟨fun _ => rfl,
    List.forall_mem_map.2 fun e _ => nofun⟩⟩
  have hinside : Event.varsThrough ScopeKind.nests (es.map (Event.inside (functionKind isArrow))) =
      [] := by
    rw [Event.varsThrough_inside, hkind]
    rfl
  exact hinside

end Traced

/-! ## Walks over legs -/

/-- What is no leg does nothing with names. -/
theorem Idle.traced {apart : Bool} {walk : Walk α} (h : Idle walk) : Traced apart walk [] := by
  induction h with
  | pure a => exact .pure a
  | bind _ _ ih ihnext => exact .step ih ihnext
  | read => exact .plain .read
  | vertex hv => exact .plain (.vertex hv)
  | exprVertex span => exact .plain (.exprVertex span)
  | edge source target => exact .plain (.edge source target)
  | addExport name value => exact .plain (.addExport name value)
  | addImport specifier imported target => exact .plain (.addImport specifier imported target)
  | exportAssigned target value => exact .plain (.exportAssigned target value)
  | recordRequire chained callee args call =>
    exact .plain (.recordRequire chained callee args call)

/-- What a walk declares is declared on its legs. -/
theorem Course.traced {walk : Walk α} {legs : List Leg} (h : Course walk legs) :
    Traced (legs.all Leg.apart) walk (Leg.varsAll legs) := by
  induction h with
  | idle h => exact h.traced
  | resolve name => exact .resolve name
  | declare kind names => exact .declare kind names
  | declareVars names => exact (Traced.declareVars names).congr (List.append_nil names).symm
  | declaresNone h => exact h.traced
  | declaresBoth _ _ ih =>
    refine ih.congr ?_
    simp only [Leg.varsAll, Leg.vars, List.append_nil]
  -- A name on either part is one of both together.
  | bindOf hresult _ _ ih ihnext =>
    rw [Leg.varsAll_append, List.all_append]
    exact .bindOf hresult (ih.weaken fun h => (Bool.and_eq_true_iff.1 h).1) fun a ha =>
      (ihnext a ha).weaken fun h => (Bool.and_eq_true_iff.1 h).2
  | inScope _ _ ih =>
    exact (Traced.inScope _ (ih.weaken nofun)).congr (List.append_nil _).symm
  -- A piece that is walked by itself redeclares what is on its legs.
  | @node _ _ p _ hsite _ ih =>
    refine (ih.congr ?_).weaken fun h => ?_
    · rw [← Piece.redeclared_eq (Piece.isFunc_eq_false hsite)]
      exact (List.append_nil _).symm
    · exact Piece.apart_legs ((Bool.and_true _).symm.trans h)
  | @pass _ _ p legs hnode _ ih =>
    refine (ih.congr ?_).weaken fun h => ?_
    · rw [Leg.varsAll_append,
        ← Piece.redeclared_eq (Piece.isFunc_eq_false (Piece.site?_eq_none hnode))]
      rfl
    · rw [List.all_cons, Bool.and_eq_true] at h
      rw [List.all_append, Piece.apart_legs h.1, h.2]
      rfl
  | @«class» _ own c _ ih =>
    exact (ih.congr (c.varsAll_legs own)).weaken fun _ => c.apart_legs own
  -- Registering a call does nothing with names.
  | @call role e shape _ hshape hwalk _ ih =>
    rw [hwalk]
    refine .step (.plain (.addCall shape.kind shape.argCount shape.span)) fun c => ?_
    exact ((ih c).congr (Piece.redeclared_eq rfl).symm).weaken fun _ => Piece.apart_legs rfl
  | @function name own isArrow f _ _ _ ihhead ihparams ihbody =>
    -- All that is declared in a function stays inside.
    have hinside (value : VertexId) (id : FunctionId) : Traced false (do
        Walk.declareHead value own f
        walkInside id f) (Leg.varsAll (f.headLegs own) ++
          (Leg.varsAll (f.params.map (.enter <| .param ·)) ++
            Leg.varsAll [.enter (.body f.body)])) :=
      .bind ((ihhead value).weaken nofun) fun _ =>
        .bind ((ihparams id).weaken nofun) fun _ => (ihbody id).weaken nofun
    exact .function name own isArrow f hinside
  -- A pattern declares nothing, however often it is walked.
  | @withDefault inner value source _ _ ihvalue ihinner =>
    rw [Walk.bind]
    refine .step ihvalue fun default => .step (ihinner source) fun _ => ?_
    cases default.result with
    | none => exact .pure ()
    | some default => exact ihinner (some default)
  | @head _ h _ ih =>
    refine (ih.congr ?_).weaken nofun
    rw [← h.varNames_eq]
    exact (List.append_nil _).symm

/-- On such legs no name is declared but by `var`. -/
theorem Course.traced_of_apart {apart : Bool} {walk : Walk α} {legs : List Leg}
    (h : Course walk legs) (hlegs : legs.all Leg.apart = true) :
    Traced apart walk (Leg.varsAll legs) :=
  h.traced.weaken fun _ => hlegs

/-! ### Parts of the walk -/

theorem traced_visit (apart : Bool) (role : Role) (e : Expr) : Traced apart (visit role e) [] :=
  (course_visit role e).traced_of_apart rfl

theorem traced_visitKey (apart : Bool) (k : Key) : Traced apart (visitKey k) [] :=
  (course_visitKey k).traced_of_apart rfl

theorem traced_bind (apart : Bool) (p : Pattern) (source : Option VertexId) :
    Traced apart (bind p source) [] :=
  (course_bind p source).traced_of_apart rfl

theorem traced_visitArgs (apart : Bool) (call : CallId) (slot : Nat) (es : List Expr) :
    Traced apart (visitArgs call slot es) [] := by
  refine ((course_visitArgs call slot es).traced_of_apart ?_).congr ?_
  · simp [Leg.apart, Piece.apart]
  · simp [Leg.varsAll_eq, Leg.vars, Piece.redeclared]

theorem traced_bindParams (apart : Bool) (f : FunctionId) (slot : Nat) (ps : List Param) :
    Traced apart (bindParams f slot ps) [] := by
  refine ((course_bindParams f slot ps).traced_of_apart ?_).congr ?_
  · simp [Leg.apart, Piece.apart]
  · simp [Leg.varsAll_eq, Leg.vars, Piece.redeclared]

theorem traced_visitBody (apart : Bool) (f : FunctionId) (b : Body) :
    Traced apart (visitBody f b) b.redeclared :=
  ((course_visitBody f b).traced_of_apart rfl).congr (List.append_nil _)

theorem traced_bindClassName (apart : Bool) (own : Option String) (constructor : Option VertexId) :
    Traced apart (bindClassName own constructor) [] := by
  have h := Course.bindClassName own constructor
  cases own <;> cases constructor <;> exact h.traced_of_apart rfl

/-- A member of a class redeclares what it has in a block. -/
theorem traced_visitMember (apart : Bool) (m : Member) :
    Traced apart (visitMember m) m.redeclared := by
  cases hm : m.isConstructor with
  | false => exact ((course_visitMember m hm).traced_of_apart rfl).congr (List.append_nil _)
  | true =>
    cases m with
    | constructor f =>
      rw [visitMember]
      exact .pure ()
    | method _ _ _ | field _ _ _ | staticBlock _ => cases hm

theorem Traced.declareHead (value : VertexId) (own : Option String) (f : Func) :
    Traced false (declareHead value own f) f.body.ownVarNames := by
  have h : Traced false (Walk.declareHead value own f) (Leg.varsAll (f.headLegs own)) :=
    (Course.declareHead value own f).traced.weaken nofun
  refine h.congr ?_
  cases own <;> exact List.append_nil _

/-- An item of a module declares its names, among which are those of every `var` in it. -/
theorem traced_hoistItem (item : ModuleItem) : Traced false (hoistItem item) item.ownVarNames :=
  (Course.hoistItem item).traced.congr (List.append_nil _)

theorem traced_visitItem (apart : Bool) (item : ModuleItem) :
    Traced apart (visitItem item) item.redeclared :=
  ((course_visitItem item).traced_of_apart item.apart_legs).congr item.redeclared_eq.symm

theorem traced_visitModule (m : Module) : Traced false (visitModule m)
    (m.items.flatMap ModuleItem.ownVarNames ++ m.items.flatMap ModuleItem.redeclared) :=
  .bind (.forM traced_hoistItem m.items) fun _ => .forM (traced_visitItem false) m.items

end Walk

end CallFlow
