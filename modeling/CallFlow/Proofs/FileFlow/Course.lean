import CallFlow.Proofs.FileFlow.Equations
import CallFlow.Proofs.Syntax.Legs

/-!
# The course of a walk

`Walk.Course` says of a walk that it goes through a list of legs, whatever the state is that it
finds. A walk is put together from steps, and so is its course. What all steps keep holds of every
walk with a course, by induction on it. So a property of walks is proved once for each kind of
step and once for the legs of each piece, and the functions of the walk need not be gone through
again.

* A step is a leg, or it is `Idle`: it declares nothing, resolves no name and registers nothing.
* What a walk does after a step may hang on what the step returns, but its course does not.
* `Over` lists the walks that are over a piece of syntax. A leg that enters a piece is such a walk.

A course forgets the values that are passed on between the steps and the states in between. What
compares two walks, or speaks of the value that comes back, is not a matter of the course and
follows the functions of the walk itself.
-/

namespace CallFlow

open Syntax

/-- The symbol whose variable this is. -/
def Vertex.variable? : Vertex → Option SymbolId
  | .var x => some x
  | _ => none

namespace Walk

variable {α β : Type}

/-! ## Steps that are no leg -/

/-- A walk that registers nothing, declares nothing and resolves no name. The last two steps may ask
whether a name is a global, and only record what is offered and taken. -/
inductive Idle : {α : Type} → Walk α → Prop
  | pure {α : Type} (a : α) : Idle (Pure.pure a : Walk α)
  | bind {α β : Type} {walk : Walk α} {next : α → Walk β} (h : Idle walk)
      (hnext : ∀ a, Idle (next a)) : Idle (walk >>= next)
  | read : Idle (read : Walk Place)
  | vertex {v : Vertex} (hv : v.variable? = none) : Idle (vertex v)
  | exprVertex (span : Span) : Idle (exprVertex span)
  | edge (source target : VertexId) : Idle (edge source target)
  | addExport (name : String) (value : VertexId) : Idle (addExport name value)
  | addImport (specifier : String) (imported : ImportedName) (target : VertexId) :
      Idle (addImport specifier imported target)
  | exportAssigned (target : Pattern) (value : Option VertexId) :
      Idle (exportAssigned target value)
  | recordRequire (chained : Bool) (callee : Expr) (args : List Expr) (call : CallId) :
      Idle (recordRequire chained callee args call)

namespace Idle

theorem flow (source : Option VertexId) (target : VertexId) : Idle (flow source target) := by
  cases source with
  | none => exact .pure ()
  | some source => exact .edge source target

theorem receiver : Idle receiver := by
  refine .bind .read fun place => ?_
  split
  · exact .bind (.vertex rfl) fun _ => .pure _
  · exact .pure _

theorem passReceiver (call : CallId) (object : Option VertexId) :
    Idle (passReceiver call object) := by
  cases object with
  | none => exact .pure ()
  | some object => exact .bind (.vertex rfl) fun _ => .edge _ _

theorem returnValue (value : Option VertexId) : Idle (returnValue value) := by
  refine .bind .read fun place => ?_
  split
  · exact .bind (.vertex rfl) fun _ => .flow _ _
  · exact .pure ()

theorem exportValue (value : Option VertexId) : Idle (exportValue value) := by
  cases value with
  | none => exact .pure ()
  | some value => exact .addExport _ _

theorem relayName (source : String) (s : ExportSpecifier) : Idle (relayName source s) :=
  .bind (.exprVertex _) fun _ => .bind (.addImport _ _ _) fun _ => .addExport _ _

theorem forM {γ : Type} {f : γ → Walk Unit} (hf : ∀ c, Idle (f c)) (cs : List γ) :
    Idle (cs.forM f) := by
  induction cs with
  | nil => exact .pure ()
  | cons c cs ih => exact .bind (hf c) fun _ => ih

end Idle

/-! ## Courses -/

/-- This is a walk over the piece. -/
inductive Over : Piece → {α : Type} → Walk α → Prop
  | expr (role : Role) (e : Expr) : Over (.expr e) (visit role e)
  | pattern (p : Pattern) (source : Option VertexId) : Over (.pattern p) (bind p source)
  | stmt (s : Stmt) : Over (.stmt s) (visitStmt s)
  | «class» (name own : Option String) (c : Syntax.Class) : Over (.class c) (visitClass name own c)
  | block (stmts : List Stmt) :
      Over (.member (.staticBlock stmts)) (visitMember (.staticBlock stmts))
  | func (name own : Option String) (isArrow : Bool) (f : Func) :
      Over (.func f) (visitFunction name own isArrow f)

/-- The walk goes through these legs. -/
inductive Course : {α : Type} → Walk α → List Leg → Prop
  | idle {α : Type} {walk : Walk α} (h : Idle walk) : Course walk []
  | resolve (name : String) : Course (resolve name) [.resolve name]
  | declare (kind : SymbolKind) (names : List String) :
      Course (declare kind names) [.declare names []]
  | declareVars (names : List String) : Course (declareVars names) [.declare names names]
  | declaresNone {walk : Walk Unit} (h : Idle walk) : Course walk [.declare [] []]
  /-- What is declared one after the other is declared together. Of what has been brought into scope
  some may be forgotten. -/
  | declaresBoth {walk : Walk Unit} {bound bound' kept vars vars' : List String}
      (h : Course walk [.declare bound vars, .declare bound' vars'])
      (hkept : kept ⊆ bound ++ bound') :
      Course walk [.declare kept (vars ++ vars')]
  /-- What is done next may depend on what is known of the result. -/
  | bindOf {α β : Type} {walk : Walk α} {next : α → Walk β} {legs legs' : List Leg} {P : α → Prop}
      (hresult : ∀ place s, P (walk place s).1) (h : Course walk legs)
      (hnext : ∀ a, P a → Course (next a) legs') : Course (walk >>= next) (legs ++ legs')
  | inScope {α : Type} {walk : Walk α} {kind : ScopeKind} {legs : List Leg}
      (hkind : kind.hoistsVars = false) (h : Course walk legs) :
      Course (inScope kind walk) [.scope kind legs]
  /-- A piece that is no call, with a walk of its own. -/
  | node {α : Type} {walk : Walk α} {p : Piece} (hover : Over p walk) (hsite : p.site? = none)
      (h : Course walk p.legs) : Course walk [.enter p]
  /-- A piece without one. -/
  | pass {α : Type} {walk : Walk α} {p : Piece} {legs : List Leg} (hnode : p.isNode = false)
      (h : Course walk (p.legs ++ legs)) : Course walk (.enter p :: legs)
  | «class» {name own : Option String} {c : Syntax.Class}
      (h : Course (visitClass name own c) (c.legs own)) :
      Course (visitClass name own c) [.class own c]
  /-- A call is registered first. -/
  | call {role : Role} {e : Expr} {shape : CallShape} {next : CallId → Walk Evaluated}
      (hshape : e.callShape? = some shape)
      (hwalk : visit role e = addCall shape.kind shape.argCount shape.span >>= next)
      (h : ∀ c, Course (next c) (Piece.expr e).legs) : Course (visit role e) [.enter (.expr e)]
  /-- A function is registered, and all is declared in it before its parameters are bound. -/
  | function {name own : Option String} {isArrow : Bool} {f : Func}
      (hhead : ∀ value, Course (declareHead value own f) (f.headLegs own))
      (hparams : ∀ id, Course (bindParams id 1 f.params) (f.params.map (.enter <| .param ·)))
      (hbody : ∀ id, Course (visitBody id f.body) [.enter (.body f.body)]) :
      Course (visitFunction name own isArrow f) [.func own isArrow f]
  | withDefault {inner : Pattern} {value : Expr} {source : Option VertexId}
      (hvalue : Course (visit .value value) [.enter (.expr value)])
      (hinner : ∀ source, Course (bind inner source) [.enter (.pattern inner)]) :
      Course (bind (.withDefault inner value) source) [.withDefault inner value]
  | head {walk : Walk Unit} {h : LoopHead} (hwalk : Course walk h.boundLegs) :
      Course walk [.head h]

namespace Course

variable {walk : Walk α} {next : α → Walk β} {legs legs' : List Leg}

theorem pure (a : α) : Course (Pure.pure a : Walk α) [] := .idle (.pure a)

theorem congr (h : Course walk legs) (hlegs : legs = legs') : Course walk legs' := hlegs ▸ h

/-- Two walks one after the other. -/
theorem bind (h : Course walk legs) (hnext : ∀ a, Course (next a) legs') :
    Course (walk >>= next) (legs ++ legs') :=
  .bindOf (P := fun _ => True) (fun _ _ => trivial) h fun a _ => hnext a

/-- A step that is no leg. -/
theorem skip (h : Idle walk) (hnext : ∀ a, Course (next a) legs) : Course (walk >>= next) legs :=
  bind (.idle h) hnext

/-- The last leg. -/
theorem ending (h : Course walk legs) (hnext : ∀ a, Course (next a) []) :
    Course (walk >>= next) legs :=
  (h.bind hnext).congr (List.append_nil legs)

/-- A walk for each element of a list goes through the legs of the elements. -/
theorem forM {γ : Type} {f : γ → Walk Unit} {legs : γ → List Leg}
    (hf : ∀ c, Course (f c) (legs c)) (cs : List γ) : Course (cs.forM f) (cs.flatMap legs) := by
  induction cs with
  | nil => exact .pure ()
  | cons c cs ih => exact (hf c).bind fun _ => ih

/-- A piece without a walk of its own. -/
theorem inner {p : Piece} (hnode : p.isNode = false) (h : Course walk p.legs) :
    Course walk [.enter p] :=
  .pass hnode (h.congr (List.append_nil _).symm)

/-! ### Declarations -/

/-- What is declared for each element of a list is declared together. -/
theorem declareEach {γ : Type} {f : γ → Walk Unit} {bound vars : γ → List String}
    (hf : ∀ c, Course (f c) [.declare (bound c) (vars c)]) (cs : List γ) :
    Course (cs.forM f) [.declare (cs.flatMap bound) (cs.flatMap vars)] := by
  induction cs with
  | nil => exact .declaresNone (.pure ())
  | cons c cs ih =>
    rw [List.flatMap_cons, List.flatMap_cons]
    exact .declaresBoth ((hf c).bind fun _ => ih) (List.Subset.refl _)

/-- A declaration has one leg for what it declares before it is reached. -/
theorem hoist (d : Decl) : Course (hoist d) [d.declares] := by
  cases d with
  | function name f => exact .declare _ _
  | «class» name c => exact .declare _ _
  | vars kind declarators =>
    cases kind with
    | var => exact .declareVars _
    | «let» | const => exact .declare _ _
  | «using» declarators => exact .declare _ _
  | inert => exact .declaresNone (.pure ())

theorem hoistAll (stmts : List Stmt) :
    Course (hoistAll stmts) [.declare (Stmt.boundAll stmts) (Stmt.ownVarNamesAll stmts)] := by
  refine declareEach (fun s => ?_) stmts
  cases s with
  | decl d => exact .hoist d
  | _ => exact .declaresNone (.pure ())

/-- A body also brings the names of every `var` inside of it into scope. -/
theorem hoistBody (body : Body) :
    Course (hoistBody body) [.declare body.bound body.ownVarNames] := by
  cases body with
  | block stmts =>
    refine congr (.declaresBoth ((hoistAll stmts).bind fun _ => .declare _ _) ?_)
      (congrArg (fun vars => [Leg.declare _ vars]) (List.append_nil _))
    exact List.append_subset.2 ⟨List.subset_append_right .., List.subset_append_left ..⟩
  | expr | absent => exact .declaresNone (.pure ())

/-- Everything in a function is declared when it is entered. -/
theorem declareHead (value : VertexId) (own : Option String) (f : Func) :
    Course (declareHead value own f) (f.headLegs own) := by
  have hown : Course (bindOwnName value own)
      (own.toList.flatMap fun name => [.declare [name] [], .resolve name]) := by
    cases own with
    | none => exact .pure ()
    | some own =>
      exact (Course.declare _ [own]).bind fun _ => .ending (.resolve own) fun _ => .idle (.edge _ _)
  exact hown.bind fun _ => (Course.declare _ _).bind fun _ => hoistBody f.body

theorem hoistCases (cases : List Case) : Course (hoistCases cases)
    [.declare (Case.boundAll cases) (cases.flatMap Case.ownVarNames)] :=
  declareEach (fun ⟨_, body⟩ => hoistAll body) cases

theorem declareClassName (own : Option String) :
    Course (declareClassName own) [.declare own.toList []] := by
  cases own with
  | none => exact .declaresNone (.pure ())
  | some own => exact .declare _ _

/-- An item of a module has one leg for what it declares, too. -/
theorem hoistItem (item : ModuleItem) :
    Course (hoistItem item) [.declare item.bound item.ownVarNames] := by
  cases item with
  | stmt s =>
    cases s with
    | decl d =>
      -- The declaration and every `var` in it are hoisted one after the other.
      refine congr (.declaresBoth ((hoist d).bind fun _ => .declare _ _) ?_)
        (congrArg (fun vars => [Leg.declare _ vars]) (List.append_nil _))
      exact List.append_subset.2 ⟨List.subset_append_right .., List.subset_append_left ..⟩
    | _ =>
      refine (declare _ _).congr (congrArg (fun bound => [Leg.declare bound []]) ?_)
      exact (List.append_nil _).symm
  | importNames source specifiers => exact .declare _ _
  | importEquals name source => exact .declare _ _
  | exportDecl d => exact .hoist d
  | exportDefaultFunction name f =>
    cases name with
    | none => exact .declaresNone (.pure ())
    | some name => exact .declare _ _
  | exportDefaultClass name c =>
    cases name with
    | none => exact .declaresNone (.pure ())
    | some name => exact .declare _ _
  | exportDefaultExpr e | exportAssignment e | exportNames source specifiers | inert =>
    exact .declaresNone (.pure ())

/-! ### Scopes and names -/

/-- Statements in a block of their own. -/
theorem inBlock {stmts : List Stmt} {walk : Walk Unit}
    (h : Course walk (stmts.map (.enter <| .stmt ·))) :
    Course (inBlock stmts walk) [.scope .blockScope (Stmt.blockLegs stmts)] :=
  .inScope rfl ((hoistAll stmts).bind fun _ => h)

/-- A class asks for its name if it has a constructor. -/
theorem bindClassName (own : Option String) (constructor : Option VertexId) :
    Course (bindClassName own constructor)
      (if constructor.isSome then own.toList.map .resolve else []) := by
  cases own with
  | none => cases constructor <;> exact .pure ()
  | some own =>
    cases constructor with
    | none => exact .pure ()
    | some constructor => exact .ending (.resolve own) fun _ => .idle (.edge _ _)

theorem bindDefault (name : Option String) (value : VertexId) :
    Course (bindDefault name value) (name.toList.map .resolve) := by
  cases name with
  | none => exact .pure ()
  | some name => exact .ending (.resolve name) fun _ => .idle (.edge _ _)

theorem importName (source : String) (s : ImportSpecifier) :
    Course (importName source s) [.resolve s.localName] :=
  .ending (.resolve _) fun _ => .idle (.addImport _ _ _)

theorem exportName (name exported : String) : Course (exportName name exported) [.resolve name] :=
  .ending (.resolve name) fun _ => .idle (.addExport _ _)

end Course

end Walk

end CallFlow
