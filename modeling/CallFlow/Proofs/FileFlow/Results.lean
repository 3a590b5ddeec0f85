import CallFlow.Proofs.FileFlow.Lawful
import CallFlow.Proofs.FileFlow.Tracing
import CallFlow.Proofs.FileFlow.Wrapping

/-!
# What an expression may evaluate to

The value of a compound expression is that of one of the expressions in it: of either side, of the
last one, of the one that is assigned. `ExprWalk.Source` relates the visit of an expression to
those of the expressions that its value may come from. The walk loses none of these values: each
gets to the vertex of the whole expression through vertices of compound expressions alone, and from
there to the callee of a call.
-/

namespace CallFlow

open Syntax

/-! ## Visits -/

/-- One visit of an expression: its role, and the state by then. -/
structure ExprWalk where
  role : Role := .value
  expr : Expr
  state : FileState

namespace ExprWalk

/-- The value that the walk returns. -/
def result (v : ExprWalk) (place : Place) : Option VertexId :=
  (Walk.visit v.role v.expr place v.state).1.result

/-- The state after the walk. -/
def after (v : ExprWalk) (place : Place) : FileState :=
  (Walk.visit v.role v.expr place v.state).2

/-- The number of the call that the walk registers if the expression is one. -/
def call (v : ExprWalk) : CallId := ⟨v.state.flow.program.calls.size⟩

/-- The visit of what a call invokes: the call is registered by then, and its callee has a
vertex. -/
def called (v : ExprWalk) (place : Place) (shape : CallShape) (callee : Expr) : ExprWalk where
  role := .callee
  expr := callee
  state := ((do
    let call ← Walk.addCall shape.kind shape.argCount shape.span
    Walk.vertex (.callee call)) place v.state).2

end ExprWalk

/-- The value of such an expression is its own, and not that of an expression inside. -/
def Syntax.Expr.hasOwnValue : Expr → Bool
  | .ident _ | .this | .member _ _ _ | .superMember _ | .call _ _ _ _ | .construct _ _ _
  | .tagged _ _ _ | .function _ _ | .arrow _ | .class _ _ => true
  | _ => false

/-- The second visit is inside the first one, of an expression with a value of its own that may be
the value of the whole. -/
inductive ExprWalk.Source (place : Place) : ExprWalk → ExprWalk → Prop
  | own {v : ExprWalk} (h : v.expr.hasOwnValue = true) : Source place v v
  | paren {role : Role} {inner : Expr} {s : FileState} {w : ExprWalk}
      (h : Source place ⟨role.inParens, inner, s⟩ w) : Source place ⟨role, .paren inner, s⟩ w
  | typed {role : Role} {inner : Expr} {s : FileState} {w : ExprWalk}
      (h : Source place ⟨.value, inner, s⟩ w) : Source place ⟨role, .typed inner, s⟩ w
  | await {role : Role} {inner : Expr} {s : FileState} {w : ExprWalk}
      (h : Source place ⟨.value, inner, s⟩ w) : Source place ⟨role, .await inner, s⟩ w
  | last {role : Role} {front : List Expr} {e : Expr} {s : FileState} {w : ExprWalk}
      (h : Source place ⟨.value, e, (Walk.visitAll front place s).2⟩ w) :
      Source place ⟨role, .sequence (front ++ [e]), s⟩ w
  | left {role : Role} {span : Span} {left right : Expr} {s : FileState} {w : ExprWalk}
      (h : Source place ⟨.value, left, s⟩ w) : Source place ⟨role, .logical span left right, s⟩ w
  | right {role : Role} {span : Span} {left right : Expr} {s : FileState} {w : ExprWalk}
      (h : Source place ⟨.value, right, after ⟨.value, left, s⟩ place⟩ w) :
      Source place ⟨role, .logical span left right, s⟩ w
  | consequent {role : Role} {span : Span} {test consequent alternate : Expr} {s : FileState}
      {w : ExprWalk} (h : Source place ⟨.value, consequent, after ⟨.value, test, s⟩ place⟩ w) :
      Source place ⟨role, .conditional span test consequent alternate, s⟩ w
  | alternate {role : Role} {span : Span} {test consequent alternate : Expr} {s : FileState}
      {w : ExprWalk}
      (h : Source place ⟨.value, alternate,
        after ⟨.value, consequent, after ⟨.value, test, s⟩ place⟩ place⟩ w) :
      Source place ⟨role, .conditional span test consequent alternate, s⟩ w
  | assigned {role : Role} {op : AssignOp} (hop : op ≠ .arithmetic) {target : Pattern}
      {value : Expr} {s : FileState} {w : ExprWalk}
      (h : Source place ⟨target.valueRole, value, s⟩ w) :
      Source place ⟨role, .assign op target value, s⟩ w

/-! ## Ways through compound expressions -/

namespace FlowState

variable {s t : FlowState} {u v : VertexId}

/-- An edge stays there. -/
theorem Later.hasEdge (h : s.Later t) (huv : s.graph.hasEdge u v = true) :
    t.graph.hasEdge u v = true := by
  obtain ⟨hu, hv⟩ := FlowGraph.lt_of_hasEdge huv
  obtain ⟨x, hx⟩ := FlowGraph.exists_find?_of_lt hu
  obtain ⟨y, hy⟩ := FlowGraph.exists_find?_of_lt hv
  have hedge := h.edges ((FlowGraph.mem_edgeSet_of_find? hx hy).2 huv)
  exact (FlowGraph.mem_edgeSet_of_find? (h.vertices x u hx) (h.vertices y v hy)).1 hedge

/-- An edge to the vertex of a compound expression. -/
def JoinStep (t : FlowState) (u v : VertexId) : Prop :=
  t.graph.hasEdge u v = true ∧ ∃ key, t.graph.find? (.expr key) = some v

/-- The second vertex is the first one, or there is a path to it on which all later vertices are
those of compound expressions. -/
def Joins (t : FlowState) : VertexId → VertexId → Prop :=
  Relation.ReflTransGen t.JoinStep

theorem Joins.later (h : s.Joins u v) (ht : s.Later t) : t.Joins u v :=
  Relation.ReflTransGen.mono (fun _ _ hstep =>
    ⟨ht.hasEdge hstep.1, hstep.2.imp fun _ => ht.vertices _ _⟩) _ _ h

end FlowState

namespace Walk

variable {α β : Type}

theorem Traced.later {apart : Bool} {walk : Walk α} {vars : List String}
    (h : Traced apart walk vars) (place : Place) (s : FileState) :
    s.flow.Later (walk place s).2.flow := by
  obtain ⟨es, hruns, -⟩ := h place s
  exact hruns.continues.later

/-- A value that has a vertex flows to another one, unless it has this one itself. -/
theorem hasEdge_flow {value : Option VertexId} {u target : VertexId} (hu : value = some u)
    (place : Place) {s : FileState} (hsource : s.Source u) (htarget : s.Target target) :
    u = target ∨ (flow value target place s).2.flow.graph.hasEdge u target = true := by
  subst hu
  obtain ⟨x, hx, -⟩ := hsource
  obtain ⟨y, hy, -⟩ := htarget
  by_cases heq : u = target
  · exact .inl heq
  · refine .inr ((FlowGraph.hasEdge_addEdge ..).2 ?_)
    by_cases hold : s.flow.graph.hasEdge u target = true
    · exact .inl hold
    · exact .inr ⟨(FlowGraph.addEdge_fst ..).2 ⟨heq, Bool.not_eq_true _ ▸ hold,
        FlowGraph.lt_of_find? hx, FlowGraph.lt_of_find? hy⟩, rfl, rfl⟩

end Walk

/-! ## What the walk returns -/

/-- The vertex may be that of the value of an expression, which is a callback or not. -/
structure Vertex.IsValue (callback : Bool) (v : Vertex) : Prop where
  source : v.IsSource
  function : (∃ f, v = .func f) ↔ callback = true

namespace Vertex.IsValue

theorem func (f : FunctionId) : IsValue true (.func f) :=
  ⟨trivial, iff_of_true ⟨f, rfl⟩ rfl⟩

theorem of_ne {v : Vertex} (hsource : v.IsSource) (hne : ∀ f, v ≠ .func f) : IsValue false v :=
  ⟨hsource, iff_of_false (fun ⟨f, hf⟩ => hne f hf) Bool.false_ne_true⟩

end Vertex.IsValue

namespace FileState

variable {s t : FileState} {callback : Bool} {value : Option VertexId}

/-- The value has a vertex as it befits a callback or something else, if it has one at all. -/
def Shows (s : FileState) (callback : Bool) (value : Option VertexId) : Prop :=
  ∀ id ∈ value, ∃ v, s.flow.graph.find? v = some id ∧ v.IsValue callback

theorem Shows.none : s.Shows callback .none := nofun

theorem Shows.some {v : Vertex} {id : VertexId} (h : s.flow.graph.find? v = some id)
    (hv : v.IsValue callback) : s.Shows callback (.some id) := by
  rintro _ ⟨⟩
  exact ⟨v, h, hv⟩

theorem Shows.later (h : s.Shows callback value) (ht : s.flow.Later t.flow) :
    t.Shows callback value :=
  fun id hid => (h id hid).imp fun v => And.imp_left (ht.vertices v id)

theorem Shows.toValue (h : s.Shows callback value) : s.Value value :=
  fun id hid => (h id hid).imp fun _ => And.imp_right Vertex.IsValue.source

end FileState

namespace Walk

variable {α β : Type}

/-- Wherever the walk starts, the value that it returns is a callback or not, as is said there. -/
def Returns (callback : Bool) (value : α → Option VertexId) (walk : Walk α) : Prop :=
  ∀ (place : Place) (s : FileState), (walk place s).2.Shows callback (value (walk place s).1)

namespace Returns

variable {callback : Bool} {value : β → Option VertexId} {walk : Walk α} {next : α → Walk β}

theorem after (walk : Walk α) (h : ∀ a, Returns callback value (next a)) :
    Returns callback value (walk >>= next) :=
  fun place _ => h _ place _

/-- What the walk goes on with keeps the value. -/
theorem keep {given : α → Option VertexId} {vars : List String} (h : Returns callback given walk)
    (hnext : ∀ a, Traced true (next a) vars)
    (hvalue : ∀ a place s, value (next a place s).1 = given a) :
    Returns callback value (walk >>= next) := by
  intro place s
  have hlater := (hnext (walk place s).1).later place (walk place s).2
  have hgiven := (h place s).later hlater
  rw [← hvalue _ place (walk place s).2] at hgiven
  exact hgiven

theorem give {given : α → Option VertexId} (h : Returns callback given walk) {result : α → β}
    (hvalue : ∀ a, value (result a) = given a) :
    Returns callback value (walk >>= fun a => Pure.pure (result a)) :=
  h.keep (fun a => .pure (result a)) fun a _ _ => hvalue a

theorem vertex {v : Vertex} (hv : v.IsValue callback) : Returns callback some (vertex v) :=
  fun _ s => .some (s.flow.graph.find?_intern_self v) hv

theorem resolve (name : String) : Returns false some (resolve name) := by
  intro place s
  rw [resolve_eq]
  refine vertex ?_ place s
  cases s.flow.symbols.lookup s.flow.scopes name place.scope with
  | none | some symbol => exact .of_ne trivial nofun

theorem receiver : Returns false id receiver := by
  refine .after _ fun place => ?_
  split
  · next f _ => exact (vertex (v := .param f 0) (.of_ne trivial nofun)).give fun _ => rfl
  · exact fun _ _ => .none

/-- A key stands for a property or is unknown. -/
theorem visitKey (k : Key) : Returns false some (visitKey k) := by
  cases k with
  | named name | privateName name => exact vertex (v := .prop name) (.of_ne trivial nofun)
  | computed e =>
    rcases visitKey_computed e with ⟨name, rfl, h⟩ | h <;> rw [h]
    · exact vertex (v := .prop name) (.of_ne trivial nofun)
    · exact .after _ fun _ => vertex (v := .unknown) (.of_ne trivial nofun)
  | untracked => exact vertex (v := .unknown) (.of_ne trivial nofun)

/-- The constructor that a class has by now has a vertex. -/
theorem visitMembers (name : Option String) (members : List Member) (place : Place)
    {last : Option VertexId} {s : FileState} (hlast : s.Shows true last) :
    (visitMembers name last members place s).2.Shows true
      (visitMembers name last members place s).1 := by
  induction members generalizing last s with
  | nil =>
    rw [Walk.visitMembers]
    exact hlast
  | cons m members ih =>
    have hother (hm : ∀ f, m ≠ .constructor f) :
        (Walk.visitMembers name last (m :: members) place s).2.Shows true
          (Walk.visitMembers name last (m :: members) place s).1 := by
      rw [Walk.visitMembers]
      · exact ih (hlast.later ((traced_visitMember true m).later place s))
      · exact hm
    cases m with
    | constructor f =>
      rw [Walk.visitMembers]
      exact ih (vertex (.func (visitFunction name none false f place s).1) place _)
    | method _ _ _ | field _ _ _ | staticBlock _ => exact hother fun _ => nofun

/-- The value of a class is its constructor, if it has one. -/
theorem visitClass (name own : Option String) (c : Syntax.Class) :
    Returns c.hasConstructor id (visitClass name own c) := by
  have hconstructor : Returns true id (Walk.visitClass name own c) := by
    obtain ⟨decorators, heritage, members⟩ := c
    rw [Walk.visitClass]
    refine .after _ fun _ => .after _ fun _ place s => ?_
    have hmembers : Returns true id (Walk.visitMembers name none members) :=
      fun place s => visitMembers name members place .none
    have hinside : Returns true id (do
        declareClassName own
        let constructor ← Walk.visitMembers name none members
        bindClassName own constructor
        return constructor) :=
      .after _ fun _ => hmembers.keep (fun constructor =>
        .step (traced_bindClassName true own constructor) fun _ => .pure constructor)
          fun _ _ _ => rfl
    exact hinside _ _
  intro place s id hid
  have hsome : (Walk.visitClass name own c place s).1.isSome = c.hasConstructor :=
    isSome_visitClass name own c place s
  have hid' : id ∈ (Walk.visitClass name own c place s).1 := hid
  rw [← hsome, Option.isSome_of_mem hid']
  exact hconstructor place s id hid

end Returns

/-! ## Calls -/

/-- What all calls do: they are registered, what is called flows to the callee, and what comes
after this returns the result of the call. -/
theorem exists_visit_call {e callee : Expr} {shape : CallShape} (hshape : e.callShape? = some shape)
    (hcalled : e.called? = some callee) (role : Role) :
    ∃ rest : CallId → Option VertexId → Walk Evaluated,
      (∀ c receiver, Traced true (rest c receiver) [] ∧
        Returns false Evaluated.result (rest c receiver)) ∧
      visit role e = (do
        let call ← addCall shape.kind shape.argCount shape.span
        let slot ← vertex (.callee call)
        let value ← visit .callee callee
        flow value.result slot
        rest call value.receiver) := by
  -- the end of a call that has its arguments
  have hfinish (c : CallId) {finish : Walk Unit} (h : Traced true finish []) :
      Traced true (do
        let result ← vertex (.res c)
        finish
        return { result } : Walk Evaluated) [] ∧
      Returns false Evaluated.result (do
        let result ← vertex (.res c)
        finish
        return { result }) :=
    ⟨.step (.vertex rfl) fun result => .step h fun _ => .pure _,
      (Returns.vertex (v := .res c) (.of_ne trivial (by simp))).keep
        (fun result => .step h fun _ => .pure _) fun _ _ _ => rfl⟩
  have hargs (c : CallId) (slot : ℕ) (args : List Expr) {next : Walk Evaluated}
      (h : Traced true next [] ∧ Returns false Evaluated.result next) :
      Traced true (do visitArgs c slot args; next) [] ∧
        Returns false Evaluated.result (do visitArgs c slot args; next) :=
    ⟨.step (traced_visitArgs true c slot args) fun _ => h.1, .after _ fun _ => h.2⟩
  cases e with
  | call chained span callee' args =>
    obtain rfl := Option.some.inj hshape
    obtain rfl := Option.some.inj hcalled
    refine ⟨fun c receiver => (do
      passReceiver c receiver
      visitArgs c 1 args
      let result ← vertex (.res c)
      recordRequire chained callee' args c
      return { result }), fun c receiver => ?_, ?_⟩
    · have hrest := hargs c 1 args
        (hfinish c (.plain (.recordRequire chained callee' args c)))
      exact ⟨.step (.passReceiver c receiver) fun _ => hrest.1, .after _ fun _ => hrest.2⟩
    · rw [visit]
      rfl
  | construct span callee' args =>
    obtain rfl := Option.some.inj hshape
    obtain rfl := Option.some.inj hcalled
    refine ⟨fun c receiver => (do
      visitArgs c 1 args
      let result ← vertex (.res c)
      return { result }), fun c receiver => hargs c 1 args (hfinish c (.pure ())), ?_⟩
    rw [visit]
    rfl
  | tagged span tag substitutions =>
    obtain rfl := Option.some.inj hshape
    obtain rfl := Option.some.inj hcalled
    refine ⟨fun c receiver => (do
      passReceiver c receiver
      visitArgs c 2 substitutions
      let result ← vertex (.res c)
      return { result }), fun c receiver => ?_, ?_⟩
    · have hrest := hargs c 2 substitutions (hfinish c (.pure ()))
      exact ⟨.step (.passReceiver c receiver) fun _ => hrest.1, .after _ fun _ => hrest.2⟩
    · rw [visit]
      rfl
  | _ => cases hshape

/-! ## Expressions with a value of their own -/

/-- An expression with a value of its own returns the vertex of that. -/
theorem returns_visit {e : Expr} (h : e.hasOwnValue = true) (role : Role) :
    Returns e.isCallback Evaluated.result (visit role e) := by
  -- A function returns its vertex, whatever it is called.
  have hfunction (name own : Option String) (isArrow : Bool) (f : Func) :
      Returns true Evaluated.result (do
        let id ← visitFunction name own isArrow f
        return { result := ← vertex (.func id) }) :=
    .after _ fun id => (Returns.vertex (.func id)).give fun _ => rfl
  -- Calls, constructions and templates with a tag all return the vertex of their result.
  have hcall {shape : CallShape} {callee : Expr} (hshape : e.callShape? = some shape)
      (hcalled : e.called? = some callee) : Returns false Evaluated.result (visit role e) := by
    obtain ⟨rest, hrest, hwalk⟩ := exists_visit_call hshape hcalled role
    rw [hwalk]
    exact .after _ fun c => .after _ fun _ => .after _ fun value => .after _ fun _ =>
      (hrest c value.receiver).2
  cases e with
  | ident name =>
    rw [visit, Expr.isCallback]
    exact (Returns.resolve name).give fun _ => rfl
  | this =>
    rw [visit, Expr.isCallback]
    exact Returns.receiver.give fun _ => rfl
  | member chained object key =>
    rw [visit, Expr.isCallback]
    exact .after _ fun value => (Returns.visitKey key).give fun _ => rfl
  | superMember key =>
    have hkey (receiver : Option VertexId) : Returns false Evaluated.result
        (do return { result := ← visitKey key, receiver }) :=
      (Returns.visitKey key).give fun _ => rfl
    rw [visit, Expr.isCallback]
    split
    · exact .after _ hkey
    · exact hkey none
  | call _ _ _ _ | construct _ _ _ | tagged _ _ _ =>
    rw [Expr.isCallback]
    exact hcall rfl rfl
  | function own f =>
    cases own with
    | none | some name =>
      rw [visit, Expr.isCallback]
      exact hfunction _ _ _ _
  | arrow f =>
    rw [visit, Expr.isCallback]
    exact hfunction _ _ _ _
  | «class» own c =>
    cases own with
    | none =>
      rw [visit, Expr.isCallback]
      exact (Returns.visitClass role.name? none c).give fun _ => rfl
    | some name =>
      rw [visit, Expr.isCallback]
      exact (Returns.visitClass (some name) (some name) c).give fun _ => rfl
  | _ => cases h

/-! ## Expressions with the values of others -/

/-- What the walk does with the values of two expressions, one of which is that of the whole. -/
def joinAt (span : Span) (left right : Option VertexId) : Walk Evaluated := do
  let joined ← exprVertex span
  flow left joined
  flow right joined
  return { result := joined }

theorem traced_joinAt (span : Span) (left right : Option VertexId) :
    Traced true (joinAt span left right) [] :=
  .step (.plain (.exprVertex span)) fun _ => .step (.flow _ _) fun _ => .step (.flow _ _) fun _ =>
    .pure _

/-- Both values get to the vertex of the whole. -/
theorem joins_joinAt (span : Span) {left right : Option VertexId} (place : Place) {s : FileState}
    {u : VertexId} (hu : left = some u ∨ right = some u) (hsource : s.Source u) :
    ∃ v, (joinAt span left right place s).1.result = some v ∧
      (joinAt span left right place s).2.Source v ∧
      (joinAt span left right place s).2.flow.Joins u v := by
  set key : ExprKey := ⟨place.file, span⟩
  set joined := (exprVertex span place s).1
  set s₁ := (exprVertex span place s).2
  set s₂ := (flow left joined place s₁).2
  set s₃ := (flow right joined place s₂).2
  have h₁ : s.flow.Later s₁.flow := .intern s (.expr key)
  have h₂ : s₁.flow.Later s₂.flow := (Traced.flow left joined : Traced true _ _).later place s₁
  have h₃ : s₂.flow.Later s₃.flow := (Traced.flow right joined : Traced true _ _).later place s₂
  have hjoined : s₁.flow.graph.find? (.expr key) = some joined :=
    s.flow.graph.find?_intern_self (.expr key)
  have htarget : s₁.Target joined := ⟨_, hjoined, trivial⟩
  have hedge : u = joined ∨ s₃.flow.graph.hasEdge u joined = true := by
    rcases hu with hu | hu
    · exact (hasEdge_flow hu place (hsource.later h₁) htarget).imp_right h₃.hasEdge
    · exact hasEdge_flow hu place (hsource.later (h₁.trans h₂)) (htarget.later h₂)
  have hfound := (h₂.trans h₃).vertices _ _ hjoined
  refine ⟨joined, rfl, ⟨_, hfound, trivial⟩, ?_⟩
  rcases hedge with heq | hedge
  · exact heq ▸ .refl
  · exact .single ⟨hedge, key, hfound⟩

/-- A choice by `&&` or the like joins the values of its sides. -/
theorem visit_logical (role : Role) (span : Span) (left right : Expr) (place : Place)
    (s : FileState) :
    let l : ExprWalk := ⟨.value, left, s⟩
    let r : ExprWalk := ⟨.value, right, l.after place⟩
    visit role (.logical span left right) place s =
      joinAt span (l.result place) (r.result place) place (r.after place) := by
  rw [visit]
  rfl

/-- A choice by a test joins the values of its alternatives. -/
theorem visit_conditional (role : Role) (span : Span) (test consequent alternate : Expr)
    (place : Place) (s : FileState) :
    let c : ExprWalk := ⟨.value, consequent, ExprWalk.after ⟨.value, test, s⟩ place⟩
    let a : ExprWalk := ⟨.value, alternate, c.after place⟩
    visit role (.conditional span test consequent alternate) place s =
      joinAt span (c.result place) (a.result place) place (a.after place) := by
  rw [visit]
  rfl

/-- What an assignment does with its target and the value that it stores. -/
def storeIn (target : Pattern) (stored : Option VertexId) : Walk Unit :=
  match target.superKey? with
  | some key => do flow stored (← visitKey key)
  | none =>
    if target.isLeftAlone then pure ()
    else do
      exportAssigned target stored
      bind target stored

/-- Storing a value in a target redeclares nothing. -/
theorem traced_storeIn (target : Pattern) (stored : Option VertexId) :
    Traced true (storeIn target stored) [] := by
  unfold storeIn
  split
  · exact .step (traced_visitKey true _) fun _ => .flow _ _
  · split
    · exact .pure ()
    · exact .step (.plain (.exportAssigned _ _)) fun _ => traced_bind true target _

/-- An assignment returns what it has stored. -/
theorem visit_assign_storeIn (role : Role) (op : AssignOp) (target : Pattern) (value : Expr) :
    visit role (.assign op target value) = (do
      let value ← visit target.valueRole value
      let stored := if op = .arithmetic then none else value.result
      storeIn target stored
      return { result := stored }) := by
  rw [visit_assign]
  refine bind_congr fun value => ?_
  dsimp only
  rw [storeIn]
  cases target.superKey? with
  | some key => rfl
  | none => cases target.isLeftAlone <;> rfl

/-- The value of several expressions is that of the last one, walked where the others have led. -/
theorem visitAll_concat (front : List Expr) (e : Expr) (place : Place) (s : FileState) :
    visitAll (front ++ [e]) place s =
      ((visit .value e place (visitAll front place s).2).1.result,
        (visit .value e place (visitAll front place s).2).2) := by
  induction front generalizing s with
  | nil =>
    rw [List.nil_append, visitAll, visitAll]
    rfl
  | cons first front ih =>
    cases front with
    | nil =>
      simp only [List.cons_append, List.nil_append, visitAll]
      rfl
    | cons second front =>
      have hhead (rest : List Expr) (hrest : rest ≠ []) :
          visitAll (first :: rest) place s =
            visitAll rest place (visit .value first place s).2 := by
        rw [visitAll]
        · rfl
        · exact hrest
      rw [List.cons_append, hhead (second :: front ++ [e]) (List.cons_ne_nil _ _), ih,
        hhead (second :: front) (List.cons_ne_nil _ _)]

end Walk

namespace ExprWalk

open Walk

variable {place : Place} {v w : ExprWalk} {u : VertexId}

/-- An expression that evaluates to what is inside. -/
theorem eq_of_inner (hstate : v.state = w.state) (h : visit v.role v.expr = (do
      let value ← visit w.role w.expr
      return { result := value.result })) :
    v.result place = w.result place ∧ v.after place = w.after place := by
  rw [result, after, h, hstate]
  exact ⟨rfl, rfl⟩

/-- Where the value of one of two expressions gets to, that of the whole is a step further. -/
theorem joins_of_join {span : Span} {left right : Option VertexId} {s : FileState} {y : VertexId}
    (hrun : visit v.role v.expr place v.state = joinAt span left right place s)
    (hy : left = some y ∨ right = some y) (hsource : s.Source y) (hjoins : s.flow.Joins u y) :
    ∃ z, v.result place = some z ∧ (v.after place).Source z ∧ (v.after place).flow.Joins u z := by
  obtain ⟨z, hz, hsource', hjoins'⟩ := joins_joinAt span place hy hsource
  have hlater := (traced_joinAt span left right).later place s
  rw [result, after, hrun]
  exact ⟨z, hz, hsource', (hjoins.later hlater).trans hjoins'⟩

/-- What is walked after an expression changes neither its value nor the way to it. -/
theorem later_after (place : Place) (role : Role) (e : Expr) (s : FileState) :
    s.flow.Later (after ⟨role, e, s⟩ place).flow :=
  (traced_visit true role e).later place s

/-- Each possible value of an expression gets to its vertex. -/
theorem Source.joins (h : Source place v w) (hu : w.result place = some u) :
    ∃ y, v.result place = some y ∧ (v.after place).Source y ∧ (v.after place).flow.Joins u y := by
  induction h with
  | own h => exact ⟨u, hu, FileState.Shows.toValue (returns_visit h _ place _) u hu, .refl⟩
  -- What is looked through has the vertex of what is inside.
  | @paren role inner s w h ih =>
    obtain ⟨hresult, hafter⟩ := eq_of_inner (v := ⟨role, .paren inner, s⟩)
      (w := ⟨role.inParens, inner, s⟩) rfl (by rw [visit])
    rw [hresult, hafter]
    exact ih hu
  | @typed role inner s w h ih =>
    obtain ⟨hresult, hafter⟩ := eq_of_inner (v := ⟨role, .typed inner, s⟩)
      (w := ⟨.value, inner, s⟩) rfl (by rw [visit])
    rw [hresult, hafter]
    exact ih hu
  | @await role inner s w h ih =>
    obtain ⟨hresult, hafter⟩ := eq_of_inner (v := ⟨role, .await inner, s⟩)
      (w := ⟨.value, inner, s⟩) rfl (by rw [visit])
    rw [hresult, hafter]
    exact ih hu
  | @last role front e s w h ih =>
    have hwalk : visit role (.sequence (front ++ [e])) place s =
        ({ result := (visitAll (front ++ [e]) place s).1 },
          (visitAll (front ++ [e]) place s).2) := by
      rw [visit]
      rfl
    rw [visitAll_concat] at hwalk
    rw [result, after, hwalk]
    exact ih hu
  | @left role span left right s w h ih =>
    obtain ⟨y, hy, hsource, hjoins⟩ := ih hu
    -- What the left side has joined is still joined when the right side has been walked.
    have hright := later_after place .value right (after ⟨.value, left, s⟩ place)
    exact joins_of_join (visit_logical role span left right place s) (.inl hy)
      (hsource.later hright) (hjoins.later hright)
  | @right role span left right s w h ih =>
    obtain ⟨y, hy, hsource, hjoins⟩ := ih hu
    exact joins_of_join (visit_logical role span left right place s) (.inr hy) hsource hjoins
  | @consequent role span test consequent alternate s w h ih =>
    obtain ⟨y, hy, hsource, hjoins⟩ := ih hu
    have halternate := later_after place .value alternate
      (after ⟨.value, consequent, after ⟨.value, test, s⟩ place⟩ place)
    exact joins_of_join (visit_conditional role span test consequent alternate place s) (.inl hy)
      (hsource.later halternate) (hjoins.later halternate)
  | @alternate role span test consequent alternate s w h ih =>
    obtain ⟨y, hy, hsource, hjoins⟩ := ih hu
    exact joins_of_join (visit_conditional role span test consequent alternate place s) (.inr hy)
      hsource hjoins
  | @assigned role op hop target value s w h ih =>
    obtain ⟨y, hy, hsource, hjoins⟩ := ih hu
    -- The value is stored, since the assignment is no arithmetic one.
    have hstored : (if op = .arithmetic then none else result ⟨target.valueRole, value, s⟩ place) =
        some y := by
      rw [if_neg hop, hy]
    have hlater := (traced_storeIn target (some y)).later place
      (after ⟨target.valueRole, value, s⟩ place)
    have hrun : visit role (.assign op target value) place s = ({ result := some y },
        (storeIn target (some y) place (after ⟨target.valueRole, value, s⟩ place)).2) := by
      rw [visit_assign_storeIn, ← hstored]
      rfl
    rw [result, after, hrun]
    exact ⟨y, rfl, hsource.later hlater, hjoins.later hlater⟩

/-- The value of what a call invokes flows to the callee. -/
theorem hasEdge_callee {shape : CallShape} {callee : Expr}
    (hshape : v.expr.callShape? = some shape) (hcalled : v.expr.called? = some callee)
    {y : VertexId} (hy : (v.called place shape callee).result place = some y)
    (hsource : ((v.called place shape callee).after place).Source y) :
    ((v.called place shape callee).after place).flow.Later (v.after place).flow ∧
    ∃ slot, (v.after place).flow.graph.find? (.callee v.call) = some slot ∧
      (v.after place).flow.graph.hasEdge y slot = true := by
  obtain ⟨rest, hrest, hwalk⟩ := exists_visit_call hshape hcalled v.role
  obtain ⟨role, e, s⟩ := v
  -- the state has the vertex of the callee before what is called is walked
  set inner := ExprWalk.called ⟨role, e, s⟩ place shape callee
  set before := (addCall shape.kind shape.argCount shape.span place s).2
  set slot := (vertex (.callee (ExprWalk.call ⟨role, e, s⟩)) place before).1
  have hslot : inner.state.flow.graph.find? (.callee (ExprWalk.call ⟨role, e, s⟩)) = some slot :=
    before.flow.graph.find?_intern_self _
  have hwalked : inner.state.flow.Later (inner.after place).flow :=
    later_after place .callee callee inner.state
  set filled := (flow (inner.result place) slot place (inner.after place)).2
  have hfilled : (inner.after place).flow.Later filled.flow :=
    (Traced.flow _ slot : Traced true _ _).later place _
  have hended : filled.flow.Later (ExprWalk.after ⟨role, e, s⟩ place).flow := by
    have hrun : ExprWalk.after ⟨role, e, s⟩ place =
        (rest (ExprWalk.call ⟨role, e, s⟩) (visit .callee callee place inner.state).1.receiver
          place filled).2 := by
      rw [ExprWalk.after, hwalk]
      rfl
    rw [hrun]
    exact (hrest _ _).1.later place filled
  have htarget := hwalked.vertices _ _ hslot
  have hedge := hasEdge_flow hy place hsource ⟨_, htarget, trivial⟩
  -- no value is that of a callee
  have hne : y ≠ slot := by
    rintro rfl
    obtain ⟨x, hx, hx'⟩ := hsource
    obtain rfl := FlowGraph.find?_inj hx htarget
    exact hx'
  refine ⟨hfilled.trans hended, slot, (hfilled.trans hended).vertices _ _ htarget, ?_⟩
  exact hended.hasEdge (hedge.resolve_left hne)

end ExprWalk

/-- What the visited expression may evaluate to gets to its vertex. If it is a call, what may be
invoked gets to its callee. -/
structure FlowState.Carries (t : FlowState) (place : Place) (v : ExprWalk) : Prop where
  value : ∀ w u, ExprWalk.Source place v w → w.result place = some u →
    ∃ y, v.result place = some y ∧ t.Joins u y
  callee : ∀ shape callee, v.expr.callShape? = some shape → v.expr.called? = some callee →
    ∀ w u, ExprWalk.Source place (v.called place shape callee) w → w.result place = some u →
      ∃ y, (v.called place shape callee).result place = some y ∧ t.Joins u y ∧
        ∃ slot, t.graph.find? (.callee v.call) = some slot ∧ t.graph.hasEdge y slot = true

/-- A visit has this effect, and it lasts. -/
theorem ExprWalk.carries {t : FlowState} {place : Place} {v : ExprWalk}
    (h : (v.after place).flow.Later t) : t.Carries place v := by
  constructor
  · intro w u hw hu
    obtain ⟨y, hy, -, hjoins⟩ := hw.joins hu
    exact ⟨y, hy, hjoins.later h⟩
  · intro shape callee hshape hcalled w u hw hu
    obtain ⟨y, hy, hsource, hjoins⟩ := hw.joins hu
    obtain ⟨hlater, slot, hslot, hedge⟩ := hasEdge_callee hshape hcalled hy hsource
    exact ⟨y, hy, hjoins.later (hlater.trans h), slot, h.vertices _ _ hslot, h.hasEdge hedge⟩

end CallFlow
