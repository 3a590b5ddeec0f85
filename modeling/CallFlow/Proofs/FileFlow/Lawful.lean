import CallFlow.Proofs.FileFlow.Bindings

/-!
# Walks that only grow the state

`Walk.Lawful` says of a walk that it grows the state in which it is started, and something about
its result there. Walks are put together step by step, so that the lemma about a piece of syntax
follows the walk over it.
-/

namespace CallFlow

open Syntax

/-! ## Vertex numbers in a state -/

namespace FileState

/-- The number of a vertex that values flow out of. -/
def Source (s : FileState) (id : VertexId) : Prop :=
  ∃ v, s.flow.graph.find? v = some id ∧ v.IsSource

/-- The number of a vertex that values flow into. -/
def Target (s : FileState) (id : VertexId) : Prop :=
  ∃ v, s.flow.graph.find? v = some id ∧ v.IsTarget

/-- The number of a vertex that stores values: they flow into it and out of it. -/
def Store (s : FileState) (id : VertexId) : Prop :=
  ∃ v, s.flow.graph.find? v = some id ∧ v.IsSource ∧ v.IsTarget

variable {s t : FileState} {id : VertexId}

theorem Store.source (h : s.Store id) : s.Source id :=
  h.imp fun _ h => ⟨h.1, h.2.1⟩

theorem Store.target (h : s.Store id) : s.Target id :=
  h.imp fun _ h => ⟨h.1, h.2.2⟩

theorem Source.later (h : s.Source id) (ht : s.flow.Later t.flow) : t.Source id :=
  h.imp fun v => And.imp_left (ht.vertices v id)

theorem Target.later (h : s.Target id) (ht : s.flow.Later t.flow) : t.Target id :=
  h.imp fun v => And.imp_left (ht.vertices v id)

theorem Store.later (h : s.Store id) (ht : s.flow.Later t.flow) : t.Store id :=
  h.imp fun v => And.imp_left (ht.vertices v id)

/-- A value that may have no vertex. -/
def Value (s : FileState) (value : Option VertexId) : Prop := ∀ id ∈ value, s.Source id

theorem Value.none : s.Value .none := nofun

theorem Value.some (h : s.Source id) : s.Value (.some id) := by
  rintro _ ⟨⟩
  exact h

theorem Value.later {value : Option VertexId} (h : s.Value value) (ht : s.flow.Later t.flow) :
    t.Value value :=
  fun id hid => (h id hid).later ht

end FileState

namespace Walk

variable {α β γ : Type} {place : Place} {file : WalkedFile} {s : FileState} {passing : Passing}

/-- From this state and at this place the walk leads to a state that has grown, with a result as
described there. `passing` is what it may do to the slots of the call around. -/
def LawfulAt (place : Place) (file : WalkedFile) (s : FileState) (walk : Walk α)
    (result : FileState → α → Prop := fun _ _ => True) (passing : Passing := .none) : Prop :=
  s.flow.symbols.Closed → place.In file s.flow →
    s.Grows file passing (walk place s).2 ∧ result (walk place s).2 (walk place s).1

/-- From this state the walk leads to one that has grown, at whatever place in the file. -/
def Lawful (file : WalkedFile) (s : FileState) (walk : Walk α)
    (result : FileState → α → Prop := fun _ _ => True) : Prop :=
  ∀ place : Place, LawfulAt place file s walk result

namespace LawfulAt

variable {walk : Walk α} {next : α → Walk β} {P : FileState → α → Prop}
  {Q : FileState → β → Prop}

/-- A walk may be inside any call. -/
theorem of_lawful (h : Lawful file s walk P) : LawfulAt place file s walk P passing :=
  fun hclosed hplace =>
    (h place hclosed hplace).imp_left fun hgrows => hgrows.mono fun _ _ _ => False.elim

theorem pure {a : α} (h : P s a) : LawfulAt place file s (Pure.pure a : Walk α) P passing :=
  fun _ _ => ⟨.refl s, h⟩

/-- Two walks one after the other. -/
theorem bind (h : LawfulAt place file s walk P passing)
    (hnext : ∀ t, s.Grows file passing t → ∀ a, P t a →
      LawfulAt place file t (next a) Q passing) :
    LawfulAt place file s (walk >>= next) Q passing := by
  intro hclosed hplace
  obtain ⟨hgrows, hresult⟩ := h hclosed hplace
  obtain ⟨hgrows', hresult'⟩ := hnext _ hgrows _ hresult (hgrows.closed hclosed)
    (hplace.later hgrows.later)
  exact ⟨hgrows.trans hgrows', hresult'⟩

theorem mono {R : FileState → α → Prop} (h : LawfulAt place file s walk P passing)
    (hP : ∀ t a, P t a → R t a) : LawfulAt place file s walk R passing :=
  fun hclosed hplace => (h hclosed hplace).imp_right (hP _ _)

/-- More may be said of the result where it is known that the state has grown. -/
theorem of_later {R : FileState → α → Prop} (h : LawfulAt place file s walk P passing)
    (hP : ∀ t, s.flow.Later t.flow → ∀ a, P t a → R t a) :
    LawfulAt place file s walk R passing := by
  intro hclosed hplace
  obtain ⟨hgrows, hresult⟩ := h hclosed hplace
  exact ⟨hgrows, hP _ hgrows.later _ hresult⟩

/-- The result is the one that the walk has from this state. -/
theorem result_eq (h : LawfulAt place file s walk P passing) :
    LawfulAt place file s walk (fun t a => P t a ∧ walk place s = (a, t)) passing :=
  fun hclosed hplace => (h hclosed hplace).imp_right fun hresult => ⟨hresult, rfl⟩

/-- What each step achieves, and later steps keep, holds at the end. -/
theorem forM {f : γ → Walk Unit} {cs : List γ} {P : γ → FileState → Prop}
    (hf : ∀ c ∈ cs, ∀ t, s.Grows file .none t → LawfulAt place file t (f c) fun u _ => P c u)
    (hkeeps : ∀ c t u, t.Grows file .none u → P c t → P c u) :
    LawfulAt place file s (cs.forM f) fun u _ => ∀ c ∈ cs, P c u := by
  induction cs generalizing s with
  | nil => exact .pure (List.forall_mem_nil _)
  | cons c cs ih =>
    refine .bind (hf c List.mem_cons_self s (.refl s)) fun t ht _ hc => ?_
    intro hclosed hplace
    obtain ⟨hgrows, hall⟩ := ih (fun d hd u hu => hf d (List.mem_cons_of_mem c hd) u (ht.trans hu))
      hclosed hplace
    exact ⟨hgrows, List.forall_mem_cons.2 ⟨hkeeps c t _ hgrows hc, hall⟩⟩

/-! ### Scopes and functions around -/

/-- Inside a scope that is created for the walk. It may do there what it may do anywhere, but
nothing to the slots of the call around. -/
theorem inScope (kind : ScopeKind)
    (h : LawfulAt { place with scope := ⟨s.flow.scopes.size⟩ } file
      (s.createScope kind place.scope) walk P) :
    LawfulAt place file s (inScope kind walk) P := by
  intro hclosed hplace
  have hlater := FlowState.Later.createScope s kind place.scope
  obtain ⟨hgrows, hresult⟩ := h hclosed { hplace.later hlater with }
  exact ⟨.trans (.scope kind place.scope) hgrows, hresult⟩

/-- Inside a function, which is the receiver too unless it is an arrow. -/
theorem inFunction {f : FunctionId} (isArrow : Bool)
    (hf : ∃ function, s.flow.program.function? f = some function)
    (h : LawfulAt { place with
      function := some f
      receiver := if isArrow then place.receiver else some f } file s walk P) :
    LawfulAt place file s
      (withReader (fun place => { place with
        function := some f
        receiver := if isArrow then place.receiver else some f }) walk) P := by
  intro hclosed hplace
  refine h hclosed { hplace with function := ?_, receiver := ?_ }
  · rintro _ ⟨⟩
    exact hf
  · cases isArrow with
    | true => exact hplace.receiver
    | false =>
      rintro _ ⟨⟩
      exact hf

/-! ### Functions and calls -/

/-- A new function with its vertex. -/
theorem newFunction {R : FileState → FunctionId → Prop} {name own : Option String} {isArrow : Bool}
    {func : Func} {next : FunctionId → VertexId → Walk FunctionId}
    (hheld : file.module.Holds (.func func))
    (hwalk : visitFunction name own isArrow func = do
      let f ← addFunction name (func.params.countP Param.isSlotted) isArrow func.span
      let value ← Walk.vertex (.func f)
      next f value)
    (hnext : ∀ t, s.flow.Later t.flow → t.flow.scopes = s.flow.scopes → ∀ f value function,
      f = ⟨s.flow.program.functions.size⟩ → t.flow.program.function? f = some function →
      function.paramCount = func.params.countP Param.isSlotted →
      t.flow.graph.find? (.func f) = some value → LawfulAt place file t (next f value) R) :
    LawfulAt place file s (visitFunction name own isArrow func) R := by
  intro hclosed hplace
  let function : Function := {
    name, isArrow
    paramCount := func.params.countP Param.isSlotted
    file := place.file
    location := place.lines.location func.span
    enclosing := place.function }
  let f : FunctionId := ⟨s.flow.program.functions.size⟩
  let t := (s.addFunction function).intern (.func f)
  have hf : t.flow.program.function? f = some function :=
    (Program.function?_addFunction f).trans (if_pos rfl)
  have hvertex : (s.addFunction function).Grows file .none t := .vertex ⟨function, hf⟩
  have hlater : s.flow.Later t.flow := (FlowState.Later.addFunction s function).trans hvertex.later
  have hfound : t.flow.graph.find? (.func f) = some (s.flow.graph.intern (.func f)).1 :=
    FlowGraph.find?_intern_self _ _
  have hreads : function.Reads file func :=
    ⟨rfl, hplace.id, congrArg (LineTable.location · func.span) hplace.lines⟩
  -- What is left to walk starts once the function and its vertex are there.
  obtain ⟨hrest, hresult⟩ := hnext t hlater rfl f _ function rfl hf rfl hfound
    (hvertex.closed hclosed) (hplace.later hlater)
  have hsame : visitFunction name own isArrow func place s =
      next f (s.flow.graph.intern (.func f)).1 place t := by
    rw [hwalk]
    rfl
  -- Later on the function is still known as the one that this walk has registered.
  have hof : (visitFunction name own isArrow func place s).2.flow.FunctionOf file func f
      ⟨s.flow.scopes.size⟩ :=
    ⟨hheld, place, s, name, own, isArrow, hclosed, hplace, rfl, rfl, .refl _⟩
  rw [hsame] at hof ⊢
  exact ⟨.function hreads ⟨hplace.known, hplace.function⟩ (hvertex.trans hrest)
    (hrest.later.has ⟨_, hfound⟩) hof, hresult⟩

/-- A new call, which gets its vertices. -/
theorem newCall {R : FileState → Evaluated → Prop} {role : Role} {e : Expr} {shape : CallShape}
    {next : CallId → Walk Evaluated} (hheld : file.module.Holds (.expr e))
    (hshape : e.callShape? = some shape)
    (hwalk : visit role e = addCall shape.kind shape.argCount shape.span >>= next)
    (hnext : ∀ t, s.flow.Later t.flow → ∀ c site, c = ⟨s.flow.program.calls.size⟩ →
      t.flow.program.call? c = some site → shape.first + shape.args.length ≤ site.argCount + 1 →
      LawfulAt place file t (next c) (fun u value => u.flow.graph.HasCall c shape ∧ R u value)
        (.ofCall c shape)) :
    LawfulAt place file s (visit role e) R := by
  intro hclosed hplace
  let site : CallSite := {
    kind := shape.kind
    argCount := shape.argCount
    file := place.file
    location := place.lines.location shape.span
    enclosing := place.function }
  let c : CallId := ⟨s.flow.program.calls.size⟩
  have hlater := FlowState.Later.addCall s site
  have hc : (s.addCall site).flow.program.call? c = some site :=
    (Program.call?_addCall c).trans (if_pos rfl)
  -- The call is there when the rest of the walk starts, and all its slots are within its count.
  obtain ⟨hrest, hcall, hresult⟩ := hnext (s.addCall site) hlater c site rfl hc
    (Expr.first_add_length hshape).le hclosed (hplace.later hlater)
  have hreads : site.Reads file shape :=
    ⟨rfl, rfl, hplace.id, congrArg (LineTable.location · shape.span) hplace.lines⟩
  have hsame : visit role e place s = next c place (s.addCall site) := by
    rw [hwalk]
    rfl
  have hof : (visit role e place s).2.flow.CallOf file place e c :=
    ⟨hheld, s, role, hclosed, hplace, rfl, .refl _⟩
  rw [hsame] at hof ⊢
  exact ⟨.call hshape hreads ⟨hplace.known, hplace.function⟩ hrest hcall hof, hresult⟩

end LawfulAt

namespace Lawful

variable {walk : Walk α} {next : α → Walk β} {P : FileState → α → Prop}
  {Q : FileState → β → Prop}

theorem pure {a : α} (h : P s a) : Lawful file s (Pure.pure a : Walk α) P :=
  fun _ => .pure h

/-- Two walks one after the other. -/
theorem bind (h : Lawful file s walk P)
    (hnext : ∀ t, s.flow.Later t.flow → ∀ a, P t a → Lawful file t (next a) Q) :
    Lawful file s (walk >>= next) Q :=
  fun place => (h place).bind fun t ht a ha => hnext t ht.later a ha place

theorem mono {R : FileState → α → Prop} (h : Lawful file s walk P)
    (hP : ∀ t a, P t a → R t a) : Lawful file s walk R :=
  fun place => (h place).mono hP

/-- A step for each element of a list, each from a state that the steps before have led to. -/
theorem forM {f : γ → Walk Unit} {cs : List γ}
    (hf : ∀ c ∈ cs, ∀ t, s.flow.Later t.flow → Lawful file t (f c)) :
    Lawful file s (cs.forM f) := by
  induction cs generalizing s with
  | nil => exact .pure trivial
  | cons c cs ih =>
    refine .bind (hf c List.mem_cons_self s (.refl _)) fun t ht _ _ => ?_
    exact ih fun d hd u hu => hf d (List.mem_cons_of_mem c hd) u (ht.trans hu)

/-! ### Vertices and edges -/

/-- A vertex may be added if what it names is registered, and is found by then. -/
theorem vertex {v : Vertex} (hv : s.flow.Names v) :
    Lawful file s (vertex v) fun t id => t.flow.graph.find? v = some id :=
  fun _ _ _ => ⟨.vertex hv, FlowGraph.find?_intern_self _ _⟩

theorem prop (name : String) : Lawful file s (Walk.vertex (.prop name)) FileState.Store :=
  (vertex (v := .prop name) trivial).mono fun _ _ h => ⟨_, h, trivial, trivial⟩

/-- The unknown vertex can be stored in. Nothing is ever read from it, but it is a source as well.
-/
theorem unknown : Lawful file s (Walk.vertex .unknown) FileState.Store :=
  (vertex (v := .unknown) trivial).mono fun _ _ h => ⟨_, h, trivial, trivial⟩

/-- The vertex of an expression can be stored in. It names the file that the walk is in. -/
theorem exprVertex (span : Span) : Lawful file s (exprVertex span) FileState.Store :=
  fun place hclosed hplace =>
    (vertex (v := .expr ⟨place.file, span⟩) hplace.known).mono
      (fun _ _ h => ⟨_, h, trivial, trivial⟩) place hclosed hplace

/-- The vertex of a function that has one. -/
theorem functionVertex {f : FunctionId}
    (hf : ∃ function, s.flow.program.function? f = some function) :
    Lawful file s (Walk.vertex (.func f)) FileState.Source :=
  (vertex (v := .func f) hf).mono fun _ _ h => ⟨_, h, trivial⟩

theorem edge {a b : VertexId} (ha : s.Source a) (hb : s.Target b) :
    Lawful file s (edge a b) := by
  intro place _ _
  obtain ⟨x, hx, hsource⟩ := ha
  obtain ⟨y, hy, htarget⟩ := hb
  exact ⟨.edge hx hy hsource htarget, trivial⟩

theorem flow {a : Option VertexId} {b : VertexId} (ha : s.Value a) (hb : s.Target b) :
    Lawful file s (flow a b) := by
  cases a with
  | none => exact .pure trivial
  | some a => exact .edge (ha a rfl) hb

/-- An edge between two different vertices is there. -/
theorem join {x y : Vertex} {a b : VertexId} (hx : s.flow.graph.find? x = some a)
    (hy : s.flow.graph.find? y = some b) (hsource : x.IsSource) (htarget : y.IsTarget)
    (hne : x ≠ y) : Lawful file s (Walk.edge a b) fun t _ => (x, y) ∈ t.flow.graph.edgeSet := by
  intro place _ _
  refine ⟨.edge hx hy hsource htarget, ?_⟩
  show (x, y) ∈ (s.flow.graph.addEdge a b).2.edgeSet
  rw [(FlowGraph.edgeSet_addEdge hx hy hne).2]
  exact Set.mem_insert _ _

/-! ### Scopes and names -/

theorem inScope (kind : ScopeKind) (h : ∀ t, s.flow.Later t.flow → Lawful file t walk P) :
    Lawful file s (inScope kind walk) P :=
  fun place => .inScope kind (h _ (.createScope s kind place.scope) _)

theorem declareIn (scope : ScopeId) (kind : SymbolKind) (name : String) :
    Lawful file s (declareIn scope kind name) :=
  fun _ _ _ => ⟨.declare name kind scope, trivial⟩

theorem declare (kind : SymbolKind) (names : List String) :
    Lawful file s (declare kind names) :=
  fun place hclosed hplace =>
    forM (fun name _ _ _ => .declareIn place.scope kind name) place hclosed hplace

/-- Names may be declared in the scope around that takes what `var` declares. -/
theorem declareVars (names : List String) : Lawful file s (declareVars names) :=
  fun place hclosed hplace =>
    forM (fun name _ _ _ => .declareIn (s.flow.scopes.varScope place.scope) .variable name) place
      hclosed hplace

theorem lookup (name : String) :
    Lawful file s (lookup name) fun t x =>
      ∀ id ∈ x, ∃ symbol, t.flow.symbols.symbol? id = some symbol :=
  fun _ hclosed _ => ⟨.refl s, fun _ hid => hclosed.lookup hid⟩

/-- A name leads to a variable or to a property of the global object. Both can be stored in. -/
theorem resolve (name : String) : Lawful file s (resolve name) FileState.Store := by
  refine .bind (.lookup name) fun t _ x hx => ?_
  cases x with
  | none => exact .prop name
  | some id =>
    exact (vertex (v := .var id) (hx id rfl)).mono fun _ _ h => ⟨_, h, trivial, trivial⟩

theorem isGlobal (name : String) : Lawful file s (isGlobal name) :=
  .bind (.lookup name) fun _ _ _ _ => .pure trivial

/-- The receiver is the slot before the first parameter of the function around, if there is one. -/
theorem receiver : Lawful file s Walk.receiver FileState.Value := by
  intro ⟨id, lines, scope, function, around⟩ hclosed hplace
  cases around with
  | none => exact ⟨.refl s, .none⟩
  | some f =>
    have hf : s.flow.Names (.param f 0) :=
      (hplace.receiver f rfl).imp fun _ h => ⟨h, Nat.zero_le _⟩
    have hvertex : Lawful file s (Walk.vertex (.param f 0)) FileState.Source :=
      (vertex hf).mono fun _ _ h => ⟨_, h, trivial⟩
    have h : Lawful file s (do return some (← Walk.vertex (.param f 0))) FileState.Value :=
      hvertex.bind fun _ _ _ h => .pure (.some h)
    exact h _ hclosed hplace

/-! ### The module record -/

theorem addExport (name : String) {value : VertexId} (hvalue : s.Source value) :
    Lawful file s (addExport name value) := by
  intro place _ _
  obtain ⟨v, hv, hsource⟩ := hvalue
  exact ⟨.export name hv hsource, trivial⟩

theorem addImport (specifier : String) (imported : ImportedName) {target : VertexId}
    (htarget : s.Target target) : Lawful file s (addImport specifier imported target) := by
  intro place _ _
  obtain ⟨v, hv, htarget⟩ := htarget
  exact ⟨.import specifier imported hv htarget, trivial⟩

/-- What another file offers may get into the result of a call that has its vertices. -/
theorem addRequire (specifier : String) {call : CallId} (hcall : s.flow.graph.Has (.res call)) :
    Lawful file s (addRequire specifier call) :=
  fun _ _ _ => ⟨.require specifier hcall, trivial⟩

/-! ### Composed steps -/

/-- What a declaration declares before it is reached. -/
theorem hoist (d : Decl) : Lawful file s (hoist d) := by
  cases d with
  | function name f => exact .declare _ _
  | «class» name c => exact .declare _ _
  | vars kind declarators =>
    cases kind with
    | var => exact .declareVars _
    | «let» | const => exact .declare _ _
  | «using» declarators => exact .declare _ _
  | inert => exact .pure trivial

theorem hoistAll (stmts : List Stmt) : Lawful file s (hoistAll stmts) := by
  refine .forM fun stmt _ t _ => ?_
  split
  · exact .hoist _
  · exact .pure trivial

/-- What a body declares, together with the names of every `var` inside of it. -/
theorem hoistBody (body : Body) : Lawful file s (hoistBody body) := by
  cases body with
  | block stmts => exact .bind (.hoistAll stmts) fun _ _ _ _ => .declare _ _
  | expr result => exact .pure trivial
  | absent => exact .pure trivial

theorem hoistCases (cases : List Case) : Lawful file s (hoistCases cases) :=
  .forM fun ⟨_, body⟩ _ _ _ => .hoistAll body

/-- An assignment to `module.exports` offers its value, unless `module` is declared. -/
theorem exportAssigned (target : Pattern) {value : Option VertexId} (hvalue : s.Value value) :
    Lawful file s (exportAssigned target value) := by
  unfold Walk.exportAssigned
  split
  · refine .bind (.isGlobal "module") fun t ht isGlobal _ => ?_
    cases isGlobal with
    | false => exact .pure trivial
    | true =>
      cases value with
      | none => exact .pure trivial
      | some value => exact .addExport _ ((hvalue value rfl).later ht)
  · exact .pure trivial

/-- A call of `require` takes what another file offers, unless `require` is declared. -/
theorem recordRequire (chained : Bool) (callee : Expr) (args : List Expr) {call : CallId}
    (hcall : s.flow.graph.Has (.res call)) :
    Lawful file s (recordRequire chained callee args call) := by
  unfold Walk.recordRequire
  split
  · refine .bind (.isGlobal "require") fun t ht isGlobal _ => ?_
    cases isGlobal with
    | false => exact .pure trivial
    | true => exact .addRequire _ (ht.has hcall)
  · exact .pure trivial

/-- What a method is called on gets into the slot for the receiver, which every call has. -/
theorem passReceiver {call : CallId} {site : CallSite}
    (hcall : s.flow.program.call? call = some site) {object : Option VertexId}
    (hobject : s.Value object) : Lawful file s (passReceiver call object) := by
  cases object with
  | none => exact .pure trivial
  | some object =>
    refine .bind (.vertex (v := .arg call 0) ⟨site, hcall, Nat.zero_le _⟩) fun t ht slot hslot => ?_
    exact .edge ((hobject object rfl).later ht) ⟨_, hslot, rfl⟩

/-- What is returned gets to the vertex for the results of the function around, if there is one. -/
theorem returnValue {value : Option VertexId} (hvalue : s.Value value) :
    Lawful file s (returnValue value) := by
  intro ⟨id, lines, scope, function, around⟩ hclosed hplace
  cases function with
  | none => exact ⟨.refl s, trivial⟩
  | some f =>
    have h : Lawful file s (do Walk.flow value (← Walk.vertex (.ret f))) := by
      refine .bind (.vertex (v := .ret f) (hplace.function f rfl)) fun t ht slot hslot => ?_
      exact .flow (hvalue.later ht) ⟨_, hslot, trivial⟩
    exact h _ hclosed hplace

/-- A function has its own name inside of itself. -/
theorem bindOwnName {value : VertexId} (hvalue : s.Source value) (own : Option String) :
    Lawful file s (bindOwnName value own) := by
  cases own with
  | none => exact .pure trivial
  | some own =>
    refine .bind (.declare _ _) fun t ht _ _ => ?_
    refine .bind (.resolve own) fun u hu target htarget => ?_
    exact .edge (hvalue.later (ht.trans hu)) htarget.target

theorem declareClassName (own : Option String) : Lawful file s (declareClassName own) := by
  cases own with
  | none => exact .pure trivial
  | some own => exact .declare _ _

/-- Behind the members of a class its own name gets the constructor as its value. -/
theorem bindClassName (own : Option String) {value : Option VertexId} (hvalue : s.Value value) :
    Lawful file s (bindClassName own value) := by
  cases own with
  | none => exact .pure trivial
  | some own =>
    cases value with
    | none => exact .pure trivial
    | some value =>
      refine .bind (.resolve own) fun t ht target htarget => ?_
      exact .edge ((hvalue value rfl).later ht) htarget.target

theorem inBlock (stmts : List Stmt) {walk : Walk Unit}
    (h : ∀ t, s.flow.Later t.flow → Lawful file t walk) : Lawful file s (inBlock stmts walk) :=
  .inScope _ fun _ ht => .bind (.hoistAll stmts) fun u hu _ _ => h u (ht.trans hu)

end Lawful

namespace LawfulAt

/-- Names that are declared are bound. -/
theorem declare (kind : SymbolKind) (names : List String) :
    LawfulAt place file s (Walk.declare kind names) fun u _ =>
      ∀ name ∈ names, ∃ x, u.flow.symbols.binding? place.scope name = some x := by
  have hone : ∀ name ∈ names, ∀ t, s.Grows file .none t →
      LawfulAt place file t (declareIn place.scope kind name) fun u _ =>
        ∃ x, u.flow.symbols.binding? place.scope name = some x := by
    intro name _ t _ _ _
    have hbound := t.flow.symbols.binding?_declare name kind place.scope place.scope name
    rw [if_pos ⟨rfl, rfl⟩] at hbound
    exact ⟨.declare name kind place.scope, _, hbound⟩
  -- A name that is bound stays bound when the next one is declared.
  exact forM (P := fun name u => ∃ x, u.flow.symbols.binding? place.scope name = some x) hone
    fun name t u hgrows => Exists.imp fun x => hgrows.later.bindings _ name x

/-- A name that is bound in the present scope is resolved to its variable. -/
theorem resolve {name : String} {x : SymbolId}
    (hscope : ∃ scope, s.flow.scopes.scope? place.scope = some scope)
    (hx : s.flow.symbols.binding? place.scope name = some x) :
    LawfulAt place file s (Walk.resolve name) fun u id =>
      u.flow.graph.find? (.var x) = some id := by
  obtain ⟨scope, hscope⟩ := hscope
  have hsize : 0 < s.flow.scopes.size :=
    (Nat.zero_le _).trans_lt (Array.getElem?_eq_some_iff.1 hscope).1
  have hlookup : s.flow.symbols.lookup s.flow.scopes name place.scope = some x :=
    SymbolTable.lookup_of_binding? hsize hx
  -- Looking the name up changes nothing and leads to its symbol.
  have hfound : LawfulAt place file s (Walk.lookup name) fun t found => t = s ∧ found = some x :=
    fun _ _ => ⟨.refl s, rfl, hlookup⟩
  refine .bind hfound fun t _ found h hclosed hplace => ?_
  obtain ⟨rfl, rfl⟩ := h
  exact Lawful.vertex (v := .var x) (hclosed _ _ _ hx) place hclosed hplace

end LawfulAt

end Walk

end CallFlow
