import CallFlow.Proofs.FileFlow.Restoring
import CallFlow.Proofs.FileFlow.Copy

/-!
# Walks that do the same

`Walk.Alike` relates a walk in the state of the file alone with one in the state amid other files:
from states that are copies they lead to states that are, and their results are related. Walks are
related step by step, so that the lemma about a piece of syntax follows the walk over it.
-/

namespace CallFlow

open Syntax

/-- A place of the walk over a file alone, as it is behind what `base` has. -/
def FlowState.place (base : FlowState) (p : Place) : Place where
  file := base.shift.fileId p.file
  lines := p.lines
  scope := ScopeTree.moved base.scopes.size p.scope
  function := p.function.map base.shift.functionId
  receiver := p.receiver.map base.shift.functionId

/-- A place of the walk over a file alone. -/
structure Twin.Placed (w : Twin) (p : Place) : Prop where
  file : p.file.index < w.alone.flow.extent .file
  scope_pos : 0 < p.scope.index
  scope_lt : p.scope.index < w.alone.flow.scopes.size
  function : ∀ f ∈ p.function, f.index < w.alone.flow.extent .function
  receiver : ∀ f ∈ p.receiver, f.index < w.alone.flow.extent .function

/-- Later there is more that a place can name. -/
theorem Twin.Placed.later {w u : Twin} {p : Place} (h : w.Placed p) (hu : w.Later u) :
    u.Placed p where
  file := h.file.trans_le (hu.extent .file)
  scope_pos := h.scope_pos
  scope_lt := h.scope_lt.trans_le hu.scopes
  function := fun f hf => (h.function f hf).trans_le (hu.extent .function)
  receiver := fun f hf => (h.receiver f hf).trans_le (hu.extent .function)

/-- The states after a walk of the file alone and one amid other files. -/
def Twin.after {α β : Type} (base : FlowState) (w : Twin) (place : Place) (walk : Walk α)
    (walk' : Walk β) : Twin where
  alone := (walk place w.alone).2
  amid := (walk' (base.place place) w.amid).2

namespace Walk

variable {α β γ δ : Type} {base : FlowState} {w : Twin}

/-- From states that are copies the two walks lead to later ones that are, with results as
described. -/
def Alike (base : FlowState) (w : Twin) (walk : Walk α) (walk' : Walk β)
    (result : Twin → α → β → Prop := fun _ _ _ => True) : Prop :=
  ∀ place, w.Copies base → w.Placed place →
    (w.after base place walk walk').Copies base ∧ w.Later (w.after base place walk walk') ∧
      result (w.after base place walk walk') (walk place w.alone).1
        (walk' (base.place place) w.amid).1

namespace Alike

variable {walk : Walk α} {walk' : Walk β} {next : α → Walk γ} {next' : β → Walk δ}
  {P : Twin → α → β → Prop} {Q : Twin → γ → δ → Prop}

theorem pure {a : α} {b : β} (h : P w a b) :
    Alike base w (Pure.pure a : Walk α) (Pure.pure b : Walk β) P :=
  fun _ hw _ => ⟨hw, .refl w, h⟩

/-- Two walks one after the other. -/
theorem bind (h : Alike base w walk walk' P)
    (hnext : ∀ u, w.Later u → ∀ a b, P u a b → Alike base u (next a) (next' b) Q) :
    Alike base w (walk >>= next) (walk' >>= next') Q := by
  intro place hw hplace
  obtain ⟨hcopies, hlater, hresult⟩ := h place hw hplace
  obtain ⟨hcopies', hlater', hresult'⟩ :=
    hnext _ hlater _ _ hresult place hcopies (hplace.later hlater)
  exact ⟨hcopies', hlater.trans hlater', hresult'⟩

theorem mono {P' : Twin → α → β → Prop} (h : Alike base w walk walk' P)
    (hP : ∀ u a b, P u a b → P' u a b) : Alike base w walk walk' P' := by
  intro place hw hplace
  obtain ⟨hcopies, hlater, hresult⟩ := h place hw hplace
  exact ⟨hcopies, hlater, hP _ _ _ hresult⟩

/-- What follows from the states being copies may be used. -/
theorem of_copies (h : w.Copies base → Alike base w walk walk' P) : Alike base w walk walk' P :=
  fun place hw => h hw place hw

/-- A step for each element of a list, in both walks. -/
theorem forM {f f' : γ → Walk Unit} (hf : ∀ u, w.Later u → ∀ c, Alike base u (f c) (f' c))
    (cs : List γ) : Alike base w (cs.forM f) (cs.forM f') := by
  induction cs generalizing w with
  | nil => exact .pure trivial
  | cons c cs ih =>
    refine .bind (hf w (.refl w) c) fun u hu _ _ _ => ?_
    exact ih fun v hv => hf v (hu.trans hv)

/-! ### Vertices and edges -/

/-- A vertex that is no built-in function and names what is there. That of a function is added
right after it. -/
theorem vertex {v : Vertex} (hv : v.Within w.alone.flow.extent)
    (hwritten : ∀ name, v ≠ .native name)
    (hfunc : ∀ f, v = .func f →
      w.alone.flow.graph.Has v ∨ f.index + 1 = w.alone.flow.extent .function) :
    Alike base w (vertex v) (Walk.vertex (base.shift.vertex v))
      fun u a b => u.Names base v a b := by
  intro place hw hplace
  refine ⟨hw.intern hv hwritten hfunc, ?_, FlowGraph.find?_intern_self _ _,
    FlowGraph.find?_intern_self _ _⟩
  exact ⟨fun _ _ => FlowGraph.find?_intern_of_find? _, fun _ _ => FlowGraph.find?_intern_of_find? _,
    le_refl _, le_refl _⟩

theorem prop (name : String) :
    Alike base w (Walk.vertex (.prop name)) (Walk.vertex (.prop name)) (Twin.Same base) :=
  (vertex (v := .prop name) trivial nofun nofun).mono fun _ _ _ => Twin.Names.same

theorem unknown :
    Alike base w (Walk.vertex .unknown) (Walk.vertex .unknown) (Twin.Same base) :=
  (vertex (v := .unknown) trivial nofun nofun).mono fun _ _ _ => Twin.Names.same

theorem edge {a b c d : VertexId} (hs : w.Same base a c) (ht : w.Same base b d) :
    Alike base w (edge a b) (Walk.edge c d) := by
  intro place hw hplace
  refine ⟨hw.addEdge hs ht, ?_, trivial⟩
  exact ⟨fun _ _ hv => (FlowGraph.find?_addEdge ..).trans hv,
    fun _ _ hv => (FlowGraph.find?_addEdge ..).trans hv, le_refl _, le_refl _⟩

/-- A value has a vertex in both walks or in none, so its edge is added in both or in none. -/
theorem flow {a c : Option VertexId} {b d : VertexId} (hs : Option.Rel (w.Same base) a c)
    (ht : w.Same base b d) : Alike base w (flow a b) (Walk.flow c d) := by
  cases hs with
  | none => exact .pure trivial
  | some hs => exact .edge hs ht

theorem exprVertex (span : Span) :
    Alike base w (exprVertex span) (Walk.exprVertex span) (Twin.Same base) := by
  intro place hw hplace
  exact (vertex (v := .expr ⟨place.file, span⟩) hplace.file nofun nofun).mono
    (fun _ _ _ => Twin.Names.same) place hw hplace

/-! ### Functions and calls -/

/-- A function that is added gets the number that is free in each of the states, and these differ by
what the base holds. -/
theorem addFunction (name : Option String) (paramCount : Nat) (isArrow : Bool) (span : Span) :
    Alike base w (addFunction name paramCount isArrow span)
      (Walk.addFunction name paramCount isArrow span) fun u f g =>
        g = base.shift.functionId f ∧ f.index + 1 = u.alone.flow.extent .function := by
  intro place hw hplace
  refine ⟨hw.addFunction ⟨hplace.file, hplace.function⟩, ?_, ?_, ?_⟩
  · refine ⟨fun _ _ h => h, fun _ _ h => h, fun k => ?_, le_refl _⟩
    cases k <;> simp [Twin.after, FlowState.extent, Walk.addFunction, Program.addFunction]
  · exact congrArg FunctionId.mk (congrFun hw.extent_amid .function)
  · exact (Array.size_push ..).symm

/-- So does a call. -/
theorem addCall (kind : CallKind) (argCount : Nat) (span : Span) :
    Alike base w (addCall kind argCount span) (Walk.addCall kind argCount span) fun u c d =>
      d = base.shift.callId c ∧ c.index < u.alone.flow.extent .call := by
  intro place hw hplace
  refine ⟨hw.addCall ⟨hplace.file, hplace.function⟩, ?_, ?_, ?_⟩
  · refine ⟨fun _ _ h => h, fun _ _ h => h, fun k => ?_, le_refl _⟩
    cases k <;> simp [Twin.after, FlowState.extent, Walk.addCall, Program.addCall]
  · exact congrArg CallId.mk (congrFun hw.extent_amid .call)
  · exact (Nat.lt_succ_self _).trans_eq (Array.size_push ..).symm

/-- A new function with its vertex. -/
theorem newFunction {next : FunctionId → VertexId → Walk γ} {next' : FunctionId → VertexId → Walk δ}
    (name : Option String) (paramCount : Nat) (isArrow : Bool) (span : Span)
    (hnext : ∀ u, w.Later u → ∀ f a b, f.index < u.alone.flow.extent .function →
      u.Names base (.func f) a b →
        Alike base u (next f a) (next' (base.shift.functionId f) b) Q) :
    Alike base w
      (do
        let f ← Walk.addFunction name paramCount isArrow span
        let value ← Walk.vertex (.func f)
        next f value)
      (do
        let f ← Walk.addFunction name paramCount isArrow span
        let value ← Walk.vertex (.func f)
        next' f value) Q := by
  refine .bind (.addFunction name paramCount isArrow span) fun u hu f g hf => ?_
  obtain ⟨rfl, hnew⟩ := hf
  have hlt : f.index < u.alone.flow.extent .function := by omega
  refine .bind (.vertex (v := .func f) hlt nofun fun g hg => ?_) fun v hv a b hab => ?_
  -- This is the one step at which a function has no vertex yet.
  · cases hg
    exact Or.inr hnew
  · exact hnext v (hu.trans hv) f a b (hlt.trans_le (hv.extent .function)) hab

/-- The vertex of a function that has one. -/
theorem functionVertex {f : FunctionId} (hf : w.alone.flow.graph.Has (.func f)) :
    Alike base w (Walk.vertex (.func f)) (Walk.vertex (.func (base.shift.functionId f)))
      (Twin.Same base) :=
  .of_copies fun hw => (vertex (v := .func f) (hw.sound_alone.vertices _ hf) nofun
    fun _ _ => Or.inl hf).mono fun _ _ _ => Twin.Names.same

/-! ### Scopes and names -/

/-- Inside a scope that is created in both states. -/
theorem inScope (kind : ScopeKind) (h : ∀ u, w.Later u → Alike base u walk walk' P) :
    Alike base w (inScope kind walk) (Walk.inScope kind walk') P := by
  intro place hw hplace
  let u := w.withScopes (w.alone.flow.scopes.create kind place.scope).2
    (w.amid.flow.scopes.create kind (ScopeTree.moved base.scopes.size place.scope)).2
  have hu : u.Copies base := hw.createScope kind hplace.scope_pos hplace.scope_lt
  have hsize : u.alone.flow.scopes.size = w.alone.flow.scopes.size + 1 :=
    ScopeTree.size_create ..
  have hlater : w.Later u :=
    ⟨fun _ _ h => h, fun _ _ h => h, le_refl _, by rw [hsize]; exact Nat.le_succ _⟩
  have hinner : u.Placed { place with scope := ⟨w.alone.flow.scopes.size⟩ } :=
    { file := hplace.file
      scope_pos := hplace.scope_pos.trans hplace.scope_lt
      scope_lt := by rw [hsize]; exact Nat.lt_succ_self _
      function := hplace.function
      receiver := hplace.receiver }
  -- the new scope has the number of the other one, moved
  have hmoved : base.place { place with scope := ⟨w.alone.flow.scopes.size⟩ } =
      { base.place place with scope := ⟨w.amid.flow.scopes.size⟩ } := by
    rw [FlowState.place, hw.scopes.moved_size (hplace.scope_pos.trans hplace.scope_lt)]
    rfl
  obtain ⟨hcopies, hlater', hresult⟩ := h u hlater _ hu hinner
  rw [Twin.after, hmoved] at hcopies hlater' hresult
  exact ⟨hcopies, hlater.trans hlater', hresult⟩

/-- Inside a function, which is the receiver too unless it is an arrow. -/
theorem inFunction {f : FunctionId} (isArrow : Bool)
    (hf : f.index < w.alone.flow.extent .function) (h : Alike base w walk walk' P) :
    Alike base w
      (withReader (fun place => { place with
        function := some f
        receiver := if isArrow then place.receiver else some f }) walk)
      (withReader (fun place => { place with
        function := some (base.shift.functionId f)
        receiver := if isArrow then place.receiver else some (base.shift.functionId f) }) walk')
      P := by
  intro place hw hplace
  have hinner : w.Placed { place with
      function := some f
      receiver := if isArrow then place.receiver else some f } :=
    { hplace with
      function := fun g hg => by
        obtain rfl := Option.some.inj hg
        exact hf
      receiver := fun g hg => by
        cases isArrow with
        | true => exact hplace.receiver g hg
        | false =>
          obtain rfl := Option.some.inj hg
          exact hf }
  have h := h _ hw hinner
  -- The places agree once it is known whose receiver it is.
  cases isArrow with
  | true => exact h
  | false => exact h

/-- A name that is declared in both states, in scopes that are the same. -/
theorem declareIn {scope : ScopeId} (hpos : 0 < scope.index)
    (hlt : scope.index < w.alone.flow.scopes.size) (kind : SymbolKind) (name : String) :
    Alike base w (declareIn scope kind name)
      (Walk.declareIn (ScopeTree.moved base.scopes.size scope) kind name) := by
  intro place hw hplace
  refine ⟨hw.declare name kind hpos hlt, ?_, trivial⟩
  refine ⟨fun _ _ h => h, fun _ _ h => h, fun k => ?_, le_refl _⟩
  cases k <;> simp [Twin.after, FlowState.extent, Walk.declareIn, SymbolTable.size_declare]

theorem declareAll {scope : ScopeId} (hpos : 0 < scope.index)
    (hlt : scope.index < w.alone.flow.scopes.size) (kind : SymbolKind) (names : List String) :
    Alike base w (names.forM (Walk.declareIn scope kind))
      (names.forM (Walk.declareIn (ScopeTree.moved base.scopes.size scope) kind)) :=
  .forM (fun _ hu => .declareIn hpos (hlt.trans_le hu.scopes) kind) names

theorem declare (kind : SymbolKind) (names : List String) :
    Alike base w (declare kind names) (Walk.declare kind names) :=
  fun place hw hplace =>
    declareAll hplace.scope_pos hplace.scope_lt kind names place hw hplace

/-- Names that `var` declares. -/
theorem declareVars (names : List String) :
    Alike base w (declareVars names) (Walk.declareVars names) := by
  intro place hw hplace
  obtain ⟨hpos, hlt⟩ := hw.nested.varScope_spec hplace.scope_pos hplace.scope_lt
  -- The scope that takes them is found above the present one, within the file.
  have hmoved : w.amid.flow.scopes.varScope (base.place place).scope =
      ScopeTree.moved base.scopes.size (w.alone.flow.scopes.varScope place.scope) :=
    hw.scopes.varScope_moved hw.size_scopes_pos hw.nested hplace.scope_lt
  have hamid : Walk.declareVars names (base.place place) w.amid =
      names.forM (Walk.declareIn (ScopeTree.moved base.scopes.size
        (w.alone.flow.scopes.varScope place.scope)) .variable) (base.place place) w.amid := by
    rw [Walk.declareVars, hmoved]
  have halone : Walk.declareVars names place w.alone =
      names.forM (Walk.declareIn (w.alone.flow.scopes.varScope place.scope) .variable) place
        w.alone := rfl
  rw [Twin.after, halone, hamid]
  exact declareAll hpos hlt .variable names place hw hplace

/-- A name denotes the same symbol, or none. -/
theorem lookup (name : String) :
    Alike base w (lookup name) (Walk.lookup name) fun u s t =>
      t = s.map base.shift.symbolId ∧ ∀ id ∈ s, id.index < u.alone.flow.extent .symbol := by
  intro place hw hplace
  refine ⟨hw, .refl w, ?_, fun id hid => hw.sound_alone.binds.lookup hid⟩
  exact hw.symbols.lookup_moved hw.scopes hw.size_scopes_pos hw.nested name hplace.scope_lt

/-- A name that is not declared in the file is a property of the global object, whatever else is
around the file. -/
theorem resolve (name : String) :
    Alike base w (resolve name) (Walk.resolve name) (Twin.Same base) := by
  refine .bind (.lookup name) fun u _ s t hst => ?_
  obtain ⟨rfl, hlt⟩ := hst
  cases s with
  | none => exact .prop name
  | some id =>
    exact (vertex (v := .var id) (hlt id rfl) nofun nofun).mono fun _ _ _ => Twin.Names.same

theorem isGlobal (name : String) :
    Alike base w (isGlobal name) (Walk.isGlobal name) fun _ a b => a = b := by
  refine .bind (.lookup name) fun u _ s t hst => ?_
  obtain ⟨rfl, -⟩ := hst
  exact .pure (by cases s <;> rfl)

/-- The receiver of the function around, if there is one. -/
theorem receiver :
    Alike base w Walk.receiver Walk.receiver fun u => Option.Rel (u.Same base) := by
  intro place hw hplace
  obtain ⟨file, lines, scope, function, around⟩ := place
  cases around with
  | none => exact ⟨hw, .refl w, .none⟩
  | some f =>
    have h : Alike base w (Walk.vertex (.param f 0)) (Walk.vertex (base.shift.vertex (.param f 0)))
        fun u a b => u.Names base (.param f 0) a b :=
      vertex (hplace.receiver f rfl) nofun nofun
    exact h.mono (fun u a b hab => Option.Rel.some (hab.same)) _ hw hplace

/-! ### The module record -/

theorem addExport (name : String) {a b : VertexId} (hs : w.Same base a b) :
    Alike base w (addExport name a) (Walk.addExport name b) :=
  fun _ hw _ => ⟨hw.addExport name hs, .of_flow rfl rfl, trivial⟩

theorem addImport (specifier : String) (imported : ImportedName) {a b : VertexId}
    (hs : w.Same base a b) :
    Alike base w (addImport specifier imported a) (Walk.addImport specifier imported b) :=
  fun _ hw _ => ⟨hw.addImport specifier imported hs, .of_flow rfl rfl, trivial⟩

theorem addRequire (specifier : String) {call : CallId}
    (hcall : w.alone.flow.graph.Has (.res call)) :
    Alike base w (addRequire specifier call)
      (Walk.addRequire specifier (base.shift.callId call)) :=
  fun _ hw _ => ⟨hw.addRequire specifier hcall, .of_flow rfl rfl, trivial⟩

/-! ### Composed steps -/

/-- What a declaration declares before it is reached. -/
theorem hoist (d : Decl) : Alike base w (hoist d) (Walk.hoist d) := by
  cases d with
  | function name f => exact .declare _ _
  | «class» name c => exact .declare _ _
  | vars kind declarators =>
    cases kind with
    | var => exact .declareVars _
    | «let» | const => exact .declare _ _
  | «using» declarators => exact .declare _ _
  | inert => exact .pure trivial

theorem hoistAll (stmts : List Stmt) : Alike base w (hoistAll stmts) (Walk.hoistAll stmts) := by
  refine .forM (fun u _ s => ?_) stmts
  split
  · exact .hoist _
  · exact .pure trivial

theorem hoistBody (body : Body) : Alike base w (hoistBody body) (Walk.hoistBody body) := by
  cases body with
  | block stmts => exact .bind (.hoistAll stmts) fun _ _ _ _ _ => .declare _ _
  | expr result => exact .pure trivial
  | absent => exact .pure trivial

theorem hoistCases (cases : List Case) : Alike base w (hoistCases cases) (Walk.hoistCases cases) :=
  .forM (fun _ _ ⟨_, body⟩ => .hoistAll body) cases

/-- An assignment to `module.exports`: either both walks know a declared `module` or none does. -/
theorem exportAssigned (target : Pattern) {a b : Option VertexId}
    (hs : Option.Rel (w.Same base) a b) :
    Alike base w (exportAssigned target a) (Walk.exportAssigned target b) := by
  unfold Walk.exportAssigned
  split
  · refine .bind (.isGlobal "module") fun u hu isGlobal _ heq => ?_
    subst heq
    cases isGlobal with
    | false => exact .pure trivial
    | true =>
      cases hs with
      | none => exact .pure trivial
      | some hs => exact .addExport _ (hs.later hu)
  · exact .pure trivial

/-- The same for a call of `require`. -/
theorem recordRequire (chained : Bool) (callee : Expr) (args : List Expr) {call : CallId}
    (hcall : w.alone.flow.graph.Has (.res call)) :
    Alike base w (recordRequire chained callee args call)
      (Walk.recordRequire chained callee args (base.shift.callId call)) := by
  unfold Walk.recordRequire
  split
  · refine .bind (.isGlobal "require") fun u hu isGlobal _ heq => ?_
    subst heq
    cases isGlobal with
    | false => exact .pure trivial
    | true => exact .addRequire _ (hcall.imp fun id => hu.alone _ id)
  · exact .pure trivial

/-- What a method is called on. -/
theorem passReceiver {call : CallId} (hcall : call.index < w.alone.flow.extent .call)
    {a b : Option VertexId} (hs : Option.Rel (w.Same base) a b) :
    Alike base w (passReceiver call a) (Walk.passReceiver (base.shift.callId call) b) := by
  cases hs with
  | none => exact .pure trivial
  | some hs =>
    refine .bind (.vertex (v := .arg call 0) hcall nofun nofun) fun u hu a b hab => ?_
    exact .edge (hs.later hu) hab.same

/-- What is returned from the function around. -/
theorem returnValue {a b : Option VertexId} (hs : Option.Rel (w.Same base) a b) :
    Alike base w (returnValue a) (Walk.returnValue b) := by
  intro place hw hplace
  obtain ⟨file, lines, scope, function, around⟩ := place
  cases function with
  | none => exact ⟨hw, .refl w, trivial⟩
  | some f =>
    have h : Alike base w (do Walk.flow a (← Walk.vertex (.ret f)))
        (do Walk.flow b (← Walk.vertex (.ret (base.shift.functionId f)))) := by
      refine .bind (.vertex (v := .ret f) (hplace.function f rfl) nofun nofun)
        fun u hu c d hcd => ?_
      exact .flow (Twin.later_option hs hu) hcd.same
    exact h _ hw hplace

/-- The own name of a function. -/
theorem bindOwnName {a b : VertexId} (hs : w.Same base a b) (own : Option String) :
    Alike base w (bindOwnName a own) (Walk.bindOwnName b own) := by
  cases own with
  | none => exact .pure trivial
  | some own =>
    refine .bind (.declare _ _) fun u hu _ _ _ => ?_
    refine .bind (.resolve own) fun v hv c d hcd => ?_
    exact .edge (hs.later (hu.trans hv)) hcd

theorem declareClassName (own : Option String) :
    Alike base w (declareClassName own) (Walk.declareClassName own) := by
  cases own with
  | none => exact .pure trivial
  | some own => exact .declare _ _

/-- What the own name of a class denotes. -/
theorem bindClassName (own : Option String) {a b : Option VertexId}
    (hs : Option.Rel (w.Same base) a b) :
    Alike base w (bindClassName own a) (Walk.bindClassName own b) := by
  cases own with
  | none => exact .pure trivial
  | some own =>
    cases hs with
    | none => exact .pure trivial
    | some hs =>
      refine .bind (.resolve own) fun u hu c d hcd => ?_
      exact .edge (hs.later hu) hcd

theorem inBlock (stmts : List Stmt) {walk walk' : Walk Unit}
    (h : ∀ u, w.Later u → Alike base u walk walk') :
    Alike base w (inBlock stmts walk) (Walk.inBlock stmts walk') :=
  .inScope _ fun _ hu => .bind (.hoistAll stmts) fun v hv _ _ _ => h v (hu.trans hv)

end Alike

end Walk

end CallFlow
