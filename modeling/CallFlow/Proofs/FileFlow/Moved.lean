import CallFlow.Proofs.FileFlow.Restoring
import CallFlow.Proofs.Flow.Edges
import CallFlow.Proofs.Syntax.Wrappers

/-!
# States whose ranges are moved

Two states are the same but for the ranges in them, which a relocation moves, and for functions
without a name that have one in the other state. They have the same numbers for everything.
`Walk.Moves` relates two walks that lead from such states to such states, with related results.
Walks are related step by step, so that the lemma about a piece of syntax follows the walk over it.
-/

namespace CallFlow

open Syntax

/-- Where the ranges of each file go. Different ranges stay different. -/
structure Relocation where
  move : FileId → Span → Span
  injective : ∀ file, Function.Injective (move file)

variable {ρ : Relocation}

/-! ## Vertices and graphs -/

namespace Relocation

/-- The vertex with its range moved, if it has one. Only compound expressions have. -/
def vertex (ρ : Relocation) : Vertex → Vertex
  | .expr ⟨file, span⟩ => .expr ⟨file, ρ.move file span⟩
  | v => v

/-- No two vertices are moved to the same one. -/
theorem vertex_injective (ρ : Relocation) : Function.Injective ρ.vertex := by
  intro v w h
  cases v with
  | expr key =>
    cases w with
    | expr key' =>
      obtain ⟨file, span⟩ := key
      obtain ⟨file', span'⟩ := key'
      simp only [vertex, Vertex.expr.injEq, ExprKey.mk.injEq] at h
      obtain ⟨rfl, hspan⟩ := h
      rw [ρ.injective file hspan]
    | _ => cases h
  | _ =>
    cases w with
    | expr key => cases h
    | _ => exact h

/-- What is stored for a vertex, with its range moved. -/
def node (ρ : Relocation) (n : FlowNode) : FlowNode := { n with vertex := ρ.vertex n.vertex }

end Relocation

/-- The one graph has the vertices of the other, moved, under the same numbers. -/
structure FlowGraph.Moved (ρ : Relocation) (g g' : FlowGraph) : Prop where
  nodes : g'.nodes = g.nodes.map ρ.node
  links : g'.links = g.links

namespace FlowGraph.Moved

variable {g g' : FlowGraph}

theorem getElem? (h : Moved ρ g g') (i : ℕ) : g'.nodes[i]? = g.nodes[i]?.map ρ.node := by
  rw [h.nodes, Array.getElem?_map]

theorem size (h : Moved ρ g g') : g'.nodes.size = g.nodes.size := by
  rw [h.nodes, Array.size_map]

theorem vertex? (h : Moved ρ g g') (id : VertexId) :
    g'.vertex? id = (g.vertex? id).map ρ.vertex := by
  rw [FlowGraph.vertex?, FlowGraph.vertex?, h.getElem?]
  cases g.nodes[id.index]? <;> rfl

/-- A moved vertex has the number that the vertex has. -/
theorem find? (h : Moved ρ g g') (v : Vertex) : g'.find? (ρ.vertex v) = g.find? v := by
  refine Option.ext fun id => ?_
  rw [find?_eq_some_iff, find?_eq_some_iff, h.vertex?, Option.map_eq_some_iff]
  constructor
  · rintro ⟨w, hw, heq⟩
    rwa [← ρ.vertex_injective heq]
  · exact fun hv => ⟨v, hv, rfl⟩

theorem hasEdge (h : Moved ρ g g') (s t : VertexId) : g'.hasEdge s t = g.hasEdge s t := by
  rw [FlowGraph.hasEdge, FlowGraph.hasEdge, h.links]

theorem isInteresting (h : Moved ρ g g') (id : VertexId) :
    g'.isInteresting id = g.isInteresting id := by
  rw [FlowGraph.isInteresting, FlowGraph.isInteresting, h.getElem?]
  cases g.nodes[id.index]? <;> rfl

/-- A vertex and the moved one get the same number, whether it is new or not. -/
theorem intern (h : Moved ρ g g') (v : Vertex) :
    (g'.intern (ρ.vertex v)).1 = (g.intern v).1 ∧
      Moved ρ (g.intern v).2 (g'.intern (ρ.vertex v)).2 := by
  cases hv : g.find? v with
  | some id =>
    rw [intern_of_find? hv, intern_of_find? ((h.find? v).trans hv)]
    exact ⟨rfl, h⟩
  | none =>
    have hv' : g'.find? (ρ.vertex v) = none := (h.find? v).trans hv
    -- That a new vertex is put at the end is stated apart, since the proof that it is new is part
    -- of the graph.
    have hnew : ∀ (graph : FlowGraph) (w : Vertex) (hw : graph.find? w = none),
        graph.intern w = (⟨graph.nodes.size⟩, graph.append w hw) := fun graph w hw => by
      unfold FlowGraph.intern
      split
      · next id heq =>
        rw [hw] at heq
        cases heq
      · rfl
    rw [hnew g v hv, hnew g' _ hv']
    refine ⟨congrArg VertexId.mk h.size, ⟨?_, h.links⟩⟩
    show g'.nodes.push _ = (g.nodes.push _).map ρ.node
    rw [Array.map_push, h.nodes]
    rfl

/-- A change of what is stored for one vertex, apart from the vertex, moves along. -/
theorem modify (h : Moved ρ g g') (i : ℕ) (f : FlowNode → FlowNode)
    (hf : ∀ n, ρ.node (f n) = f (ρ.node n)) :
    g'.nodes.modify i f = (g.nodes.modify i f).map ρ.node := by
  refine Array.ext_getElem? fun j => ?_
  rw [h.nodes, Array.getElem?_modify, Array.getElem?_map, Array.getElem?_map,
    Array.getElem?_modify]
  split
  · cases g.nodes[j]? with
    | none => rfl
    | some n => exact congrArg some (hf n).symm
  · rfl

/-- An edge between two numbers is new to both graphs or to none. -/
theorem addEdge (h : Moved ρ g g') (s t : VertexId) :
    (g'.addEdge s t).1 = (g.addEdge s t).1 ∧ Moved ρ (g.addEdge s t).2 (g'.addEdge s t).2 := by
  unfold FlowGraph.addEdge
  rw [h.hasEdge]
  split
  · exact ⟨rfl, h⟩
  · by_cases hlt : s.index < g.nodes.size ∧ t.index < g.nodes.size
    · rw [dif_pos hlt, dif_pos (by rwa [h.size])]
      exact ⟨rfl, h.modify s.index (fun n => { n with successors := n.successors.push t })
        fun _ => rfl, congrArg (·.insert (s, t)) h.links⟩
    · rw [dif_neg hlt, dif_neg (by rwa [h.size])]
      exact ⟨rfl, h⟩

/-- So is the flag of a number. -/
theorem markInteresting (h : Moved ρ g g') (id : VertexId) :
    (g'.markInteresting id).1 = (g.markInteresting id).1 ∧
      Moved ρ (g.markInteresting id).2 (g'.markInteresting id).2 := by
  refine ⟨?_, h.modify id.index (fun n => { n with interesting := true }) fun _ => rfl, h.links⟩
  show (g'.nodes[id.index]?).any _ = (g.nodes[id.index]?).any _
  rw [h.getElem?]
  cases g.nodes[id.index]? <;> rfl

end FlowGraph.Moved

/-! ## Programs and states -/

/-- What the analysis knows of a function, apart from its name, and where it is moved to. -/
def Function.outline (ρ : Relocation) (f : Function) :
    Nat × Bool × Option FunctionId × FileId × Span :=
  (f.paramCount, f.isArrow, f.enclosing, f.file, ρ.move f.file f.location.span)

/-- What the analysis knows of a call, and where it is moved to. -/
def CallSite.outline (ρ : Relocation) (c : CallSite) :
    CallKind × Nat × Option FunctionId × FileId × Span :=
  (c.kind, c.argCount, c.enclosing, c.file, ρ.move c.file c.location.span)

/-- The relocation that leaves all where it is. -/
def Relocation.stay : Relocation where
  move _ span := span
  injective _ := Function.injective_id

/-- A function may have a name only where it is moved to. -/
def Function.NamedLike (f f' : Function) : Prop := f.name = none ∨ f.name = f'.name

/-- The one program has what the other has, moved, under the same numbers. -/
structure Program.Moved (ρ : Relocation) (p p' : Program) : Prop where
  files : p'.files = p.files
  functions : p'.functions.map (Function.outline .stay) = p.functions.map (Function.outline ρ)
  names : List.Forall₂ Function.NamedLike p.functions.toList p'.functions.toList
  calls : p'.calls.map (CallSite.outline .stay) = p.calls.map (CallSite.outline ρ)

namespace Program.Moved

variable {p p' : Program}

theorem size_functions (h : Moved ρ p p') : p'.functions.size = p.functions.size := by
  simpa using congrArg Array.size h.functions

theorem size_calls (h : Moved ρ p p') : p'.calls.size = p.calls.size := by
  simpa using congrArg Array.size h.calls

theorem addFile (h : Moved ρ p p') (path : Path) :
    (p'.addFile path).1 = (p.addFile path).1 ∧
      Moved ρ (p.addFile path).2 (p'.addFile path).2 := by
  refine ⟨?_, ?_, h.functions, h.names, h.calls⟩
  · exact congrArg (fun files : Array Path => FileId.mk files.size) h.files
  · exact congrArg (·.push path) h.files

/-- A function is added, whose range is moved, and which may have a name in the second program only.
-/
theorem addFunction (h : Moved ρ p p') (f f' : Function) (hf : f'.outline .stay = f.outline ρ)
    (hname : f.NamedLike f') :
    (p'.addFunction f').1 = (p.addFunction f).1 ∧
      Moved ρ (p.addFunction f).2 (p'.addFunction f').2 := by
  refine ⟨congrArg FunctionId.mk h.size_functions, h.files, ?_, ?_, h.calls⟩
  · show (p'.functions.push f').map _ = (p.functions.push f).map _
    rw [Array.map_push, Array.map_push, h.functions, hf]
  · show List.Forall₂ _ (p.functions.push f).toList (p'.functions.push f').toList
    rw [Array.toList_push, Array.toList_push]
    exact List.rel_append h.names (.cons hname .nil)

theorem addCall (h : Moved ρ p p') (c c' : CallSite) (hc : c'.outline .stay = c.outline ρ) :
    (p'.addCall c').1 = (p.addCall c).1 ∧ Moved ρ (p.addCall c).2 (p'.addCall c').2 := by
  refine ⟨congrArg CallId.mk h.size_calls, h.files, h.functions, h.names, ?_⟩
  show (p'.calls.push c').map _ = (p.calls.push c).map _
  rw [Array.map_push, Array.map_push, h.calls, hc]

end Program.Moved

/-- The one state is the other, moved. -/
structure FlowState.Moved (ρ : Relocation) (s s' : FlowState) : Prop where
  program : s.program.Moved ρ s'.program
  graph : s.graph.Moved ρ s'.graph
  scopes : s'.scopes = s.scopes
  symbols : s'.symbols = s.symbols

/-- The one state of the walk over a file is the other, moved. -/
structure FileState.Moved (ρ : Relocation) (s s' : FileState) : Prop where
  flow : s.flow.Moved ρ s'.flow
  record : s'.record = s.record

/-! ## Walks -/

namespace Walk

variable {α β : Type} {file : FileId}

/-- From states of which one is the other moved, the two walks over a file lead to such states,
with results as described. -/
def Moves (ρ : Relocation) (file : FileId) (walk walk' : Walk α)
    (result : α → α → Prop := Eq) : Prop :=
  ∀ (place : Place) (lines : LineTable) (s s' : FileState), place.file = file → s.Moved ρ s' →
    (walk place s).2.Moved ρ (walk' { place with lines } s').2 ∧
      result (walk place s).1 (walk' { place with lines } s').1

namespace Moves

variable {walk walk' : Walk α} {next next' : α → Walk β} {P : α → α → Prop} {Q : β → β → Prop}

theorem pure {a b : α} (h : P a b) :
    Moves ρ file (Pure.pure a : Walk α) (Pure.pure b : Walk α) P :=
  fun _ _ _ _ _ hs => ⟨hs, h⟩

/-- Two walks one after the other. -/
theorem bind (h : Moves ρ file walk walk' P)
    (hnext : ∀ a b, P a b → Moves ρ file (next a) (next' b) Q) :
    Moves ρ file (walk >>= next) (walk' >>= next') Q := by
  intro place lines s s' hfile hs
  obtain ⟨hs, hresult⟩ := h place lines s s' hfile hs
  exact hnext _ _ hresult place lines _ _ hfile hs

/-- Two walks one after the other, the first of which have the same result. -/
theorem step (h : Moves ρ file walk walk') (hnext : ∀ a, Moves ρ file (next a) (next' a) Q) :
    Moves ρ file (walk >>= next) (walk' >>= next') Q :=
  h.bind fun a b hab => by
    subst hab
    exact hnext a

theorem mono {R : α → α → Prop} (h : Moves ρ file walk walk' P) (hP : ∀ a b, P a b → R a b) :
    Moves ρ file walk walk' R :=
  fun place lines s s' hfile hs => (h place lines s s' hfile hs).imp_right (hP _ _)

/-- A step for each element of a list, and for each element of the list with its elements replaced.
-/
theorem forM_map {γ : Type} {f f' : γ → Walk Unit} {g : γ → γ}
    (hf : ∀ c, Moves ρ file (f c) (f' (g c))) (cs : List γ) :
    Moves ρ file (cs.forM f) ((cs.map g).forM f') := by
  induction cs with
  | nil => exact .pure rfl
  | cons c cs ih => exact (hf c).step fun _ => ih

theorem forM {γ : Type} {f f' : γ → Walk Unit} (hf : ∀ c, Moves ρ file (f c) (f' c))
    (cs : List γ) : Moves ρ file (cs.forM f) (cs.forM f') := by
  have h := forM_map (g := id) hf cs
  rwa [List.map_id] at h

/-! ### Vertices and edges -/

theorem movedVertex (v : Vertex) :
    Moves ρ file (vertex v) (vertex (ρ.vertex v)) := by
  intro place lines s s' _ hs
  obtain ⟨hid, hgraph⟩ := hs.flow.graph.intern v
  exact ⟨⟨⟨hs.flow.program, hgraph, hs.flow.scopes, hs.flow.symbols⟩, hs.record⟩, hid.symm⟩

/-- A vertex that is no compound expression has no range. -/
theorem vertex (v : Vertex) (hv : ρ.vertex v = v := by rfl) :
    Moves ρ file (vertex v) (Walk.vertex v) := by
  have h : Moves ρ file (Walk.vertex v) (Walk.vertex (ρ.vertex v)) := movedVertex v
  rwa [hv] at h

theorem exprVertex (span : Span) :
    Moves ρ file (exprVertex span) (Walk.exprVertex (ρ.move file span)) := by
  intro place lines s s' hfile hs
  subst hfile
  exact movedVertex (.expr ⟨place.file, span⟩) place lines s s' rfl hs

theorem edge (source target : VertexId) :
    Moves ρ file (edge source target) (Walk.edge source target) := fun _ _ _ _ _ hs =>
  ⟨⟨⟨hs.flow.program, (hs.flow.graph.addEdge source target).2, hs.flow.scopes, hs.flow.symbols⟩,
    hs.record⟩, rfl⟩

theorem flow (source : Option VertexId) (target : VertexId) :
    Moves ρ file (flow source target) (Walk.flow source target) := by
  cases source with
  | none => exact .pure rfl
  | some source => exact .edge source target

/-! ### Functions and calls -/

/-- A function that is registered, with its range moved. Where it has no name it may have one in the
second walk. -/
theorem addFunction {name name' : Option String} (hname : name = none ∨ name = name')
    (paramCount : Nat) (isArrow : Bool) (span : Span) :
    Moves ρ file (addFunction name paramCount isArrow span)
      (Walk.addFunction name' paramCount isArrow (ρ.move file span)) := by
  intro place lines s s' hfile hs
  subst hfile
  obtain ⟨hid, hprogram⟩ := hs.flow.program.addFunction
    ⟨name, paramCount, place.file, place.lines.location span, place.function, isArrow⟩
    ⟨name', paramCount, place.file, lines.location (ρ.move place.file span),
      place.function, isArrow⟩ rfl hname
  exact ⟨⟨⟨hprogram, hs.flow.graph, hs.flow.scopes, hs.flow.symbols⟩, hs.record⟩, hid.symm⟩

/-- A call that is registered, with its range moved. -/
theorem addCall (kind : CallKind) (argCount : Nat) (span : Span) :
    Moves ρ file (addCall kind argCount span)
      (Walk.addCall kind argCount (ρ.move file span)) := by
  intro place lines s s' hfile hs
  subst hfile
  obtain ⟨hid, hprogram⟩ := hs.flow.program.addCall
    ⟨kind, argCount, place.function, place.file, place.lines.location span⟩
    ⟨kind, argCount, place.function, place.file, lines.location (ρ.move place.file span)⟩ rfl
  exact ⟨⟨⟨hprogram, hs.flow.graph, hs.flow.scopes, hs.flow.symbols⟩, hs.record⟩, hid.symm⟩

/-! ### Scopes and names -/

/-- Inside a scope. The trees of scopes are the same, and so is its number. -/
theorem inScope (kind : ScopeKind) (h : Moves ρ file walk walk' P) :
    Moves ρ file (inScope kind walk) (Walk.inScope kind walk') P := by
  intro place lines s s' hfile hs
  unfold Walk.inScope
  rw [hs.flow.scopes]
  exact h { place with scope := (s.flow.scopes.create kind place.scope).1 } lines _ _ hfile
    ⟨⟨hs.flow.program, hs.flow.graph, rfl, hs.flow.symbols⟩, hs.record⟩

/-- Inside a function, which has the same number. -/
theorem inFunction {f : FunctionId} {isArrow : Bool} (h : Moves ρ file walk walk' P) :
    Moves ρ file
      (withReader (fun place => { place with
        function := some f
        receiver := if isArrow then place.receiver else some f }) walk)
      (withReader (fun place => { place with
        function := some f
        receiver := if isArrow then place.receiver else some f }) walk') P :=
  fun _ lines s s' hfile hs => h _ lines s s' hfile hs

theorem declareIn (scope : ScopeId) (kind : SymbolKind) (name : String) :
    Moves ρ file (declareIn scope kind name) (Walk.declareIn scope kind name) := by
  intro place lines s s' _ hs
  refine ⟨⟨⟨hs.flow.program, hs.flow.graph, hs.flow.scopes, ?_⟩, hs.record⟩, rfl⟩
  show (s'.flow.symbols.declare _ _ _).2 = (s.flow.symbols.declare _ _ _).2
  rw [hs.flow.symbols]

theorem declare (kind : SymbolKind) (names : List String) :
    Moves ρ file (declare kind names) (Walk.declare kind names) :=
  fun place lines s s' hfile hs =>
    forM (Moves.declareIn place.scope kind) names place lines s s' hfile hs

/-- What `var` declares gets into the same scope, since that is found in the same tree. -/
theorem declareVars (names : List String) :
    Moves ρ file (declareVars names) (Walk.declareVars names) := by
  intro place lines s s' hfile hs
  have hnames : Moves ρ file
      (names.forM (Walk.declareIn (s.flow.scopes.varScope place.scope) .variable))
      (names.forM (Walk.declareIn (s.flow.scopes.varScope place.scope) .variable)) :=
    forM (.declareIn _ _) names
  have hscopes : Walk.declareVars names { place with lines } s' =
      names.forM (Walk.declareIn (s.flow.scopes.varScope place.scope) .variable)
        { place with lines } s' := by
    rw [Walk.declareVars, hs.flow.scopes]
  rw [hscopes]
  exact hnames place lines s s' hfile hs

theorem lookup (name : String) : Moves ρ file (lookup name) (Walk.lookup name) := by
  intro place lines s s' _ hs
  refine ⟨hs, ?_⟩
  show s.flow.symbols.lookup s.flow.scopes name place.scope =
    s'.flow.symbols.lookup s'.flow.scopes name place.scope
  rw [hs.flow.symbols, hs.flow.scopes]

theorem resolve (name : String) : Moves ρ file (resolve name) (Walk.resolve name) := by
  refine .step (.lookup name) fun symbol => ?_
  cases symbol with
  | none => exact .vertex _
  | some symbol => exact .vertex _

theorem isGlobal (name : String) : Moves ρ file (isGlobal name) (Walk.isGlobal name) :=
  .step (.lookup name) fun _ => .pure rfl

/-- The receiver at a place moves along with the place. -/
theorem receiver : Moves ρ file Walk.receiver Walk.receiver := by
  intro ⟨file', lines', scope, function, around⟩ lines s s' hfile hs
  cases around with
  | none => exact ⟨hs, rfl⟩
  | some f =>
    exact Moves.step (.vertex (.param f 0)) (fun id => .pure (P := Eq) (a := some id) rfl)
      ⟨file', lines', scope, function, some f⟩ lines s s' hfile hs

/-! ### The module record -/

theorem addExport (name : String) (value : VertexId) :
    Moves ρ file (addExport name value) (Walk.addExport name value) := by
  intro place lines s s' _ hs
  exact ⟨⟨hs.flow, congrArg (fun record : ModuleRecord =>
    { record with exports := record.exports.push ⟨name, value⟩ }) hs.record⟩, rfl⟩

theorem addImport (specifier : String) (imported : ImportedName) (target : VertexId) :
    Moves ρ file (addImport specifier imported target)
      (Walk.addImport specifier imported target) := by
  intro place lines s s' _ hs
  exact ⟨⟨hs.flow, congrArg (fun record : ModuleRecord =>
    { record with imports := record.imports.push ⟨specifier, imported, target⟩ }) hs.record⟩, rfl⟩

theorem addRequire (specifier : String) (call : CallId) :
    Moves ρ file (addRequire specifier call) (Walk.addRequire specifier call) := by
  intro place lines s s' _ hs
  exact ⟨⟨hs.flow, congrArg (fun record : ModuleRecord =>
    { record with requires := record.requires.push ⟨specifier, call⟩ }) hs.record⟩, rfl⟩

/-! ### Composed steps -/

/-- What a declaration declares is the same without the parentheses in it and with its ranges moved.
-/
theorem hoist (d : Decl) : Moves ρ file (hoist d) (Walk.hoist (d.bare (ρ.move file))) := by
  cases d with
  | function name f => exact .declare _ _
  | «class» name c => exact .declare _ _
  | vars kind declarators =>
    rw [Decl.bare]
    cases kind with
    | var =>
      rw [Walk.hoist, Walk.hoist, Declarator.namesAll_bare]
      exact .declareVars _
    | «let» | const =>
      rw [Walk.hoist, Walk.hoist, Declarator.namesAll_bare]
      exact .declare _ _
  | «using» declarators =>
    rw [Decl.bare, Walk.hoist, Walk.hoist, Declarator.namesAll_bare]
    exact .declare _ _
  | inert => exact .pure rfl

/-- So is what the statements of a block declare. -/
theorem hoistAll (stmts : List Stmt) :
    Moves ρ file (hoistAll stmts) (Walk.hoistAll (Stmt.bareAll (ρ.move file) stmts)) := by
  induction stmts with
  | nil => exact .pure rfl
  | cons s rest ih =>
    have hrest : ∀ _ : Unit, Moves ρ file (Walk.hoistAll rest)
        (Walk.hoistAll (Stmt.bareAll (ρ.move file) rest)) := fun _ => ih
    refine .step ?_ hrest
    cases s with
    | decl d => exact .hoist d
    | _ => exact .pure rfl

/-- Without its parentheses a body declares the same. -/
theorem hoistBody (body : Body) :
    Moves ρ file (hoistBody body) (Walk.hoistBody (body.bare (ρ.move file))) := by
  cases body with
  | block stmts =>
    rw [Body.bare, Walk.hoistBody, Walk.hoistBody, Stmt.varNamesAll_bare]
    exact .step (.hoistAll stmts) fun _ => .declare _ _
  | expr result => exact .pure rfl
  | absent => exact .pure rfl

/-- The cases of a switch declare the same, too. -/
theorem hoistCases (cases : List Case) :
    Moves ρ file (hoistCases cases) (Walk.hoistCases (Case.bareAll (ρ.move file) cases)) := by
  induction cases with
  | nil => exact .pure rfl
  | cons c rest ih =>
    obtain ⟨test, body⟩ := c
    have hrest : ∀ _ : Unit, Moves ρ file (Walk.hoistCases rest)
        (Walk.hoistCases (Case.bareAll (ρ.move file) rest)) := fun _ => ih
    exact .step (.hoistAll body) hrest

theorem passReceiver (call : CallId) (object : Option VertexId) :
    Moves ρ file (passReceiver call object) (Walk.passReceiver call object) := by
  cases object with
  | none => exact .pure rfl
  | some object => exact .step (.vertex _) fun _ => .edge _ _

theorem returnValue (value : Option VertexId) :
    Moves ρ file (returnValue value) (Walk.returnValue value) := by
  intro ⟨file', lines', scope, f, around⟩ lines s s' hfile hs
  cases f with
  | none => exact ⟨hs, rfl⟩
  | some f =>
    exact Moves.step (.vertex (.ret f)) (fun id => .flow value id)
      ⟨file', lines', scope, some f, around⟩ lines s s' hfile hs

theorem bindOwnName (value : VertexId) (own : Option String) :
    Moves ρ file (bindOwnName value own) (Walk.bindOwnName value own) := by
  cases own with
  | none => exact .pure rfl
  | some own => exact .step (.declare _ _) fun _ => .step (.resolve own) fun _ => .edge _ _

theorem declareClassName (own : Option String) :
    Moves ρ file (declareClassName own) (Walk.declareClassName own) := by
  cases own with
  | none => exact .pure rfl
  | some own => exact .declare _ _

theorem bindClassName (own : Option String) (value : Option VertexId) :
    Moves ρ file (bindClassName own value) (Walk.bindClassName own value) := by
  unfold Walk.bindClassName
  split
  · exact .step (.resolve _) fun _ => .edge _ _
  · exact .pure rfl

theorem inBlock (stmts : List Stmt) {walk walk' : Walk Unit} (h : Moves ρ file walk walk') :
    Moves ρ file (inBlock stmts walk)
      (Walk.inBlock (Stmt.bareAll (ρ.move file) stmts) walk') :=
  .inScope _ (.step (.hoistAll stmts) fun _ => h)

end Moves

end Walk

end CallFlow
