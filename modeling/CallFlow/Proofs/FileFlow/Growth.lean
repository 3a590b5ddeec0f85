import CallFlow.Proofs.FileFlow.Restoring
import CallFlow.Proofs.Binding.Symbol
import CallFlow.Proofs.Module.View
import CallFlow.Proofs.Syntax.Callbacks

/-!
# How the state grows under a walk

`FileState.Grows` is all that the walk over a file can do to the state, step by step: a vertex names
what there is, an edge leads from the vertex of an expression to one that receives values, and a
function or a call that is registered gets its vertices before the walk is done with it. Only the
walk over a call leads anything into its slots. What a walk preserves is shown by induction on the
steps, without the syntax.
-/

namespace CallFlow

open Syntax

/-- A file with the module that is walked. -/
structure WalkedFile where
  id : FileId
  lines : LineTable
  module : Module

/-! ## Kinds of vertices -/

namespace Vertex

/-- Values flow out of this vertex inside a file. -/
def IsSource : Vertex → Prop
  | .func _ | .param _ _ | .res _ | .unknown | .var _ | .prop _ | .expr _ => True
  | .callee _ | .native _ | .arg _ _ | .ret _ => False

/-- Values flow into this vertex inside a file, and it is not the slot of an argument. -/
def IsTarget : Vertex → Prop
  | .callee _ | .ret _ | .unknown | .var _ | .prop _ | .expr _ => True
  | .arg _ slot => slot = 0
  | .func _ | .native _ | .param _ _ | .res _ => False

end Vertex

/-- What a module exports are sources, and what receives its imports are targets. -/
def ModuleView.Directed (view : ModuleView) : Prop :=
  (∀ e ∈ view.exports, e.value.IsSource) ∧ ∀ i ∈ view.imports, i.target.IsTarget

/-! ## Vertices that name what is there -/

namespace FlowState

/-- The state has the function, call, symbol or file of the vertex, and its slot is one that the
function or call has. -/
def Names (s : FlowState) : Vertex → Prop
  | .func f | .ret f => ∃ function, s.program.function? f = some function
  | .param f slot => ∃ function, s.program.function? f = some function ∧ slot ≤ function.paramCount
  | .callee c | .res c => ∃ site, s.program.call? c = some site
  | .arg c slot => ∃ site, s.program.call? c = some site ∧ slot ≤ site.argCount
  | .var x => ∃ symbol, s.symbols.symbol? x = some symbol
  | .expr key => ∃ path, s.program.file? key.file = some path
  | .native _ | .prop _ | .unknown => True

/-- All that `s` has is in `t` under the same numbers. -/
structure Later (s t : FlowState) : Prop where
  vertices : ∀ v id, s.graph.find? v = some id → t.graph.find? v = some id
  edges : s.graph.edgeSet ⊆ t.graph.edgeSet
  files : ∀ id path, s.program.file? id = some path → t.program.file? id = some path
  functions : ∀ id function, s.program.function? id = some function →
    t.program.function? id = some function
  calls : ∀ id site, s.program.call? id = some site → t.program.call? id = some site
  symbols : ∀ id symbol, s.symbols.symbol? id = some symbol → t.symbols.symbol? id = some symbol
  scopes : ∀ id scope, s.scopes.scope? id = some scope → t.scopes.scope? id = some scope
  bindings : ∀ scope name id, s.symbols.binding? scope name = some id →
    t.symbols.binding? scope name = some id

namespace Later

variable {s t u : FlowState}

theorem refl (s : FlowState) : s.Later s :=
  ⟨fun _ _ => id, Set.Subset.rfl, fun _ _ => id, fun _ _ => id, fun _ _ => id, fun _ _ => id,
    fun _ _ => id, fun _ _ _ => id⟩

/-- What is later than something later is later. -/
theorem trans (h : s.Later t) (h' : t.Later u) : s.Later u where
  vertices v id hv := h'.vertices v id (h.vertices v id hv)
  edges := h.edges.trans h'.edges
  files id path hid := h'.files id path (h.files id path hid)
  functions id f hf := h'.functions id f (h.functions id f hf)
  calls id c hc := h'.calls id c (h.calls id c hc)
  symbols id x hx := h'.symbols id x (h.symbols id x hx)
  scopes id scope hs := h'.scopes id scope (h.scopes id scope hs)
  bindings scope name id hid := h'.bindings scope name id (h.bindings scope name id hid)

theorem has (h : s.Later t) {v : Vertex} (hv : s.graph.Has v) : t.graph.Has v :=
  hv.imp fun id => h.vertices v id

/-- What is named stays named. -/
theorem names (h : s.Later t) {v : Vertex} (hv : s.Names v) : t.Names v := by
  cases v with
  | func f | ret f => exact hv.imp (h.functions f)
  | param f slot => exact hv.imp fun function => And.imp_left (h.functions f function)
  | callee c | res c => exact hv.imp (h.calls c)
  | arg c slot => exact hv.imp fun site => And.imp_left (h.calls c site)
  | var x => exact hv.imp (h.symbols x)
  | expr key => exact hv.imp (h.files key.file)
  | native _ | prop _ | unknown => trivial

end Later

end FlowState

/-! ## What is complete -/

/-- A call has its callee, its result and a vertex for each argument expression. -/
structure FlowGraph.HasCall (graph : FlowGraph) (c : CallId) (shape : CallShape) : Prop where
  callee : graph.Has (.callee c)
  result : graph.Has (.res c)
  args : ∀ i < shape.args.length, graph.Has (.arg c (shape.first + i))

/-- What is registered of a call is read off its expression. -/
structure CallSite.Reads (file : WalkedFile) (site : CallSite) (shape : CallShape) : Prop where
  kind : site.kind = shape.kind
  argCount : site.argCount = shape.argCount
  inFile : site.file = file.id
  location : site.location = file.lines.location shape.span

namespace FlowState

/-- The file of a function or call is registered, and the function around it. -/
structure Placed (s : FlowState) (file : FileId) (enclosing : Option FunctionId) : Prop where
  file : ∃ path, s.program.file? file = some path
  enclosing : ∀ g ∈ enclosing, ∃ outer, s.program.function? g = some outer

/-- A function that has its vertex. -/
structure FunctionComplete (s : FlowState) (f : FunctionId) (function : Function) : Prop where
  placed : s.Placed function.file function.enclosing
  vertex : s.graph.Has (.func f)

/-- A call of one of the files that has all its vertices. -/
structure CallComplete (files : List WalkedFile) (s : FlowState) (c : CallId) (site : CallSite) :
    Prop where
  placed : s.Placed site.file site.enclosing
  vertices : ∃ file ∈ files, ∃ e shape, file.module.Holds (.expr e) ∧ e.callShape? = some shape ∧
    site.Reads file shape ∧ s.graph.HasCall c shape

variable {s t : FlowState} {files : List WalkedFile}

theorem Placed.later {file : FileId} {enclosing : Option FunctionId}
    (h : s.Placed file enclosing) (ht : s.Later t) : t.Placed file enclosing :=
  ⟨h.file.imp (ht.files file), fun g hg => (h.enclosing g hg).imp (ht.functions g)⟩

theorem FunctionComplete.later {f : FunctionId} {function : Function}
    (h : s.FunctionComplete f function) (ht : s.Later t) : t.FunctionComplete f function :=
  ⟨h.placed.later ht, ht.has h.vertex⟩

theorem CallComplete.later {c : CallId} {site : CallSite} (h : CallComplete files s c site)
    (ht : s.Later t) : CallComplete files t c site := by
  obtain ⟨file, hfile, e, shape, hheld, hshape, hreads, hcall⟩ := h.vertices
  exact ⟨h.placed.later ht, file, hfile, e, shape, hheld, hshape, hreads,
    ht.has hcall.callee, ht.has hcall.result, fun i hi => ht.has (hcall.args i hi)⟩

theorem CallComplete.mono {files' : List WalkedFile} {c : CallId} {site : CallSite}
    (h : CallComplete files s c site) (hfiles : files ⊆ files') :
    CallComplete files' s c site := by
  obtain ⟨file, hfile, hrest⟩ := h.vertices
  exact ⟨h.placed, file, hfiles hfile, hrest⟩

end FlowState

/-! ## Walks -/

/-- The walk is in a file that is registered, and the functions around are. -/
structure Place.In (place : Place) (file : WalkedFile) (s : FlowState) : Prop where
  id : place.file = file.id
  lines : place.lines = file.lines
  known : ∃ path, s.program.file? place.file = some path
  function : ∀ f ∈ place.function, ∃ function, s.program.function? f = some function
  receiver : ∀ f ∈ place.receiver, ∃ function, s.program.function? f = some function

/-- A place in a file names what there is, and that stays. -/
theorem Place.In.later {place : Place} {file : WalkedFile} {s t : FlowState}
    (h : place.In file s) (ht : s.Later t) : place.In file t where
  id := h.id
  lines := h.lines
  known := h.known.imp (ht.files _)
  function f hf := (h.function f hf).imp (ht.functions f)
  receiver f hf := (h.receiver f hf).imp (ht.functions f)

/-- What is registered of a function is read off its syntax. -/
structure Function.Reads (file : WalkedFile) (function : Function) (func : Func) : Prop where
  paramCount : function.paramCount = func.params.countP Param.isSlotted
  inFile : function.file = file.id
  location : function.location = file.lines.location func.span

namespace FlowState

/-- The walk over this syntax has registered the function, and opened the scope for its names. -/
structure FunctionOf (t : FlowState) (file : WalkedFile) (func : Func) (f : FunctionId)
    (scope : ScopeId) : Prop where
  held : file.module.Holds (.func func)
  walked : ∃ (place : Place) (s : FileState) (name own : Option String) (isArrow : Bool),
    s.flow.symbols.Closed ∧ place.In file s.flow ∧ f = ⟨s.flow.program.functions.size⟩ ∧
      scope = ⟨s.flow.scopes.size⟩ ∧
      (Walk.visitFunction name own isArrow func place s).2.flow.Later t

/-- The walk over this expression, at this place, has registered the call. -/
structure CallOf (t : FlowState) (file : WalkedFile) (place : Place) (e : Expr) (c : CallId) :
    Prop where
  held : file.module.Holds (.expr e)
  walked : ∃ (s : FileState) (role : Role), s.flow.symbols.Closed ∧ place.In file s.flow ∧
    c = ⟨s.flow.program.calls.size⟩ ∧ (Walk.visit role e place s).2.flow.Later t

variable {s t : FlowState} {file : WalkedFile}

theorem FunctionOf.later {func : Func} {f : FunctionId} {scope : ScopeId}
    (h : s.FunctionOf file func f scope) (ht : s.Later t) : t.FunctionOf file func f scope := by
  obtain ⟨place, before, name, own, isArrow, hclosed, hplace, hf, hscope, hlater⟩ := h.walked
  exact ⟨h.held, place, before, name, own, isArrow, hclosed, hplace, hf, hscope, hlater.trans ht⟩

theorem CallOf.later {place : Place} {e : Expr} {c : CallId} (h : s.CallOf file place e c)
    (ht : s.Later t) : t.CallOf file place e c := by
  obtain ⟨before, role, hclosed, hplace, hc, hlater⟩ := h.walked
  exact ⟨h.held, before, role, hclosed, hplace, hc, hlater.trans ht⟩

end FlowState

/-! ## Steps -/

/-- Which values may be led into which slots of calls that are being walked. -/
def Passing := Vertex → CallId → ℕ → Prop

namespace Passing

/-- Outside of all calls there is no such slot. -/
protected def none : Passing := fun _ _ _ => False

/-- A call gets its arguments into its slots. Functions get there only if they are callbacks. -/
def ofCall (c : CallId) (shape : CallShape) : Passing := fun x c' slot =>
  c' = c ∧ ∃ a, shape.Passes slot a ∧ ((∃ f, x = .func f) → a.isCallback = true)

/-- Each argument may go into its slot. -/
theorem argument (c : CallId) (shape : CallShape) (i : ℕ) (a : Expr) (x : Vertex)
    (ha : shape.args[i]? = some a) (hx : (∃ f, x = .func f) → a.isCallback = true) :
    ofCall c shape x c (shape.first + i) :=
  ⟨rfl, a, ⟨i, ha, rfl⟩, hx⟩

end Passing

namespace FileState

variable (s : FileState)

def intern (v : Vertex) : FileState :=
  { s with flow := { s.flow with graph := (s.flow.graph.intern v).2 } }

def addEdge (a b : VertexId) : FileState :=
  { s with flow := { s.flow with graph := (s.flow.graph.addEdge a b).2 } }

def createScope (kind : ScopeKind) (parent : ScopeId) : FileState :=
  { s with flow := { s.flow with scopes := (s.flow.scopes.create kind parent).2 } }

def declare (name : String) (kind : SymbolKind) (scope : ScopeId) : FileState :=
  { s with flow := { s.flow with symbols := (s.flow.symbols.declare name kind scope).2 } }

def addFunction (f : Function) : FileState :=
  { s with flow := { s.flow with program := (s.flow.program.addFunction f).2 } }

def addCall (site : CallSite) : FileState :=
  { s with flow := { s.flow with program := (s.flow.program.addCall site).2 } }

/-- An export in the record. -/
def addExport (name : String) (value : VertexId) : FileState :=
  { s with record := { s.record with exports := s.record.exports.push ⟨name, value⟩ } }

/-- An import in the record. -/
def addImport (specifier : String) (imported : ImportedName) (target : VertexId) : FileState :=
  { s with record := { s.record with
    imports := s.record.imports.push ⟨specifier, imported, target⟩ } }

/-- A call of `require` in the record. -/
def addRequire (specifier : String) (call : CallId) : FileState :=
  { s with record := { s.record with requires := s.record.requires.push ⟨specifier, call⟩ } }

/-- The walk over `file` may lead from one state to the other. The steps between the registration
of a function or call and its completion are those of the walk over what is inside it. `passing` is
what they may do to the slots of the call that they are inside. -/
inductive Grows (file : WalkedFile) : Passing → FileState → FileState → Prop
  | refl {passing : Passing} (s : FileState) : Grows file passing s s
  | trans {passing : Passing} {s t u : FileState} (h : Grows file passing s t)
      (h' : Grows file passing t u) : Grows file passing s u
  | vertex {passing : Passing} {s : FileState} {v : Vertex} (hv : s.flow.Names v) :
      Grows file passing s (s.intern v)
  | edge {passing : Passing} {s : FileState} {x y : Vertex} {a b : VertexId}
      (hx : s.flow.graph.find? x = some a) (hy : s.flow.graph.find? y = some b)
      (hsource : x.IsSource) (htarget : y.IsTarget) : Grows file passing s (s.addEdge a b)
  | argument {passing : Passing} {s : FileState} {x : Vertex} {c : CallId} {slot : ℕ}
      {a b : VertexId} (hx : s.flow.graph.find? x = some a)
      (hy : s.flow.graph.find? (.arg c slot) = some b) (hsource : x.IsSource)
      (hpassing : passing x c slot) : Grows file passing s (s.addEdge a b)
  | scope {passing : Passing} {s : FileState} (kind : ScopeKind) (parent : ScopeId) :
      Grows file passing s (s.createScope kind parent)
  | declare {passing : Passing} {s : FileState} (name : String) (kind : SymbolKind)
      (scope : ScopeId) : Grows file passing s (s.declare name kind scope)
  | function {passing : Passing} {s t : FileState} {f : Function} {func : Func} {scope : ScopeId}
      (hreads : f.Reads file func) (hplaced : s.flow.Placed f.file f.enclosing)
      (hrest : Grows file passing (s.addFunction f) t)
      (hvertex : t.flow.graph.Has (.func ⟨s.flow.program.functions.size⟩))
      (hof : t.flow.FunctionOf file func ⟨s.flow.program.functions.size⟩ scope) :
      Grows file passing s t
  | call {passing : Passing} {s t : FileState} {site : CallSite} {place : Place} {e : Expr}
      {shape : CallShape} (hshape : e.callShape? = some shape) (hreads : site.Reads file shape)
      (hplaced : s.flow.Placed site.file site.enclosing)
      (hrest : Grows file (.ofCall ⟨s.flow.program.calls.size⟩ shape) (s.addCall site) t)
      (hvertices : t.flow.graph.HasCall ⟨s.flow.program.calls.size⟩ shape)
      (hof : t.flow.CallOf file place e ⟨s.flow.program.calls.size⟩) : Grows file passing s t
  | export {passing : Passing} {s : FileState} (name : String) {v : Vertex} {id : VertexId}
      (hv : s.flow.graph.find? v = some id) (hsource : v.IsSource) :
      Grows file passing s (s.addExport name id)
  | import {passing : Passing} {s : FileState} (specifier : String) (imported : ImportedName)
      {v : Vertex} {id : VertexId} (hv : s.flow.graph.find? v = some id) (htarget : v.IsTarget) :
      Grows file passing s (s.addImport specifier imported id)
  | require {passing : Passing} {s : FileState} (specifier : String) {c : CallId}
      (hcall : s.flow.graph.Has (.res c)) : Grows file passing s (s.addRequire specifier c)

end FileState

/-! ## What every step keeps -/

namespace Program

variable {program : Program} {function : Function} {site : CallSite}

theorem function?_addFunction (f : FunctionId) :
    (program.addFunction function).2.function? f =
      if f = ⟨program.functions.size⟩ then some function else program.function? f := by
  obtain ⟨i⟩ := f
  simp only [FunctionId.mk.injEq]
  exact Array.getElem?_push ..

theorem call?_addCall (c : CallId) :
    (program.addCall site).2.call? c =
      if c = ⟨program.calls.size⟩ then some site else program.call? c := by
  obtain ⟨i⟩ := c
  simp only [CallId.mk.injEq]
  exact Array.getElem?_push ..

end Program

namespace FlowState.Later

variable (s : FileState)

theorem intern (v : Vertex) : s.flow.Later (s.intern v).flow :=
  { refl s.flow with
    vertices := fun _ _ => FlowGraph.find?_intern_of_find? v
    edges := (FlowGraph.edgeSet_intern s.flow.graph v).superset }

theorem addEdge (a b : VertexId) : s.flow.Later (s.addEdge a b).flow :=
  { refl s.flow with
    vertices := fun _ _ hv => (FlowGraph.find?_addEdge ..).trans hv
    edges := FlowGraph.edgeSet_subset_addEdge s.flow.graph a b }

theorem createScope (kind : ScopeKind) (parent : ScopeId) :
    s.flow.Later (s.createScope kind parent).flow :=
  { refl s.flow with
    scopes := fun _ _ hs => ScopeTree.scope?_create_of_some hs kind parent }

theorem declare (name : String) (kind : SymbolKind) (scope : ScopeId) :
    s.flow.Later (s.declare name kind scope).flow :=
  { refl s.flow with
    symbols := fun _ _ hx => SymbolTable.symbol?_declare hx name kind scope
    bindings := fun _ _ _ hx => SymbolTable.binding?_declare_of_some hx name kind scope }

/-- A function gets a new number. -/
theorem addFunction (f : Function) : s.flow.Later (s.addFunction f).flow :=
  { refl s.flow with
    functions := fun id function h => by
      have hne : id ≠ ⟨s.flow.program.functions.size⟩ := by
        rintro rfl
        exact absurd (Array.getElem?_eq_some_iff.1 h).1 (Nat.lt_irrefl _)
      exact (Program.function?_addFunction id).trans ((if_neg hne).trans h) }

/-- A call gets a new number. -/
theorem addCall (site : CallSite) : s.flow.Later (s.addCall site).flow :=
  { refl s.flow with
    calls := fun id c h => by
      have hne : id ≠ ⟨s.flow.program.calls.size⟩ := by
        rintro rfl
        exact absurd (Array.getElem?_eq_some_iff.1 h).1 (Nat.lt_irrefl _)
      exact (Program.call?_addCall id).trans ((if_neg hne).trans h) }

end FlowState.Later

/-- One edge comes in. -/
theorem FileState.mem_edgeSet_addEdge {s : FileState} {x y x' y' : Vertex} {a b : VertexId}
    (hx : s.flow.graph.find? x = some a) (hy : s.flow.graph.find? y = some b)
    (h : (x', y') ∈ (s.addEdge a b).flow.graph.edgeSet) :
    (x', y') ∈ s.flow.graph.edgeSet ∨ x' = x ∧ y' = y := by
  by_cases hne : x = y
  · -- an edge from a vertex to itself is not added
    rw [hne, hy] at hx
    rw [FileState.addEdge, Option.some.inj hx, FlowGraph.addEdge_self] at h
    exact Or.inl h
  · rw [FileState.addEdge, (FlowGraph.edgeSet_addEdge hx hy hne).2] at h
    exact h.symm.imp_right Prod.mk.inj

namespace FileState.Grows

variable {file : WalkedFile} {passing : Passing} {s t : FileState}

/-- The steps are also those of a walk that may do more to slots. -/
theorem mono {passing' : Passing} (h : Grows file passing s t)
    (hle : ∀ x c slot, passing x c slot → passing' x c slot) : Grows file passing' s t := by
  induction h with
  | refl s => exact .refl s
  | trans _ _ ih ih' => exact .trans (ih hle) (ih' hle)
  | vertex hv => exact .vertex hv
  | edge hx hy hsource htarget => exact .edge hx hy hsource htarget
  | argument hx hy hsource hpassing => exact .argument hx hy hsource (hle _ _ _ hpassing)
  | scope kind parent => exact .scope kind parent
  | declare name kind scope => exact .declare name kind scope
  | function hreads hplaced _ hvertex hof ih => exact .function hreads hplaced (ih hle) hvertex hof
  | call hshape hreads hplaced hrest hvertices hof _ =>
    exact .call hshape hreads hplaced hrest hvertices hof
  | «export» name hv hsource => exact .export name hv hsource
  | «import» specifier imported hv htarget => exact .import specifier imported hv htarget
  | require specifier hcall => exact .require specifier hcall

/-- A walk that grows the state takes nothing away. -/
theorem later (h : Grows file passing s t) : s.flow.Later t.flow := by
  induction h with
  | refl s => exact .refl s.flow
  | trans _ _ ih ih' => exact ih.trans ih'
  | vertex _ => exact .intern _ _
  | edge _ _ _ _ | argument _ _ _ _ => exact .addEdge _ _ _
  | scope kind parent => exact .createScope _ kind parent
  | declare name kind scope => exact .declare _ name kind scope
  | function _ _ _ _ _ ih => exact (FlowState.Later.addFunction _ _).trans ih
  | call _ _ _ _ _ _ ih => exact (FlowState.Later.addCall _ _).trans ih
  | «export» _ _ _ => exact .refl _
  | «import» _ _ _ _ => exact .refl _
  | require _ _ => exact .refl _

/-- Every symbol that names denote stays in the table. -/
theorem closed (h : Grows file passing s t) (hs : s.flow.symbols.Closed) :
    t.flow.symbols.Closed := by
  induction h with
  | trans _ _ ih ih' => exact ih' (ih hs)
  | declare name kind scope => exact hs.declare name kind scope
  | function _ _ _ _ _ ih => exact ih hs
  | call _ _ _ _ _ _ ih => exact ih hs
  | _ => exact hs

/-- Every vertex still names what there is. -/
theorem names (h : Grows file passing s t) (hs : ∀ v, s.flow.graph.Has v → s.flow.Names v) :
    ∀ v, t.flow.graph.Has v → t.flow.Names v := by
  induction h with
  | refl s => exact hs
  | trans _ _ ih ih' => exact ih' (ih hs)
  | @vertex _ s v hv =>
    intro w hw
    have hlater := FlowState.Later.intern s v
    rcases (FlowGraph.has_intern s.flow.graph v w).1 hw with hw | rfl
    · exact hlater.names (hs w hw)
    · exact hlater.names hv
  | edge _ _ _ _ | argument _ _ _ _ =>
    exact fun v hv => (FlowState.Later.addEdge _ _ _).names
      (hs v ((FlowGraph.has_addEdge _ _ v).1 hv))
  | scope kind parent =>
    exact fun v hv => (FlowState.Later.createScope _ kind parent).names (hs v hv)
  | declare name kind scope =>
    exact fun v hv => (FlowState.Later.declare _ name kind scope).names (hs v hv)
  -- A function and a call are there before anything that names them.
  | function _ _ _ _ _ ih => exact ih fun v hv => (FlowState.Later.addFunction _ _).names (hs v hv)
  | call _ _ _ _ _ _ ih => exact ih fun v hv => (FlowState.Later.addCall _ _).names (hs v hv)
  | «export» _ _ _ => exact hs
  | «import» _ _ _ _ => exact hs
  | require _ _ => exact hs

/-- A function that is registered on the way is complete at its end, and is that of some syntax. -/
theorem functions (h : Grows file passing s t) {f : FunctionId} {function : Function}
    (hf : t.flow.program.function? f = some function) :
    s.flow.program.function? f = some function ∨ t.flow.FunctionComplete f function ∧
      ∃ func scope, function.Reads file func ∧ t.flow.FunctionOf file func f scope := by
  induction h with
  | refl s => exact Or.inl hf
  | trans _ h' ih ih' =>
    rcases ih' hf with hold | hnew
    · refine (ih hold).imp_right ?_
      rintro ⟨hcomplete, func, scope, hreads, hof⟩
      exact ⟨hcomplete.later h'.later, func, scope, hreads, hof.later h'.later⟩
    · exact Or.inr hnew
  | @function _ s t f' func scope hreads hplaced hrest hvertex hof ih =>
    -- What is registered inside is new, or it is the function that the walk was started for.
    rcases ih hf with hnew | hnew
    · rw [FileState.addFunction, Program.function?_addFunction] at hnew
      split at hnew
      · next hid =>
        obtain rfl := Option.some.inj hnew
        have hlater := (FlowState.Later.addFunction s f').trans hrest.later
        exact Or.inr ⟨⟨hplaced.later hlater, hid ▸ hvertex⟩, func, scope, hreads, hid ▸ hof⟩
      · exact Or.inl hnew
    · exact Or.inr hnew
  | call _ _ _ _ _ _ ih => exact ih hf
  | _ => exact Or.inl hf

/-- Edges lead from sources to targets, and into the slots of calls. -/
theorem edges (h : Grows file passing s t) {x y : Vertex} (hxy : (x, y) ∈ t.flow.graph.edgeSet) :
    (x, y) ∈ s.flow.graph.edgeSet ∨ x.IsSource ∧ (y.IsTarget ∨ ∃ c slot, y = .arg c slot) := by
  induction h with
  | trans _ _ ih ih' => exact (ih' hxy).elim ih Or.inr
  | vertex _ =>
    rw [FileState.intern, FlowGraph.edgeSet_intern] at hxy
    exact Or.inl hxy
  | edge hx hy hsource htarget =>
    refine (FileState.mem_edgeSet_addEdge hx hy hxy).imp_right ?_
    rintro ⟨rfl, rfl⟩
    exact ⟨hsource, Or.inl htarget⟩
  | argument hx hy hsource _ =>
    refine (FileState.mem_edgeSet_addEdge hx hy hxy).imp_right ?_
    rintro ⟨rfl, rfl⟩
    exact ⟨hsource, Or.inr ⟨_, _, rfl⟩⟩
  | function _ _ _ _ _ ih => exact ih hxy
  | call _ _ _ _ _ _ ih => exact ih hxy
  | _ => exact Or.inl hxy

/-- What gets into a slot is passed by the call around, or the call is registered on the way. -/
theorem slots (h : Grows file passing s t) {x : Vertex} {c : CallId} {slot : ℕ} (hslot : slot ≠ 0)
    (hxy : (x, .arg c slot) ∈ t.flow.graph.edgeSet) :
    (x, .arg c slot) ∈ s.flow.graph.edgeSet ∨ passing x c slot ∨
      s.flow.program.call? c = none ∧ ∃ site, t.flow.program.call? c = some site := by
  induction h with
  | trans h h' ih ih' =>
    rcases ih' hxy with hold | hpassing | ⟨hfresh, hnew⟩
    · exact (ih hold).imp_right (Or.imp_right (And.imp_right (Exists.imp (h'.later.calls c))))
    · exact Or.inr (Or.inl hpassing)
    · refine Or.inr (Or.inr ⟨Option.eq_none_iff_forall_ne_some.2 fun site hsite => ?_, hnew⟩)
      exact Option.some_ne_none site ((h.later.calls c site hsite).symm.trans hfresh)
  | vertex _ =>
    rw [FileState.intern, FlowGraph.edgeSet_intern] at hxy
    exact Or.inl hxy
  | edge hx hy _ htarget =>
    refine (FileState.mem_edgeSet_addEdge hx hy hxy).imp_right ?_
    rintro ⟨rfl, rfl⟩
    exact absurd htarget hslot
  | argument hx hy _ hpassing =>
    refine (FileState.mem_edgeSet_addEdge hx hy hxy).imp_right ?_
    rintro ⟨rfl, heq⟩
    obtain ⟨rfl, rfl⟩ := Vertex.arg.inj heq
    exact Or.inl hpassing
  | function _ _ _ _ _ ih => exact ih hxy
  | @call _ s _ site _ _ _ _ _ _ hrest _ _ ih =>
    refine (ih hxy).imp_right fun hnew => Or.inr ?_
    -- Slots that are filled inside are those of the call itself or of one that is registered later.
    rcases hnew with ⟨rfl, -⟩ | ⟨hfresh, hnew⟩
    · refine ⟨Array.getElem?_size, site, hrest.later.calls _ _ ?_⟩
      exact (Program.call?_addCall _).trans (if_pos rfl)
    · refine ⟨Option.eq_none_iff_forall_ne_some.2 fun old hold => ?_, hnew⟩
      have hkept := (FlowState.Later.addCall s site).calls c old hold
      exact Option.some_ne_none old (hkept.symm.trans hfresh)
  | _ => exact Or.inl hxy

/-- A call that is registered on the way is complete at its end, and is that of some expression.
Only the arguments of this expression have got into its slots. -/
theorem calls (h : Grows file passing s t) {c : CallId} {site : CallSite}
    (hc : t.flow.program.call? c = some site) :
    s.flow.program.call? c = some site ∨ FlowState.CallComplete [file] t.flow c site ∧
      ∃ place e shape, e.callShape? = some shape ∧ site.Reads file shape ∧
        t.flow.CallOf file place e c ∧ ∀ x slot, slot ≠ 0 →
          (x, .arg c slot) ∈ t.flow.graph.edgeSet → (x, .arg c slot) ∈ s.flow.graph.edgeSet ∨
            passing x c slot ∨ Passing.ofCall c shape x c slot := by
  induction h with
  | refl s => exact Or.inl hc
  | @trans _ s t u h h' ih ih' =>
    by_cases ht : t.flow.program.call? c = some site
    · refine (ih ht).imp_right ?_
      rintro ⟨hcomplete, place, e, shape, hshape, hreads, hof, hslots⟩
      refine ⟨hcomplete.later h'.later, place, e, shape, hshape, hreads, hof.later h'.later,
        fun x slot hslot hxy => ?_⟩
      rcases h'.slots hslot hxy with hold | hpassing | ⟨hfresh, -⟩
      · exact hslots x slot hslot hold
      · exact Or.inr (Or.inl hpassing)
      · cases ht.symm.trans hfresh
    · obtain ⟨hcomplete, place, e, shape, hshape, hreads, hof, hslots⟩ := (ih' hc).resolve_left ht
      refine Or.inr ⟨hcomplete, place, e, shape, hshape, hreads, hof, fun x slot hslot hxy => ?_⟩
      refine (hslots x slot hslot hxy).elim (fun hold => ?_) Or.inr
      rcases h.slots hslot hold with hold | hpassing | ⟨-, other, hother⟩
      · exact Or.inl hold
      · exact Or.inr (Or.inl hpassing)
      · -- the call would have been registered by then
        have heq := Option.some.inj ((h'.later.calls c other hother).symm.trans hc)
        exact absurd (heq ▸ hother) ht
  | @call _ s t site' place e shape hshape hreads hplaced hrest hvertices hof ih =>
    have hadded : (s.addCall site').flow.program.call? c =
        if c = ⟨s.flow.program.calls.size⟩ then some site' else s.flow.program.call? c :=
      Program.call?_addCall c
    by_cases hid : c = ⟨s.flow.program.calls.size⟩
    · subst hid
      rw [if_pos rfl] at hadded
      obtain rfl := Option.some.inj ((hrest.later.calls _ _ hadded).symm.trans hc)
      have hlater := (FlowState.Later.addCall s site').trans hrest.later
      refine Or.inr ⟨⟨hplaced.later hlater, file, List.mem_singleton_self file, e, shape, hof.held,
        hshape, hreads, hvertices⟩, place, e, shape, hshape, hreads, hof,
        fun x slot hslot hxy => ?_⟩
      rcases hrest.slots hslot hxy with hold | hpassing | ⟨hfresh, -⟩
      · exact Or.inl hold
      · exact Or.inr (Or.inr hpassing)
      · cases hadded.symm.trans hfresh
    · rw [if_neg hid] at hadded
      refine (ih hc).imp hadded.symm.trans ?_
      rintro ⟨hcomplete, place', e', shape', hshape', hreads', hof', hslots⟩
      refine ⟨hcomplete, place', e', shape', hshape', hreads', hof', fun x slot hslot hxy =>
        (hslots x slot hslot hxy).imp_right fun hnew => ?_⟩
      -- this call fills no slots but its own
      exact Or.inr (hnew.resolve_left fun hpassing => hid hpassing.1)
  | function _ _ _ _ _ ih => exact ih hc
  | _ => exact Or.inl hc

/-- The record of the module stands for a view that is directed. -/
theorem record (h : Grows file passing s t)
    (hs : ∃ view, s.record.Denotes s.flow.graph view ∧ view.Directed) :
    ∃ view, t.record.Denotes t.flow.graph view ∧ view.Directed := by
  induction h with
  | refl s => exact hs
  | trans _ _ ih ih' => exact ih' (ih hs)
  | vertex _ =>
    exact hs.imp fun view => And.imp_left fun hd => hd.mono (FlowState.Later.intern _ _).vertices
  | edge _ _ _ _ | argument _ _ _ _ =>
    exact hs.imp fun view => And.imp_left fun hd => hd.mono (FlowState.Later.addEdge _ _ _).vertices
  | scope _ _ => exact hs
  | declare _ _ _ => exact hs
  | function _ _ _ _ _ ih => exact ih hs
  | call _ _ _ _ _ _ ih => exact ih hs
  | @«export» _ s name v id hv hsource =>
    -- The new entry comes last, and its vertex is directed as the step says.
    obtain ⟨view, hd, hexports, himports⟩ := hs
    refine ⟨_, hd.addExport name hv, fun e he => ?_, himports⟩
    rcases List.mem_append.1 he with he | he
    · exact hexports e he
    · rwa [List.mem_singleton.1 he]
  | @«import» _ s specifier imported v id hv htarget =>
    obtain ⟨view, hd, hexports, himports⟩ := hs
    refine ⟨_, hd.addImport specifier imported hv, hexports, fun i hi => ?_⟩
    rcases List.mem_append.1 hi with hi | hi
    · exact himports i hi
    · rwa [List.mem_singleton.1 hi]
  | require specifier hcall =>
    obtain ⟨view, hd, hdirected⟩ := hs
    exact ⟨_, hd.addRequire specifier hcall, hdirected⟩

end FileState.Grows

end CallFlow
