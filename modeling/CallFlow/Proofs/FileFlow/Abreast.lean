import CallFlow.Proofs.FileFlow.Growth
import CallFlow.Proofs.Syntax.Spots

/-!
# Expansions and logical assignments abreast

One file has expansions where another has logical assignments. Both are walked at once, and a log
says of each compound expression of the former which vertex of the latter it stands for: an
expansion stands for what its right side stands for, if that is anything, and any other expression
for itself. Every flow of the former is one of the latter, or the flow of the old value of a target
into its expansion. `Walk.Abreast` relates two walks that lead from such states to such states.
Walks are related step by step, so that the lemma about a piece of syntax follows the walk over it.
-/

namespace CallFlow

open Syntax

/-! ## What stands for what -/

/-- What is contracted in each file. -/
abbrev Contractions := FileId → Contraction

namespace Contractions

variable (κ : Contractions)

/-- The target of the expansion with this range, if it is contracted. -/
def target? (key : ExprKey) : Option Target := (κ key.file).target key.span

/-- The same vertex where ranges are moved. -/
def vertex : Vertex → Vertex
  | .expr key => .expr ⟨key.file, (κ key.file).move key.span⟩
  | v => v

end Contractions

/-- A vertex that the target denotes somewhere. -/
def Syntax.Target.Denotes (symbols : SymbolTable) : Target → Vertex → Prop
  | .name x, v => v = .prop x ∨ ∃ scope id, symbols.binding? scope x = some id ∧ v = .var id
  | .property _ key, v | .privateProperty _ key, v => v = .prop key

theorem Syntax.Target.Denotes.mono {symbols symbols' : SymbolTable} {t : Target} {v : Vertex}
    (h : t.Denotes symbols v) (hbindings : ∀ scope x id, symbols.binding? scope x = some id →
      symbols'.binding? scope x = some id) : t.Denotes symbols' v := by
  cases t with
  | name x => exact h.imp_right fun ⟨scope, id, hid, hv⟩ => ⟨scope, id, hbindings _ _ _ hid, hv⟩
  | property _ _ | privateProperty _ _ => exact h

/-- The edge along which the old value of a target flows into an expansion that is contracted. -/
def OldValue (κ : Contractions) (symbols : SymbolTable) (e : Vertex × Vertex) : Prop :=
  ∃ key t, e.2 = .expr key ∧ κ.target? key = some t ∧ t.Denotes symbols e.1

/-- Old values stay when names are declared. -/
theorem OldValue.declare {κ : Contractions} {symbols : SymbolTable} {e : Vertex × Vertex}
    (h : OldValue κ symbols e) (name : String) (kind : SymbolKind) (scope : ScopeId) :
    OldValue κ (symbols.declare name kind scope).2 e := by
  obtain ⟨key, t, hkey, ht, hdenotes⟩ := h
  exact ⟨key, t, hkey, ht, hdenotes.mono fun _ _ _ hid =>
    SymbolTable.binding?_declare_of_some hid name kind scope⟩

/-- The compound expressions met so far, each with the vertex that it stands for, if any. -/
abbrev ExprLog := List (ExprKey × Option Vertex)

/-- What a vertex stands for. Only compound expressions may stand for something else or nothing. -/
def StandsFor (log : ExprLog) : Vertex → Option Vertex → Prop
  | .expr key, o => (key, o) ∈ log
  | v, o => o = some v

theorem StandsFor.mono {log log' : ExprLog} (hlog : log ⊆ log') {v : Vertex} {o : Option Vertex}
    (h : StandsFor log v o) : StandsFor log' v o := by
  cases v with
  | expr key => exact hlog h
  | _ => exact h

/-- The edge carries nothing that does not flow in the graph: its ends stand for the same, or for
the ends of an edge. -/
def Carried (κ : Contractions) (log : ExprLog) (graph : FlowGraph) (a b : Vertex) : Prop :=
  ∃ o, StandsFor log a o ∧ (StandsFor log b o ∨
    StandsFor log b (some (κ.vertex b)) ∧
      ∀ v ∈ o, v = κ.vertex b ∨ (v, κ.vertex b) ∈ graph.edgeSet)

theorem Carried.mono {κ : Contractions} {log log' : ExprLog} {g g' : FlowGraph} (hlog : log ⊆ log')
    (hgraph : g.edgeSet ⊆ g'.edgeSet) {a b : Vertex} (h : Carried κ log g a b) :
    Carried κ log' g' a b := by
  obtain ⟨o, ha, hb⟩ := h
  refine ⟨o, ha.mono hlog, hb.imp (·.mono hlog) fun hb => ⟨hb.1.mono hlog, fun v hv => ?_⟩⟩
  exact (hb.2 v hv).imp_right fun h => hgraph h

/-! ## States -/

/-- A function, of whose place only the range is left, moved. -/
def Function.outlined (move : FileId → Span → Span) (f : Function) : Function :=
  { f with location := ⟨default, default, move f.file f.location.span⟩ }

/-- A call, of whose place only the range is left, moved. -/
def CallSite.outlined (move : FileId → Span → Span) (c : CallSite) : CallSite :=
  { c with location := ⟨default, default, move c.file c.location.span⟩ }

/-- The two programs have the same functions and calls, but for their places, which are moved. -/
structure Program.Abreast (κ : Contractions) (p p' : Program) : Prop where
  files : p'.files = p.files
  functions : p'.functions.map (Function.outlined fun _ => id) =
    p.functions.map (Function.outlined fun file => (κ file).move)
  calls : p'.calls.map (CallSite.outlined fun _ => id) =
    p.calls.map (CallSite.outlined fun file => (κ file).move)

namespace Program.Abreast

variable {κ : Contractions} {p p' : Program}

/-- A function that is added to both programs gets the same number. -/
theorem addFunction (h : p.Abreast κ p') {f g : Function}
    (hf : g.outlined (fun _ => id) = f.outlined fun file => (κ file).move) :
    (p'.addFunction g).1 = (p.addFunction f).1 ∧
      (p.addFunction f).2.Abreast κ (p'.addFunction g).2 := by
  refine ⟨congrArg FunctionId.mk ?_, h.files, ?_, h.calls⟩
  · simpa using congrArg Array.size h.functions
  · show (p'.functions.push g).map _ = (p.functions.push f).map _
    rw [Array.map_push, Array.map_push, h.functions, hf]

/-- A call that is added to both programs gets the same number. -/
theorem addCall (h : p.Abreast κ p') {c d : CallSite}
    (hc : d.outlined (fun _ => id) = c.outlined fun file => (κ file).move) :
    (p'.addCall d).1 = (p.addCall c).1 ∧ (p.addCall c).2.Abreast κ (p'.addCall d).2 := by
  refine ⟨congrArg CallId.mk ?_, h.files, h.functions, ?_⟩
  · simpa using congrArg Array.size h.calls
  · show (p'.calls.push d).map _ = (p.calls.push c).map _
    rw [Array.map_push, Array.map_push, h.calls, hc]

end Program.Abreast

/-- The state `s` with expansions has no flow but that of `s'`, which has logical assignments. -/
structure FlowState.Abreast (κ : Contractions) (log : ExprLog) (s s' : FlowState) : Prop where
  program : s.program.Abreast κ s'.program
  scopes : s'.scopes = s.scopes
  symbols : s'.symbols = s.symbols
  logged : ∀ entry ∈ log, κ.target? entry.1 = none → entry.2 = some (κ.vertex (.expr entry.1))
  edges : ∀ a b, (a, b) ∈ s.graph.edgeSet →
    OldValue κ s.symbols (a, b) ∨ Carried κ log s'.graph a b

/-- The module record `r` with expansions offers no more than `r'`, and takes the same. -/
structure ModuleRecord.Abreast (κ : Contractions) (log : ExprLog) (g g' : FlowGraph)
    (r r' : ModuleRecord) : Prop where
  file : r'.file = r.file
  path : r'.path = r.path
  exports : ∀ e ∈ r.exports, ∃ a o, g.find? a = some e.value ∧ StandsFor log a o ∧
    ∀ v ∈ o, ∃ e' ∈ r'.exports, e'.name = e.name ∧ g'.find? v = some e'.value
  imports : List.Forall₂ (fun i i' : ImportBinding => i'.specifier = i.specifier ∧
    i'.imported = i.imported ∧ ∃ a, g.find? a = some i.target ∧
      StandsFor log a (some (κ.vertex a)) ∧ g'.find? (κ.vertex a) = some i'.target)
    r.imports.toList r'.imports.toList
  requires : r'.requires = r.requires

/-- Records only name vertices, which keep their numbers. -/
theorem ModuleRecord.Abreast.mono {κ : Contractions} {log log' : ExprLog} {g g' h h' : FlowGraph}
    {r r' : ModuleRecord} (hr : r.Abreast κ log g g' r') (hlog : log ⊆ log')
    (hg : ∀ v id, g.find? v = some id → h.find? v = some id)
    (hg' : ∀ v id, g'.find? v = some id → h'.find? v = some id) : r.Abreast κ log' h h' r' where
  file := hr.file
  path := hr.path
  exports e he := by
    obtain ⟨a, o, ha, hs, ho⟩ := hr.exports e he
    refine ⟨a, o, hg _ _ ha, hs.mono hlog, fun v hv => ?_⟩
    obtain ⟨e', he', hname, hfound⟩ := ho v hv
    exact ⟨e', he', hname, hg' _ _ hfound⟩
  imports := hr.imports.imp fun i i' ⟨hspecifier, himported, a, ha, hs, ha'⟩ =>
    ⟨hspecifier, himported, a, hg _ _ ha, hs.mono hlog, hg' _ _ ha'⟩
  requires := hr.requires

/-- The states of the two walks, and what the expressions met so far stand for. -/
structure Tandem where
  log : ExprLog
  expanded : FileState
  contracted : FileState

namespace Tandem

/-- The states have the same flow but for expansions, and so have the records. -/
structure Agrees (κ : Contractions) (w : Tandem) : Prop where
  flow : w.expanded.flow.Abreast κ w.log w.contracted.flow
  record : w.expanded.record.Abreast κ w.log w.expanded.flow.graph w.contracted.flow.graph
    w.contracted.record

/-- All that is known stays. -/
structure Later (w u : Tandem) : Prop where
  log : w.log ⊆ u.log
  expanded : ∀ v id, w.expanded.flow.graph.find? v = some id →
    u.expanded.flow.graph.find? v = some id
  contracted : ∀ v id, w.contracted.flow.graph.find? v = some id →
    u.contracted.flow.graph.find? v = some id
  bindings : ∀ scope x id, w.expanded.flow.symbols.binding? scope x = some id →
    u.expanded.flow.symbols.binding? scope x = some id

theorem Later.refl (w : Tandem) : w.Later w :=
  ⟨fun _ h => h, fun _ _ h => h, fun _ _ h => h, fun _ _ _ h => h⟩

/-- What is known does not depend on the records, the programs and the scopes. -/
theorem Later.of_graphs {w u : Tandem} (hlog : u.log = w.log)
    (hexpanded : u.expanded.flow.graph = w.expanded.flow.graph)
    (hcontracted : u.contracted.flow.graph = w.contracted.flow.graph)
    (hsymbols : u.expanded.flow.symbols = w.expanded.flow.symbols) : w.Later u := by
  refine ⟨fun _ h => hlog ▸ h, fun _ _ h => ?_, fun _ _ h => ?_, fun _ _ _ h => ?_⟩
  · rw [hexpanded]
    exact h
  · rw [hcontracted]
    exact h
  · rw [hsymbols]
    exact h

theorem Later.trans {w u v : Tandem} (h : w.Later u) (h' : u.Later v) : w.Later v :=
  ⟨fun _ he => h'.log (h.log he), fun _ _ hv => h'.expanded _ _ (h.expanded _ _ hv),
    fun _ _ hv => h'.contracted _ _ (h.contracted _ _ hv),
    fun _ _ _ hx => h'.bindings _ _ _ (h.bindings _ _ _ hx)⟩

/-- The two numbers are those of a vertex that stands for itself, moved. -/
def Same (κ : Contractions) (w : Tandem) (i j : VertexId) : Prop :=
  ∃ v, w.expanded.flow.graph.find? v = some i ∧ StandsFor w.log v (some (κ.vertex v)) ∧
    w.contracted.flow.graph.find? (κ.vertex v) = some j

/-- What the two walks have for the value of an expression: that with expansions may have a vertex
that stands for nothing where the other has none. -/
inductive Value (w : Tandem) : Option VertexId → Option VertexId → Prop
  | none : Value w none none
  | some {v : Vertex} {o : Option Vertex} {i : VertexId} {y : Option VertexId}
      (hi : w.expanded.flow.graph.find? v = some i) (hs : StandsFor w.log v o)
      (hy : Option.Rel (fun x j => w.contracted.flow.graph.find? x = some j) o y) :
      Value w (some i) y

section

variable {κ : Contractions} {w u : Tandem} {i j : VertexId} {x y : Option VertexId}

theorem Same.value (h : w.Same κ i j) : w.Value (some i) (some j) := by
  obtain ⟨v, hi, hs, hj⟩ := h
  exact .some hi hs (.some hj)

theorem value_of_same (h : Option.Rel (w.Same κ) x y) : w.Value x y := by
  cases h with
  | none => exact .none
  | some h => exact h.value

theorem Same.later (h : w.Same κ i j) (hu : w.Later u) : u.Same κ i j := by
  obtain ⟨v, hi, hs, hj⟩ := h
  exact ⟨v, hu.expanded _ _ hi, hs.mono hu.log, hu.contracted _ _ hj⟩

theorem same_later (h : Option.Rel (w.Same κ) x y) (hu : w.Later u) :
    Option.Rel (u.Same κ) x y := by
  cases h with
  | none => exact .none
  | some h => exact .some (h.later hu)

/-- A value stays one of both walks. -/
theorem Value.later (h : w.Value x y) (hu : w.Later u) : u.Value x y := by
  cases h with
  | none => exact .none
  | some hi hs hy =>
    refine .some (hu.expanded _ _ hi) (hs.mono hu.log) ?_
    cases hy with
    | none => exact .none
    | some hy => exact .some (hu.contracted _ _ hy)

/-- The log is the same, the record too, and the flow has grown as far as it matters. -/
theorem Agrees.withFlows (h : w.Agrees κ) {s s' : FlowState} (hlater : w.Later
      ⟨w.log, { w.expanded with flow := s }, { w.contracted with flow := s' }⟩)
    (hflow : s.Abreast κ w.log s') :
    Agrees κ ⟨w.log, { w.expanded with flow := s }, { w.contracted with flow := s' }⟩ :=
  ⟨hflow, h.record.mono hlater.log hlater.expanded hlater.contracted⟩

end

end Tandem

/-- Other graphs, with no new edge where there are expansions. -/
theorem FlowState.Abreast.withGraphs {κ : Contractions} {log : ExprLog} {s s' : FlowState}
    (h : s.Abreast κ log s') {g g' : FlowGraph} (hg : g.edgeSet ⊆ s.graph.edgeSet)
    (hg' : s'.graph.edgeSet ⊆ g'.edgeSet) :
    FlowState.Abreast κ log { s with graph := g } { s' with graph := g' } where
  program := h.program
  scopes := h.scopes
  symbols := h.symbols
  logged := h.logged
  edges a b hab := (h.edges a b (hg hab)).imp_right (·.mono (fun _ he => he) hg')

namespace FlowGraph

variable {graph : FlowGraph} {a b : Vertex} {s t : VertexId}

/-- An edge that is there after two vertices are joined is theirs or an old one. -/
theorem mem_edgeSet_of_addEdge (ha : graph.find? a = some s) (hb : graph.find? b = some t)
    {e : Vertex × Vertex} (he : e ∈ (graph.addEdge s t).2.edgeSet) :
    e = (a, b) ∨ e ∈ graph.edgeSet := by
  by_cases hne : a = b
  · subst hne
    obtain rfl := Option.some.inj (ha.symm.trans hb)
    rw [addEdge_snd_of_not_new] at he
    · exact .inr he
    · rw [Bool.eq_false_iff]
      exact fun hnew => ((graph.addEdge_fst s s).1 hnew).1 rfl
  · rw [(edgeSet_addEdge ha hb hne).2] at he
    exact he

/-- Two vertices that are joined are the same or have an edge. -/
theorem eq_or_mem_edgeSet_addEdge (ha : graph.find? a = some s) (hb : graph.find? b = some t) :
    a = b ∨ (a, b) ∈ (graph.addEdge s t).2.edgeSet := by
  by_cases hne : a = b
  · exact .inl hne
  · right
    rw [(edgeSet_addEdge ha hb hne).2]
    exact Set.mem_insert _ _

end FlowGraph

namespace Walk

variable {α β γ δ : Type} {κ : Contractions} {file : FileId} {r : Bool} {w : Tandem}

/-- From states that agree the two walks lead to states that do, provided that defaults are kept at
these spots and that `r` says whether `this` has a vertex. The walk with expansions has met only
expressions with the ranges of these spots, in this order. The results are as described. -/
def Abreast (κ : Contractions) (file : FileId) (r : Bool) (w : Tandem) (walk : Walk α)
    (walk' : Walk β) (spots : List Spot)
    (result : Tandem → α → β → Prop := fun _ _ _ => True) : Prop :=
  ∀ (place : Place) (lines : LineTable), place.file = file → place.receiver.isSome = r →
    (κ file).Keeps spots → w.Agrees κ →
    ∃ met : ExprLog, (met.map Prod.fst).Sublist ((Spot.spans spots).map (ExprKey.mk file)) ∧
      let u : Tandem := ⟨w.log ++ met, (walk place w.expanded).2,
        (walk' { place with lines } w.contracted).2⟩
      u.Agrees κ ∧ w.Later u ∧
        result u (walk place w.expanded).1 (walk' { place with lines } w.contracted).1

namespace Abreast

variable {walk : Walk α} {walk' : Walk β} {next : α → Walk γ} {next' : β → Walk δ}
  {spots spots' : List Spot} {P : Tandem → α → β → Prop} {Q : Tandem → γ → δ → Prop}

/-- Walks that meet nothing. -/
theorem quiet (h : ∀ (place : Place) (lines : LineTable), place.file = file → w.Agrees κ →
      let u : Tandem := ⟨w.log, (walk place w.expanded).2,
        (walk' { place with lines } w.contracted).2⟩
      u.Agrees κ ∧ w.Later u ∧
        P u (walk place w.expanded).1 (walk' { place with lines } w.contracted).1) :
    Abreast κ file r w walk walk' spots P := by
  intro place lines hfile _ _ hw
  refine ⟨[], List.nil_sublist _, ?_⟩
  rw [List.append_nil]
  exact h place lines hfile hw

theorem pure {a : α} {b : β} (h : P w a b) :
    Abreast κ file r w (Pure.pure a : Walk α) (Pure.pure b : Walk β) spots P :=
  quiet fun _ _ _ hw => ⟨hw, .refl w, h⟩

theorem mono {P' : Tandem → α → β → Prop} (h : Abreast κ file r w walk walk' spots P)
    (hP : ∀ u, w.Later u → ∀ a b, P u a b → P' u a b) :
    Abreast κ file r w walk walk' spots P' := by
  intro place lines hfile hr hkeeps hw
  obtain ⟨met, hmet, hagrees, hlater, hresult⟩ := h place lines hfile hr hkeeps hw
  exact ⟨met, hmet, hagrees, hlater, hP _ hlater _ _ hresult⟩

/-- There may be more spots. -/
theorem more (h : Abreast κ file r w walk walk' spots P) (hspots : spots.Sublist spots') :
    Abreast κ file r w walk walk' spots' P := by
  intro place lines hfile hr hkeeps hw
  obtain ⟨met, hmet, h⟩ := h place lines hfile hr (hkeeps.mono hspots.subset) hw
  exact ⟨met, hmet.trans ((hspots.filterMap _).map _), h⟩

/-- That defaults are kept may be used. -/
theorem keeping (h : (κ file).Keeps spots → Abreast κ file r w walk walk' spots P) :
    Abreast κ file r w walk walk' spots P :=
  fun place lines hfile hr hkeeps hw => h hkeeps place lines hfile hr hkeeps hw

/-- Two walks one after the other. -/
theorem bind (h : Abreast κ file r w walk walk' spots P)
    (hnext : ∀ u, w.Later u → ∀ a b, P u a b →
      Abreast κ file r u (next a) (next' b) spots' Q) :
    Abreast κ file r w (walk >>= next) (walk' >>= next') (spots ++ spots') Q := by
  intro place lines hfile hr hkeeps hw
  obtain ⟨met, hmet, hagrees, hlater, hresult⟩ :=
    h place lines hfile hr (hkeeps.mono (List.subset_append_left ..)) hw
  obtain ⟨met', hmet', hagrees', hlater', hresult'⟩ := hnext _ hlater _ _ hresult place lines
    hfile hr (hkeeps.mono (List.subset_append_right ..)) hagrees
  refine ⟨met ++ met', ?_, ?_⟩
  · rw [List.map_append, Spot.spans_append, List.map_append]
    exact hmet.append hmet'
  · rw [← List.append_assoc]
    exact ⟨hagrees', hlater.trans hlater', hresult'⟩

/-- A step that meets nothing. -/
theorem step (h : Abreast κ file r w walk walk' [] P)
    (hnext : ∀ u, w.Later u → ∀ a b, P u a b → Abreast κ file r u (next a) (next' b) spots Q) :
    Abreast κ file r w (walk >>= next) (walk' >>= next') spots Q :=
  h.bind hnext

/-- A step that the walk with expansions alone takes. -/
theorem alone {R : Tandem → α → Unit → Prop} {rest : Walk δ}
    (h : Abreast κ file r w walk (Pure.pure ()) spots R)
    (hnext : ∀ u, w.Later u → ∀ a, R u a () → Abreast κ file r u (next a) rest spots' Q) :
    Abreast κ file r w (walk >>= next) rest (spots ++ spots') Q := by
  have hboth : Abreast κ file r w (walk >>= next) (Pure.pure () >>= fun _ => rest)
      (spots ++ spots') Q := h.bind fun u hu a _ ha => hnext u hu a ha
  exact hboth

/-- The last step that meets anything. -/
theorem ending (h : Abreast κ file r w walk walk' spots P)
    (hnext : ∀ u, w.Later u → ∀ a b, P u a b → Abreast κ file r u (next a) (next' b) [] Q) :
    Abreast κ file r w (walk >>= next) (walk' >>= next') spots Q :=
  List.append_nil spots ▸ h.bind hnext

theorem forM {f f' : γ → Walk Unit} (hf : ∀ u, w.Later u → ∀ c, Abreast κ file r u (f c) (f' c) [])
    (cs : List γ) : Abreast κ file r w (cs.forM f) (cs.forM f') [] := by
  induction cs generalizing w with
  | nil => exact .pure trivial
  | cons c cs ih =>
    exact .step (hf w (.refl w) c) fun u hu _ _ _ => ih fun v hv => hf v (hu.trans hv)

/-! ### Pieces of syntax

The walks over a function start outside of it, where there may be no receiver; its spots are those
inside. So the receiver of the spots, `r'`, need not be that of the walks. -/

section

variable {r' : Bool}

/-- The walk over a piece that is no spot takes its parts. -/
theorem inside {p : Piece} (parts : List Piece)
    (h : Abreast κ file r w walk walk' (Piece.spotsAll r' parts) P)
    (hparts : p.walked r' = parts := by
      simp [Piece.walked, Piece.entered, Piece.steps, Step.filterMap_map_enter])
    (hp : p.spot? r' = none := by rfl) (harrow : p.isArrow = false := by rfl) :
    Abreast κ file r w walk walk' (p.spots r') P := by
  rw [Piece.spots_eq harrow, hparts, hp]
  exact (List.append_nil _).symm ▸ h

/-- The walk over a spot takes its parts, then meets it. -/
theorem insideSpot {p : Piece} {spot : Spot} (parts : List Piece)
    (h : Abreast κ file r w walk walk' (Piece.spotsAll r' parts ++ [spot]) P)
    (hparts : p.walked r' = parts := by
      simp [Piece.walked, Piece.entered, Piece.steps, Step.filterMap_map_enter])
    (hp : p.spot? r' = some spot := by rfl) (harrow : p.isArrow = false := by rfl) :
    Abreast κ file r w walk walk' (p.spots r') P := by
  rw [Piece.spots_eq harrow, hparts, hp]
  exact h

/-- The first of several parts. -/
theorem part {p : Piece} {parts : List Piece}
    (h : Abreast κ file r w walk walk' (p.spots (p.isFunc || r')) P)
    (hnext : ∀ u, w.Later u → ∀ a b, P u a b →
      Abreast κ file r u (next a) (next' b) (Piece.spotsAll r' parts) Q) :
    Abreast κ file r w (walk >>= next) (walk' >>= next') (Piece.spotsAll r' (p :: parts)) Q :=
  h.bind hnext

/-- The first of several parts that stand before other spots. -/
theorem partBefore {p : Piece} {parts : List Piece}
    (h : Abreast κ file r w walk walk' (p.spots (p.isFunc || r')) P)
    (hnext : ∀ u, w.Later u → ∀ a b, P u a b →
      Abreast κ file r u (next a) (next' b) (Piece.spotsAll r' parts ++ spots) Q) :
    Abreast κ file r w (walk >>= next) (walk' >>= next')
      (Piece.spotsAll r' (p :: parts) ++ spots) Q := by
  rw [Piece.spotsAll, List.flatMap_cons, List.append_assoc]
  exact h.bind hnext

/-- The first parts of several. -/
theorem parts {ps qs : List Piece}
    (h : Abreast κ file r w walk walk' (Piece.spotsAll r' ps) P)
    (hnext : ∀ u, w.Later u → ∀ a b, P u a b →
      Abreast κ file r u (next a) (next' b) (Piece.spotsAll r' qs) Q) :
    Abreast κ file r w (walk >>= next) (walk' >>= next') (Piece.spotsAll r' (ps ++ qs)) Q := by
  rw [Piece.spotsAll, List.flatMap_append]
  exact h.bind hnext

/-- The parts of the first piece, which is no spot, then the other pieces. -/
theorem insideFirst {p : Piece} {ps : List Piece} (parts : List Piece)
    (h : Abreast κ file r w walk walk' (Piece.spotsAll r' (parts ++ ps)) P)
    (hparts : p.walked (p.isFunc || r') = parts := by
      simp [Piece.walked, Piece.entered, Piece.steps, Step.filterMap_map_enter])
    (hp : p.spot? (p.isFunc || r') = none := by rfl) (hfunc : p.isFunc = false := by rfl)
    (harrow : p.isArrow = false := by rfl) :
    Abreast κ file r w walk walk' (Piece.spotsAll r' (p :: ps)) P := by
  rw [hfunc, Bool.false_or] at hparts hp
  have hspots : p.spots (p.isFunc || r') = Piece.spotsAll r' parts := by
    rw [hfunc, Bool.false_or, Piece.spots_eq harrow, hparts, hp]
    exact List.append_nil _
  rw [Piece.spotsAll, List.flatMap_append] at h
  rw [Piece.spotsAll, List.flatMap_cons, hspots]
  exact h

/-- The one part that there is. -/
theorem single {p : Piece} (h : Abreast κ file r w walk walk' (p.spots (p.isFunc || r')) P) :
    Abreast κ file r w walk walk' (Piece.spotsAll r' [p]) P := by
  rw [Piece.spotsAll, List.flatMap_singleton]
  exact h

end

/-! ### Vertices and edges -/

/-- A vertex that is no compound expression. -/
theorem vertex (v : Vertex) (hv : StandsFor [] v (some (κ.vertex v)) := by rfl) :
    Abreast κ file r w (vertex v) (Walk.vertex (κ.vertex v)) [] (Tandem.Same κ) := by
  refine quiet fun place lines _ hw => ?_
  have hlater : w.Later ⟨w.log, (Walk.vertex v place w.expanded).2,
      (Walk.vertex (κ.vertex v) { place with lines } w.contracted).2⟩ :=
    ⟨fun _ h => h, fun _ _ => FlowGraph.find?_intern_of_find? _,
      fun _ _ => FlowGraph.find?_intern_of_find? _, fun _ _ _ h => h⟩
  refine ⟨hw.withFlows hlater (hw.flow.withGraphs ?_ ?_), hlater, v,
    FlowGraph.find?_intern_self _ _, hv.mono (List.nil_subset _), FlowGraph.find?_intern_self _ _⟩
  · exact (FlowGraph.edgeSet_intern ..).subset
  · exact (FlowGraph.edgeSet_intern ..).superset

/-- A vertex that the walk with expansions alone adds. -/
theorem vertexAlone (v : Vertex) : Abreast κ file r w (Walk.vertex v) (Pure.pure ()) []
    fun u i _ => u.expanded.flow.graph.find? v = some i := by
  refine quiet fun place lines _ hw => ?_
  have hlater : w.Later ⟨w.log, (Walk.vertex v place w.expanded).2, w.contracted⟩ :=
    ⟨fun _ h => h, fun _ _ => FlowGraph.find?_intern_of_find? _, fun _ _ h => h,
      fun _ _ _ h => h⟩
  refine ⟨hw.withFlows hlater (hw.flow.withGraphs ?_ ?_), hlater, FlowGraph.find?_intern_self _ _⟩
  · exact (FlowGraph.edgeSet_intern ..).subset
  · exact fun _ he => he

/-- What is met is logged. -/
theorem logged {w : Tandem} {s s' : FlowState} {key : ExprKey} {o : Option Vertex}
    (hw : w.Agrees κ) (hlater : w.Later ⟨w.log ++ [(key, o)], { w.expanded with flow := s },
      { w.contracted with flow := s' }⟩)
    (hflow : s.Abreast κ w.log s') (ho : κ.target? key = none → o = some (κ.vertex (.expr key))) :
    Tandem.Agrees κ ⟨w.log ++ [(key, o)], { w.expanded with flow := s },
      { w.contracted with flow := s' }⟩ where
  flow :=
    { hflow with
      logged := fun entry he hnone => by
        rcases List.mem_append.1 he with he | he
        · exact hflow.logged entry he hnone
        · obtain rfl := List.mem_singleton.1 he
          exact ho hnone
      edges := fun a b hab => (hflow.edges a b hab).imp_right
        (·.mono (List.subset_append_left _ _) fun _ he => he) }
  record := hw.record.mono hlater.log hlater.expanded hlater.contracted

/-- A compound expression that stands for itself. -/
theorem exprVertex (span : Span) :
    Abreast κ file r w (exprVertex span) (Walk.exprVertex ((κ file).move span)) [.joined span]
      (Tandem.Same κ) := by
  intro place lines hfile hreceiver hkeeps hw
  subst hfile
  set key : ExprKey := ⟨place.file, span⟩
  have hlater : w.Later ⟨w.log ++ [(key, some (κ.vertex (.expr key)))],
      (Walk.exprVertex span place w.expanded).2,
      (Walk.exprVertex ((κ place.file).move span) { place with lines } w.contracted).2⟩ :=
    ⟨List.subset_append_left _ _, fun _ _ => FlowGraph.find?_intern_of_find? _,
      fun _ _ => FlowGraph.find?_intern_of_find? _, fun _ _ _ h => h⟩
  refine ⟨[(key, some (κ.vertex (.expr key)))], .refl _, logged hw hlater
    (hw.flow.withGraphs ?_ ?_) fun _ => rfl, hlater, .expr key, FlowGraph.find?_intern_self _ _, ?_,
    FlowGraph.find?_intern_self _ _⟩
  · exact (FlowGraph.edgeSet_intern ..).subset
  · exact (FlowGraph.edgeSet_intern ..).superset
  · exact List.mem_append_right _ (List.mem_singleton_self _)

/-- An edge between vertices of the state with expansions that is an old value or carried. -/
theorem edgeAlone {i k : VertexId} {a b : Vertex}
    (hi : w.expanded.flow.graph.find? a = some i) (hk : w.expanded.flow.graph.find? b = some k)
    (h : OldValue κ w.expanded.flow.symbols (a, b) ∨
      Carried κ w.log w.contracted.flow.graph a b) :
    Abreast κ file r w (edge i k) (Pure.pure ()) [] := by
  refine quiet fun place lines _ hw => ?_
  have hlater : w.Later ⟨w.log, (edge i k place w.expanded).2, w.contracted⟩ :=
    ⟨fun _ h => h, fun _ _ hv => (FlowGraph.find?_addEdge ..).trans hv, fun _ _ h => h,
      fun _ _ _ h => h⟩
  refine ⟨hw.withFlows hlater { hw.flow with edges := fun x y hxy => ?_ }, hlater, trivial⟩
  rcases FlowGraph.mem_edgeSet_of_addEdge hi hk hxy with heq | hold
  · obtain ⟨rfl, rfl⟩ := Prod.mk.inj heq
    exact h
  · exact hw.flow.edges x y hold

/-- An edge that the other walk alone adds. -/
theorem edgeBeside (j l : VertexId) :
    Abreast κ file r w (Pure.pure ()) (edge j l) [] fun u _ _ =>
      ∀ v x, w.contracted.flow.graph.find? v = some j → w.contracted.flow.graph.find? x = some l →
        v = x ∨ (v, x) ∈ u.contracted.flow.graph.edgeSet := by
  refine quiet fun place lines _ hw => ?_
  have hlater : w.Later ⟨w.log, w.expanded, (edge j l { place with lines } w.contracted).2⟩ :=
    ⟨fun _ h => h, fun _ _ h => h, fun _ _ hv => (FlowGraph.find?_addEdge ..).trans hv,
      fun _ _ _ h => h⟩
  exact ⟨hw.withFlows hlater (hw.flow.withGraphs (fun _ he => he)
    (FlowGraph.edgeSet_subset_addEdge ..)), hlater,
    fun v x hv hx => FlowGraph.eq_or_mem_edgeSet_addEdge hv hx⟩

/-- A value flows to a vertex that stands for itself. -/
theorem flow {x y : Option VertexId} {k l : VertexId} (hvalue : w.Value x y)
    (htarget : w.Same κ k l) : Abreast κ file r w (flow x k) (Walk.flow y l) [] := by
  obtain ⟨b, hk, hb, hl⟩ := htarget
  cases hvalue with
  | none => exact .pure trivial
  | @some a o i y hi ha hy =>
    cases hy with
    -- What stands for nothing carries nothing, so the other walk need not add anything.
    | none => exact edgeAlone hi hk (.inr ⟨none, ha, .inr ⟨hb, nofun⟩⟩)
    | @some v j hj =>
      -- first the edge of the other walk, which the one of this walk stands for
      have h : Abreast κ file r w (Pure.pure () >>= fun _ => Walk.edge i k)
          (Walk.edge j l >>= fun _ => Pure.pure ()) [] :=
        .step (edgeBeside j l) fun u hu _ _ hedge =>
          edgeAlone (hu.expanded _ _ hi) (hu.expanded _ _ hk)
            (.inr ⟨some v, ha.mono hu.log, .inr ⟨hb.mono hu.log, fun x hx => by
              obtain rfl := Option.some.inj hx
              exact hedge _ _ hj hl⟩⟩)
      exact h

theorem edge {i j k l : VertexId} (hs : w.Same κ i j) (ht : w.Same κ k l) :
    Abreast κ file r w (edge i k) (Walk.edge j l) [] :=
  .flow hs.value ht

/-! ### Functions and calls -/

/-- A function that is registered. -/
theorem addFunction (name : Option String) (paramCount : Nat) (isArrow : Bool) (span : Span) :
    Abreast κ file r w (addFunction name paramCount isArrow span)
      (Walk.addFunction name paramCount isArrow ((κ file).move span)) [] fun _ f g => g = f := by
  refine quiet fun place lines hfile hw => ?_
  subst hfile
  obtain ⟨hid, hprogram⟩ := hw.flow.program.addFunction
    (f := ⟨name, paramCount, place.file, place.lines.location span, place.function, isArrow⟩)
    (g := ⟨name, paramCount, place.file, lines.location ((κ place.file).move span),
      place.function, isArrow⟩) rfl
  exact ⟨⟨{ hw.flow with program := hprogram }, hw.record⟩, .of_graphs rfl rfl rfl rfl, hid⟩

/-- A call that is registered. -/
theorem addCall (kind : CallKind) (argCount : Nat) (span : Span) :
    Abreast κ file r w (addCall kind argCount span)
      (Walk.addCall kind argCount ((κ file).move span)) [] fun _ c d => d = c := by
  refine quiet fun place lines hfile hw => ?_
  subst hfile
  obtain ⟨hid, hprogram⟩ := hw.flow.program.addCall
    (c := ⟨kind, argCount, place.function, place.file, place.lines.location span⟩)
    (d := ⟨kind, argCount, place.function, place.file,
      lines.location ((κ place.file).move span)⟩) rfl
  exact ⟨⟨{ hw.flow with program := hprogram }, hw.record⟩, .of_graphs rfl rfl rfl rfl, hid⟩

/-! ### Scopes and names -/

/-- Inside a scope. The trees of scopes are the same. -/
theorem inScope {P : Tandem → α → β → Prop} (kind : ScopeKind)
    (h : ∀ u, w.Later u → Abreast κ file r u walk walk' spots P) :
    Abreast κ file r w (inScope kind walk) (Walk.inScope kind walk') spots P := by
  intro place lines hfile hr hkeeps hw
  let u : Tandem := ⟨w.log,
    { w.expanded with flow := { w.expanded.flow with
        scopes := (w.expanded.flow.scopes.create kind place.scope).2 } },
    { w.contracted with flow := { w.contracted.flow with
        scopes := (w.expanded.flow.scopes.create kind place.scope).2 } }⟩
  have hlater : w.Later u := .of_graphs rfl rfl rfl rfl
  have hu : u.Agrees κ := ⟨{ hw.flow with scopes := rfl }, hw.record⟩
  obtain ⟨met, hmet, hagrees, hlater', hresult⟩ :=
    h u hlater { place with scope := (w.expanded.flow.scopes.create kind place.scope).1 } lines
      hfile hr hkeeps hu
  unfold Walk.inScope
  rw [hw.flow.scopes]
  exact ⟨met, hmet, hagrees, hlater.trans hlater', hresult⟩

/-- In a function `this` has a vertex, in an arrow as it has around it. -/
theorem inFunction {P : Tandem → α → β → Prop} {f : FunctionId} {isArrow : Bool}
    (h : Abreast κ file (!isArrow || r) w walk walk' spots P) :
    Abreast κ file r w
      (withReader (fun place => { place with
        function := some f
        receiver := if isArrow then place.receiver else some f }) walk)
      (withReader (fun place => { place with
        function := some f
        receiver := if isArrow then place.receiver else some f }) walk') spots P :=
  fun _ lines hfile hr hkeeps hw => h _ lines hfile (by
    cases isArrow with
    | false => rfl
    | true => exact hr) hkeeps hw

/-- Names are declared in the same tables. -/
theorem declareIn (scope : ScopeId) (kind : SymbolKind) (name : String) :
    Abreast κ file r w (declareIn scope kind name) (Walk.declareIn scope kind name) [] := by
  refine quiet fun place lines _ hw => ⟨⟨{ hw.flow with
    symbols := congrArg (fun table => (table.declare name kind scope).2) hw.flow.symbols
    edges := fun a b hab => (hw.flow.edges a b hab).imp_left (·.declare name kind scope) },
    hw.record⟩, ⟨fun _ h => h, fun _ _ h => h, fun _ _ h => h, fun _ _ _ h => ?_⟩, trivial⟩
  exact SymbolTable.binding?_declare_of_some h name kind scope

theorem declare (kind : SymbolKind) (names : List String) :
    Abreast κ file r w (declare kind names) (Walk.declare kind names) [] :=
  fun place lines hfile hr hkeeps hw =>
    forM (fun _ _ => Abreast.declareIn place.scope kind) names place lines hfile hr hkeeps hw

/-- What `var` declares gets into the same scope. -/
theorem declareVars (names : List String) :
    Abreast κ file r w (declareVars names) (Walk.declareVars names) [] := by
  intro place lines hfile hr hkeeps hw
  have hcontracted : Walk.declareVars names { place with lines } w.contracted =
      names.forM (Walk.declareIn (w.expanded.flow.scopes.varScope place.scope) .variable)
        { place with lines } w.contracted := by
    rw [Walk.declareVars, hw.flow.scopes]
  rw [hcontracted]
  exact forM (fun _ _ => Abreast.declareIn _ .variable) names place lines hfile hr hkeeps hw

/-- A name denotes the same symbol, or none. -/
theorem lookup (name : String) :
    Abreast κ file r w (lookup name) (Walk.lookup name) [] fun _ s t => t = s := by
  refine quiet fun place lines _ hw => ⟨hw, .refl w, ?_⟩
  show w.contracted.flow.symbols.lookup w.contracted.flow.scopes name place.scope =
    w.expanded.flow.symbols.lookup w.expanded.flow.scopes name place.scope
  rw [hw.flow.symbols, hw.flow.scopes]

/-- A name leads to a vertex that stands for itself. -/
theorem resolve (name : String) :
    Abreast κ file r w (resolve name) (Walk.resolve name) [] (Tandem.Same κ) := by
  refine .step (.lookup name) fun u _ _ symbol heq => ?_
  subst heq
  cases symbol with
  | none => exact .vertex (.prop name)
  | some symbol => exact .vertex (.var symbol)

theorem isGlobal (name : String) :
    Abreast κ file r w (isGlobal name) (Walk.isGlobal name) [] fun _ a b => b = a := by
  refine .step (.lookup name) fun u _ _ symbol heq => ?_
  subst heq
  exact .pure rfl

/-- The receiver stands for itself, and is there as `r` says. -/
theorem receiver :
    Abreast κ file r w Walk.receiver Walk.receiver [] fun u => Option.Rel (u.Same κ) := by
  intro ⟨file', lines', scope, function, around⟩ lines hfile hr hkeeps hw
  cases around with
  | none =>
    have h : Abreast κ file r w (Pure.pure none : Walk (Option VertexId))
        (Pure.pure none : Walk (Option VertexId)) [] fun u => Option.Rel (u.Same κ) := .pure .none
    exact h ⟨file', lines', scope, function, none⟩ lines hfile hr hkeeps hw
  | some f =>
    have h : Abreast κ file r w (Walk.vertex (.param f 0)) (Walk.vertex (.param f 0)) []
        (Tandem.Same κ) := .vertex (.param f 0)
    exact h.mono (fun u _ a b hab => Option.Rel.some hab)
      ⟨file', lines', scope, function, some f⟩ lines hfile hr hkeeps hw

/-! ### The module record -/

/-- An export of a value, if it has one. -/
theorem export? (name : String) {x y : Option VertexId} (hs : w.Value x y) :
    Abreast κ file r w
      (match x with
        | some value => addExport name value
        | none => Pure.pure ())
      (match y with
        | some value => addExport name value
        | none => Pure.pure ()) [] := by
  cases hs with
  | none => exact .pure trivial
  | @some v o i y hi hs hy =>
    -- the other record has the export too, if the value stands for anything
    have hexports (t : FileState) (hold : ∀ e ∈ w.contracted.record.exports, e ∈ t.record.exports)
        (hnew : ∀ x ∈ o, ∃ e ∈ t.record.exports, e.name = name ∧
          w.contracted.flow.graph.find? x = some e.value) (hw : w.Agrees κ) :
        ∀ e ∈ w.expanded.record.exports.push ⟨name, i⟩, ∃ a o,
          w.expanded.flow.graph.find? a = some e.value ∧ StandsFor w.log a o ∧ ∀ x ∈ o,
            ∃ e' ∈ t.record.exports, e'.name = e.name ∧
              w.contracted.flow.graph.find? x = some e'.value := by
      intro e he
      rcases Array.mem_push.1 he with he | rfl
      · obtain ⟨a, o, ha, hs, ho⟩ := hw.record.exports e he
        refine ⟨a, o, ha, hs, fun x hx => ?_⟩
        obtain ⟨e', he', h⟩ := ho x hx
        exact ⟨e', hold e' he', h⟩
      · exact ⟨v, o, hi, hs, hnew⟩
    cases hy with
    | none =>
      refine quiet fun place lines _ hw => ⟨⟨hw.flow, { hw.record with
        exports := hexports w.contracted (fun _ he => he) nofun hw }⟩,
        .of_graphs rfl rfl rfl rfl, trivial⟩
    | @some x j hj =>
      refine quiet fun place lines _ hw => ⟨⟨hw.flow, { hw.record with
        exports := hexports (Walk.addExport name j place w.contracted).2
          (fun _ he => Array.mem_push_of_mem _ he) (fun x' hx' => ?_) hw }⟩,
        .of_graphs rfl rfl rfl rfl, trivial⟩
      obtain rfl := Option.some.inj hx'
      exact ⟨⟨name, j⟩, Array.mem_push_self, rfl, hj⟩

theorem addExport (name : String) {i j : VertexId} (hs : w.Same κ i j) :
    Abreast κ file r w (addExport name i) (Walk.addExport name j) [] :=
  export? name hs.value

/-- What is offered elsewhere gets into a vertex that stands for itself. -/
theorem addImport (specifier : String) (imported : ImportedName) {i j : VertexId}
    (hs : w.Same κ i j) :
    Abreast κ file r w (addImport specifier imported i)
      (Walk.addImport specifier imported j) [] := by
  refine quiet fun place lines _ hw => ⟨⟨hw.flow, { hw.record with imports := ?_ }⟩,
    .of_graphs rfl rfl rfl rfl, trivial⟩
  show List.Forall₂ _ (w.expanded.record.imports.push _).toList
    (w.contracted.record.imports.push _).toList
  rw [Array.toList_push, Array.toList_push]
  exact List.rel_append hw.record.imports (.cons ⟨rfl, rfl, hs⟩ .nil)

theorem addRequire (specifier : String) (call : CallId) :
    Abreast κ file r w (addRequire specifier call) (Walk.addRequire specifier call) [] := by
  refine quiet fun place lines _ hw => ⟨⟨hw.flow, { hw.record with requires := ?_ }⟩,
    .of_graphs rfl rfl rfl rfl, trivial⟩
  exact congrArg (·.push ⟨specifier, call⟩) hw.record.requires

/-! ### Composed steps -/

/-- A contracted declaration declares the same names. -/
theorem hoist (c : Contraction) (d : Decl) :
    Abreast κ file r w (hoist d) (Walk.hoist (d.contract c)) [] := by
  cases d with
  | function name f => exact .declare _ _
  | «class» name c => exact .declare _ _
  | vars kind declarators =>
    rw [Decl.contract]
    cases kind with
    | var =>
      rw [Walk.hoist, Walk.hoist, Declarator.namesAll_contract]
      exact .declareVars _
    | «let» | const =>
      rw [Walk.hoist, Walk.hoist, Declarator.namesAll_contract]
      exact .declare _ _
  | «using» declarators =>
    rw [Decl.contract, Walk.hoist, Walk.hoist, Declarator.namesAll_contract]
    exact .declare _ _
  | inert => exact .pure trivial

/-- Contracted statements declare the same names. -/
theorem hoistAll (c : Contraction) (stmts : List Stmt) :
    Abreast κ file r w (hoistAll stmts) (Walk.hoistAll (Stmt.contractAll c stmts)) [] := by
  induction stmts generalizing w with
  | nil => exact .pure trivial
  | cons s rest ih =>
    refine .step (P := fun _ _ _ => True) ?_ fun u _ _ _ _ => ih
    cases s with
    | decl d => exact .hoist c d
    | _ => exact .pure trivial

/-- A contracted body declares the same names. -/
theorem hoistBody (c : Contraction) (body : Body) :
    Abreast κ file r w (hoistBody body) (Walk.hoistBody (body.contract c)) [] := by
  cases body with
  | block stmts =>
    rw [Body.contract, Walk.hoistBody, Walk.hoistBody, Stmt.varNamesAll_contract]
    exact .step (.hoistAll c stmts) fun _ _ _ _ _ => .declare _ _
  | expr result => exact .pure trivial
  | absent => exact .pure trivial

/-- Contracted cases declare the same names. -/
theorem hoistCases (c : Contraction) (cases : List Case) :
    Abreast κ file r w (hoistCases cases) (Walk.hoistCases (Case.contractAll c cases)) [] := by
  induction cases generalizing w with
  | nil => exact .pure trivial
  | cons first rest ih =>
    obtain ⟨test, body⟩ := first
    exact .step (.hoistAll c body) fun _ _ _ _ _ => ih

/-- An assignment to `module.exports` is one on both sides. -/
theorem exportAssigned (c : Contraction) (target : Pattern) {x y : Option VertexId}
    (hs : w.Value x y) :
    Abreast κ file r w (exportAssigned target x)
      (Walk.exportAssigned (target.contract c) y) [] := by
  unfold Walk.exportAssigned
  rw [Pattern.isModuleExports_contract]
  split
  · refine .step (.isGlobal "module") fun u hu _ isGlobal heq => ?_
    subst heq
    cases isGlobal with
    | false => exact .pure trivial
    | true => exact .export? "default" (hs.later hu)
  · exact .pure trivial

/-- So is a call of `require`. -/
theorem recordRequire (c : Contraction) (chained : Bool) (callee : Expr) (args : List Expr)
    (call : CallId) :
    Abreast κ file r w (recordRequire chained callee args call)
      (Walk.recordRequire chained (callee.contract c) (Expr.contractAll c args) call) [] := by
  unfold Walk.recordRequire
  rw [requiredSpecifier?_contract]
  split
  · refine .step (.isGlobal "require") fun u _ _ isGlobal heq => ?_
    subst heq
    cases isGlobal with
    | false => exact .pure trivial
    | true => exact .addRequire _ _
  · exact .pure trivial

/-- What a method is called on gets into the slot for the receiver. -/
theorem passReceiver (call : CallId) {x y : Option VertexId} (hs : w.Value x y) :
    Abreast κ file r w (passReceiver call x) (Walk.passReceiver call y) [] := by
  cases hs with
  | none => exact .pure trivial
  | @some v o i y hi hs hy =>
    cases hy with
    | none =>
      -- the other walk does not even add the vertex
      exact .alone (.vertexAlone (.arg call 0)) fun u hu _ htarget =>
        .edgeAlone (hu.expanded _ _ hi) htarget (.inr ⟨none, hs.mono hu.log, .inr ⟨rfl, nofun⟩⟩)
    | some hj =>
      exact .step (.vertex (.arg call 0)) fun u hu _ _ htarget =>
        .flow ((Tandem.Value.some hi hs (.some hj)).later hu) htarget

/-- What is returned gets to the results of the function around. -/
theorem returnValue {x y : Option VertexId} (hs : w.Value x y) :
    Abreast κ file r w (returnValue x) (Walk.returnValue y) [] := by
  intro ⟨file', lines', scope, f, around⟩ lines hfile hr hkeeps hw
  cases f with
  | none =>
    have h : Abreast κ file r w (Pure.pure () : Walk Unit) (Pure.pure () : Walk Unit) [] :=
      .pure trivial
    exact h ⟨file', lines', scope, none, around⟩ lines hfile hr hkeeps hw
  | some f =>
    have h : Abreast κ file r w (do Walk.flow x (← Walk.vertex (.ret f)))
        (do Walk.flow y (← Walk.vertex (.ret f))) [] :=
      .step (.vertex (.ret f)) fun u hu _ _ htarget => .flow (hs.later hu) htarget
    exact h ⟨file', lines', scope, some f, around⟩ lines hfile hr hkeeps hw

/-- The own name of a function. -/
theorem bindOwnName {i j : VertexId} (hs : w.Same κ i j) (own : Option String) :
    Abreast κ file r w (bindOwnName i own) (Walk.bindOwnName j own) [] := by
  cases own with
  | none => exact .pure trivial
  | some own =>
    refine .step (.declare _ _) fun u hu _ _ _ => ?_
    exact .step (.resolve own) fun v hv _ _ htarget => .edge (hs.later (hu.trans hv)) htarget

theorem declareClassName (own : Option String) :
    Abreast κ file r w (declareClassName own) (Walk.declareClassName own) [] := by
  cases own with
  | none => exact .pure trivial
  | some own => exact .declare _ _

/-- What the own name of a class denotes. -/
theorem bindClassName (own : Option String) {x y : Option VertexId}
    (hs : Option.Rel (w.Same κ) x y) :
    Abreast κ file r w (bindClassName own x) (Walk.bindClassName own y) [] := by
  cases own with
  | none => exact .pure trivial
  | some own =>
    cases hs with
    | none => exact .pure trivial
    | some hs => exact .step (.resolve own) fun u hu _ _ htarget => .edge (hs.later hu) htarget

theorem inBlock (c : Contraction) (stmts : List Stmt) {walk walk' : Walk Unit}
    (h : ∀ u, w.Later u → Abreast κ file r u walk walk' spots) :
    Abreast κ file r w (inBlock stmts walk) (Walk.inBlock (Stmt.contractAll c stmts) walk')
      spots :=
  .inScope _ fun _ hu => .step (.hoistAll c stmts) fun v hv _ _ _ => h v (hu.trans hv)

end Abreast

end Walk

end CallFlow
