import CallFlow.Proofs.Analysis.Phases
import CallFlow.Proofs.FileFlow.Wrapping

/-!
# Wrappers do not change the calls

An analysis looks at no range. From states of which one is the other moved, all its phases do the
same, step by step, and find the same calls. So files with the same bare form have the same calls.
-/

namespace CallFlow

open Syntax

variable {ρ : Relocation}

/-! ## Programs -/

namespace Program.Moved

variable {p p' : Program} (h : Program.Moved ρ p p')
include h

/-- Functions are looked up by their number, so that the moved program has the same ones. -/
theorem function? (f : FunctionId) :
    (p'.function? f).map (Function.outline .stay) = (p.function? f).map (Function.outline ρ) := by
  rw [Program.function?, Program.function?, ← Array.getElem?_map, ← Array.getElem?_map, h.functions]

theorem call? (c : CallId) :
    (p'.call? c).map (CallSite.outline .stay) = (p.call? c).map (CallSite.outline ρ) := by
  rw [Program.call?, Program.call?, ← Array.getElem?_map, ← Array.getElem?_map, h.calls]

theorem paramCount (f : FunctionId) :
    (p'.function? f).map Function.paramCount = (p.function? f).map Function.paramCount := by
  have hmap := congrArg (Option.map Prod.fst) (h.function? f)
  rwa [Option.map_map, Option.map_map] at hmap

theorem argCount (c : CallId) :
    (p'.call? c).map CallSite.argCount = (p.call? c).map CallSite.argCount := by
  have hmap := congrArg (Option.map fun outline => outline.2.1) (h.call? c)
  rwa [Option.map_map, Option.map_map] at hmap

theorem functionIds : p'.functionIds = p.functionIds := by
  rw [Program.functionIds, Program.functionIds, h.size_functions]

theorem callIds : p'.callIds = p.callIds := by
  rw [Program.callIds, Program.callIds, h.size_calls]

/-- The bound on the rounds counts slots only. -/
theorem edgeBound : Propagation.edgeBound p' = Propagation.edgeBound p := by
  -- the bound is read off the numbers of slots, which the outlines contain
  have hfunctions := congrArg (fun outlines : Array _ => outlines.toList.map Prod.fst) h.functions
  have hcalls := congrArg (fun outlines : Array _ => outlines.toList.map fun c => c.2.1) h.calls
  simp only [Array.toList_map, List.map_map] at hfunctions hcalls
  have hbound : ∀ q : Program, Propagation.edgeBound q =
      ((q.functions.toList.map Function.paramCount).flatMap fun n =>
        (q.calls.toList.map CallSite.argCount).map fun m => 2 + min n m).foldr (· + ·) 0 := by
    intro q
    rw [Propagation.edgeBound, List.flatMap_map]
    simp only [List.map_map]
    rfl
  rw [hbound, hbound]
  exact congrArg₂ (fun ns ms : List ℕ =>
    (ns.flatMap fun n => ms.map fun m => 2 + min n m).foldr (· + ·) 0) hfunctions hcalls

end Program.Moved

/-- Two programs with the same functions and calls, each moved. A name that both have for a function
is the same. -/
structure Program.Alike (ρ ρ' : Relocation) (p p' : Program) : Prop where
  functions : p'.functions.map (Function.outline ρ') = p.functions.map (Function.outline ρ)
  names : ∀ (f : FunctionId) (x x' : Function), p.function? f = some x →
    p'.function? f = some x' → x.name = none ∨ x'.name = none ∨ x'.name = x.name
  calls : p'.calls.map (CallSite.outline ρ') = p.calls.map (CallSite.outline ρ)

/-- What is moved to the same place is alike. -/
theorem Program.Moved.alike {ρ' : Relocation} {p p' q : Program} (h : p.Moved ρ q)
    (h' : p'.Moved ρ' q) : Program.Alike ρ ρ' p p' := by
  refine ⟨h'.functions.symm.trans h.functions, fun f x x' hx hx' => ?_,
    h'.calls.symm.trans h.calls⟩
  have hy := rel_getElem?_of_forall₂ h.names f.index
  have hy' := rel_getElem?_of_forall₂ h'.names f.index
  rw [Array.getElem?_toList, Array.getElem?_toList] at hy hy'
  rw [show p.functions[f.index]? = some x from hx] at hy
  rw [show p'.functions[f.index]? = some x' from hx'] at hy'
  -- both names are those of the function in `q`, or missing
  cases hq : q.functions[f.index]? with
  | none =>
    rw [hq] at hy
    cases hy
  | some y =>
    rw [hq] at hy hy'
    cases hy with
    | some hy =>
      cases hy' with
      | some hy' =>
        rcases hy with hnone | hsame
        · exact .inl hnone
        · rcases hy' with hnone | hsame'
          · exact .inr (.inl hnone)
          · exact .inr (.inr (hsame'.trans hsame.symm))

/-! ## Graphs -/

namespace Relocation

theorem calleeOf?_vertex (ρ : Relocation) (v : Vertex) :
    (ρ.vertex v).calleeOf? = v.calleeOf? := by
  cases v <;> rfl

theorem ofVertex?_vertex (ρ : Relocation) (v : Vertex) :
    Callee.ofVertex? (ρ.vertex v) = Callee.ofVertex? v := by
  cases v <;> rfl

theorem isTracked_vertex (ρ : Relocation) (v : Vertex) :
    (ρ.vertex v).isTracked = v.isTracked := by
  cases v <;> rfl

end Relocation

namespace FlowGraph.Moved

variable {g g' : FlowGraph}

theorem empty : Moved ρ .empty .empty := ⟨Array.map_empty.symm, rfl⟩

/-- What is not a compound expression stays where it is. -/
theorem find?_fixed (h : Moved ρ g g') (v : Vertex) (hv : ρ.vertex v = v := by rfl) :
    g'.find? v = g.find? v := by
  have hfind := h.find? v
  rwa [hv] at hfind

theorem intern_fixed (h : Moved ρ g g') (v : Vertex) (hv : ρ.vertex v = v := by rfl) :
    (g'.intern v).1 = (g.intern v).1 ∧ Moved ρ (g.intern v).2 (g'.intern v).2 := by
  have hintern := h.intern v
  rwa [hv] at hintern

theorem calleeAt? (h : Moved ρ g g') (id : VertexId) :
    Round.calleeAt? g' id = Round.calleeAt? g id := by
  rw [Round.calleeAt?, Round.calleeAt?, h.vertex?]
  cases g.vertex? id with
  | none => rfl
  | some v => exact ρ.calleeOf?_vertex v

theorem callee? (h : Moved ρ g g') (id : VertexId) :
    (g'.vertex? id).bind Callee.ofVertex? = (g.vertex? id).bind Callee.ofVertex? := by
  rw [h.vertex?]
  cases g.vertex? id with
  | none => rfl
  | some v => exact ρ.ofVertex?_vertex v

/-- Since moving leaves the numbers and the edges as they are, it leaves what is reached. -/
theorem reachability (h : Moved ρ g g') :
    g'.reachability Vertex.isTracked = g.reachability Vertex.isTracked := by
  -- the edges are those of the same nodes, and which nodes are tracked no range decides
  have hfollowed : g'.followed Vertex.isTracked = g.followed Vertex.isTracked := by
    funext v
    rw [FlowGraph.followed, FlowGraph.followed, h.getElem?]
    cases g.nodes[v]? with
    | none => rfl
    | some node =>
      show (if (ρ.vertex node.vertex).isTracked then _ else _) = _
      rw [ρ.isTracked_vertex]
      rfl
  rw [FlowGraph.reachability, FlowGraph.reachability, h.size, hfollowed]

/-- An edge between two vertices without a range. -/
theorem connect (h : Moved ρ g g') (v w : Vertex) (hv : ρ.vertex v = v := by rfl)
    (hw : ρ.vertex w = w := by rfl) :
    (g'.connect v w).1 = (g.connect v w).1 ∧ Moved ρ (g.connect v w).2 (g'.connect v w).2 := by
  obtain ⟨hs, h⟩ := h.intern_fixed v hv
  obtain ⟨ht, h⟩ := h.intern_fixed w hw
  unfold FlowGraph.connect
  dsimp only
  rw [hs, ht]
  exact h.addEdge _ _

theorem seed (h : Moved ρ g g') : Moved ρ (Builtin.seed g).2 (Builtin.seed g').2 :=
  List.foldl_rel (r := fun a b : ℕ × FlowGraph => a.2.Moved ρ b.2) h fun _ _ _ _ hc =>
    (hc.connect _ _).2

end FlowGraph.Moved

/-! ## Linking -/

/-- The one state of linking is the other, moved. -/
structure Linking.Moved (ρ : Relocation) (links links' : Linking) : Prop where
  graph : links.graph.Moved ρ links'.graph
  dependencies : links'.dependencies = links.dependencies

namespace Linking.Moved

variable {links links' : Linking}

theorem withGraph (h : Moved ρ links links') {g g' : FlowGraph} (hg : g.Moved ρ g') :
    Moved ρ { links with graph := g } { links' with graph := g' } :=
  ⟨hg, h.dependencies⟩

theorem withStats (h : Moved ρ links links') (stats stats' : LinkStats) :
    Moved ρ { links with stats } { links' with stats := stats' } :=
  ⟨h.graph, h.dependencies⟩

theorem addEdge (h : Moved ρ links links') (s t : VertexId) :
    Moved ρ (links.addEdge s t) (links'.addEdge s t) :=
  ⟨(h.graph.addEdge s t).2, h.dependencies⟩

theorem connectNamed (h : Moved ρ links links') (exports : Array ExportBinding) (name : String)
    (target : VertexId) :
    Moved ρ (links.connectNamed exports name target)
      (links'.connectNamed exports name target) := by
  refine Array.foldl_rel (r := Moved ρ) h fun e _ l l' hl => ?_
  split
  · exact hl.addEdge _ _
  · exact hl

theorem connectNamespace (h : Moved ρ links links') (exports : Array ExportBinding) :
    Moved ρ (links.connectNamespace exports) (links'.connectNamespace exports) := by
  refine Array.foldl_rel (r := Moved ρ) h fun e _ l l' hl => ?_
  split
  · exact hl
  · obtain ⟨hid, hgraph⟩ := hl.graph.intern_fixed (.prop e.name)
    dsimp only
    rw [hid]
    exact (hl.withGraph hgraph).addEdge _ _

theorem connectImport (h : Moved ρ links links') (exports : Array ExportBinding)
    (binding : ImportBinding) :
    Moved ρ (links.connectImport exports binding) (links'.connectImport exports binding) := by
  unfold Linking.connectImport
  split
  · exact h.connectNamed ..
  · exact h.connectNamed ..
  · exact h.connectNamespace _

theorem connectRequire (h : Moved ρ links links') (exports : Array ExportBinding)
    (call : CallId) :
    Moved ρ (links.connectRequire exports call) (links'.connectRequire exports call) := by
  obtain ⟨hid, hgraph⟩ := h.graph.intern_fixed (.res call)
  unfold Linking.connectRequire
  dsimp only
  rw [hid]
  exact ((h.withGraph hgraph).connectNamed ..).connectNamespace _

/-- Dependencies are kept apart from the graph. -/
theorem depend (h : Moved ρ links links') (source target : FileId) (kind : DependencyKind) :
    Moved ρ (links.depend source target kind) (links'.depend source target kind) := by
  unfold Linking.depend
  rw [h.dependencies]
  split
  · exact h
  · exact ⟨h.graph, rfl⟩

/-- The specifier is resolved in the same way on both sides, and `connect` gets the same exports. -/
theorem link (h : Moved ρ links links') (records : Array ModuleRecord)
    (known : Module.KnownFiles) (record : ModuleRecord) (kind : DependencyKind)
    (specifier : String) (connect : Linking → Array ExportBinding → Linking)
    (hconnect : ∀ l l' exports, Moved ρ l l' → Moved ρ (connect l exports) (connect l' exports)) :
    Moved ρ (links.link records known record kind specifier connect)
      (links'.link records known record kind specifier connect) := by
  unfold Linking.link
  split
  · exact hconnect _ _ _ ((h.withStats _ _).depend ..)
  · exact h.withStats _ _

theorem linkRecord (h : Moved ρ links links') (records : Array ModuleRecord)
    (known : Module.KnownFiles) (record : ModuleRecord) :
    Moved ρ (links.linkRecord records known record) (links'.linkRecord records known record) := by
  -- imports and calls of `require` differ only in what is connected
  have himport (i : ImportBinding) (l l' : Linking) (hl : Moved ρ l l') :=
    hl.link records known record .imports i.specifier
      (fun links exports => links.connectImport exports i)
      fun _ _ exports hm => hm.connectImport exports i
  have hrequire (r : RequireCall) (l l' : Linking) (hl : Moved ρ l l') :=
    hl.link records known record .requires r.specifier
      (fun links exports => links.connectRequire exports r.call)
      fun _ _ exports hm => hm.connectRequire exports r.call
  exact Array.foldl_rel (r := Moved ρ)
    (Array.foldl_rel (r := Moved ρ) h fun i _ => himport i) fun r _ => hrequire r

theorem run {g g' : FlowGraph} (h : g.Moved ρ g') (records : Array ModuleRecord) :
    Moved ρ (Linking.run g records) (Linking.run g' records) :=
  Array.foldl_rel (r := Moved ρ) ⟨h, rfl⟩ fun record _ _ _ hl => hl.linkRecord records _ record

end Linking.Moved

/-! ## Propagation -/

/-- The one round is the other, moved. -/
structure Round.Moved (ρ : Relocation) (r r' : Round) : Prop where
  graph : r.graph.Moved ρ r'.graph
  snapshot : r'.snapshot = r.snapshot
  outcome : r'.outcome = r.outcome

namespace Round.Moved

variable {r r' : Round}

theorem withGraph (h : Moved ρ r r') {g g' : FlowGraph} (hg : g.Moved ρ g') :
    Moved ρ { r with graph := g } { r' with graph := g' } :=
  ⟨hg, h.snapshot, h.outcome⟩

theorem addEdge (h : Moved ρ r r') (s t : VertexId) :
    Moved ρ (r.addEdge s t) (r'.addEdge s t) := by
  obtain ⟨hnew, hgraph⟩ := h.graph.addEdge s t
  refine ⟨hgraph, h.snapshot, ?_⟩
  unfold Round.addEdge
  dsimp only
  rw [hnew, h.outcome]

/-- A flag is set on both sides or on neither, as the snapshot of the round says. -/
theorem markIfDemanded (h : Moved ρ r r') (v : Vertex) (hv : ρ.vertex v = v := by rfl) :
    Moved ρ (r.markIfDemanded v) (r'.markIfDemanded v) := by
  -- which vertices are callees is the same question to both graphs
  have hcallee : (fun w => (calleeAt? r'.graph w).isSome) =
      fun w => (calleeAt? r.graph w).isSome := by
    funext w
    rw [h.graph.calleeAt?]
  unfold Round.markIfDemanded
  rw [h.graph.find?_fixed v hv]
  cases r.graph.find? v with
  | none => exact h
  | some id =>
    dsimp only
    rw [h.graph.isInteresting, h.snapshot, hcallee]
    split
    · exact h
    · split
      · exact ⟨(h.graph.markInteresting id).2, rfl, by rw [h.outcome]⟩
      · exact ⟨h.graph, rfl, h.outcome⟩

/-- The target decides whether there is an edge, and it has one number in both graphs. -/
theorem connectDemanded (h : Moved ρ r r') (source target : Vertex)
    (hsource : ρ.vertex source = source := by rfl) (htarget : ρ.vertex target = target := by rfl) :
    Moved ρ (r.connectDemanded source target) (r'.connectDemanded source target) := by
  unfold Round.connectDemanded
  rw [h.graph.find?_fixed target htarget]
  cases r.graph.find? target with
  | none => exact h
  | some t =>
    obtain ⟨hid, hgraph⟩ := h.graph.intern_fixed source hsource
    dsimp only
    rw [h.graph.isInteresting, hid]
    split
    · exact (h.withGraph hgraph).addEdge _ _
    · exact h

variable {p p' : Program}

/-- A call passes what the shorter of two lists has slots for, and moving leaves both lengths. -/
theorem connectCall (h : Moved ρ r r') (hp : p.Moved ρ p') (f : FunctionId) (paramCount : Nat)
    (call : CallId) :
    Moved ρ (r.connectCall p f paramCount call) (r'.connectCall p' f paramCount call) := by
  unfold Round.connectCall
  dsimp only
  rw [hp.argCount]
  exact List.foldl_rel (r := Moved ρ) (h.connectDemanded _ _) fun _ _ _ _ hr =>
    hr.connectDemanded _ _

theorem markResults (h : Moved ρ r r') (hp : p.Moved ρ p') :
    Moved ρ (r.markResults p) (r'.markResults p') := by
  unfold Round.markResults
  rw [hp.callIds]
  exact List.foldl_rel (r := Moved ρ) h fun _ _ _ _ hr => hr.markIfDemanded _

theorem markParameters (h : Moved ρ r r') (f : FunctionId) (paramCount : Nat) :
    Moved ρ (r.markParameters f paramCount) (r'.markParameters f paramCount) :=
  List.foldl_rel (r := Moved ρ) h fun _ _ _ _ hr => hr.markIfDemanded _

/-- What a function reaches is asked of the snapshot, which is one for both. -/
theorem connectCalls (h : Moved ρ r r') (hp : p.Moved ρ p') (f : FunctionId)
    (paramCount : Nat) :
    Moved ρ (r.connectCalls p f paramCount) (r'.connectCalls p' f paramCount) := by
  unfold Round.connectCalls
  rw [h.graph.find?_fixed (.func f)]
  cases r.graph.find? (.func f) with
  | none => exact h
  | some source =>
    have hcallee : calleeAt? r'.graph = calleeAt? r.graph := funext h.graph.calleeAt?
    dsimp only
    rw [h.snapshot, hcallee]
    exact List.foldl_rel (r := Moved ρ) ⟨h.graph, rfl, h.outcome⟩ fun call _ _ _ hr =>
      hr.connectCall hp f paramCount call

theorem connectFunction (h : Moved ρ r r') (hp : p.Moved ρ p') (f : FunctionId) :
    Moved ρ (r.connectFunction p f) (r'.connectFunction p' f) := by
  unfold Round.connectFunction
  dsimp only
  rw [hp.paramCount]
  exact (h.markParameters f _).connectCalls hp f _

/-- One round leads moved graphs to moved graphs, with the same outcome. -/
theorem run {g g' : FlowGraph} (h : g.Moved ρ g') (hp : p.Moved ρ p') :
    Moved ρ (Round.run p g) (Round.run p' g') := by
  unfold Round.run
  rw [hp.functionIds]
  have hstart : Moved ρ { graph := g, snapshot := g.reachability Vertex.isTracked }
      { graph := g', snapshot := g'.reachability Vertex.isTracked } :=
    ⟨h, h.reachability, rfl⟩
  exact List.foldl_rel (r := Moved ρ) (hstart.markResults hp) fun f _ _ _ hr =>
    hr.connectFunction hp f

end Round.Moved

namespace FlowGraph.Moved

variable {g g' : FlowGraph} {p p' : Program}

/-- After each round the outcome decides whether there is a next one, so both run the same number.
-/
theorem runRounds (h : Moved ρ g g') (hp : p.Moved ρ p') (n : Nat) (stats : PropagationStats) :
    Moved ρ (Propagation.runRounds p n g stats).1 (Propagation.runRounds p' n g' stats).1 := by
  induction n generalizing g g' stats with
  | zero => exact h
  | succ n ih =>
    have hround := Round.Moved.run h hp
    unfold Propagation.runRounds
    dsimp only
    -- both stop now or both go on
    rw [hround.outcome]
    split
    · exact hround.graph
    · exact ih hround.graph _

theorem propagate (h : Moved ρ g g') (hp : p.Moved ρ p') :
    Moved ρ (Propagation.run p g).1 (Propagation.run p' g').1 := by
  unfold Propagation.run
  rw [hp.edgeBound]
  exact h.runRounds hp _ _

/-- The same calls are found. -/
theorem extract (h : Moved ρ g g') (hp : p.Moved ρ p') :
    CallGraph.extract p' g' = CallGraph.extract p g := by
  -- what is added for one callee depends on numbers only
  have hadd : ∀ callee calls reached,
      CallGraph.addCallee g' callee calls reached = CallGraph.addCallee g callee calls reached := by
    intro callee calls reached
    have hcallee : ∀ v, (g'.vertex? v).bind Vertex.calleeOf? =
        (g.vertex? v).bind Vertex.calleeOf? := h.calleeAt?
    simp only [CallGraph.addCallee, hcallee]
  have hsource : CallGraph.addSource g' = CallGraph.addSource g := by
    funext state source
    simp only [CallGraph.addSource, h.callee?, hadd]
  have hids : g'.vertexIds = g.vertexIds := by
    rw [FlowGraph.vertexIds, FlowGraph.vertexIds, h.size]
  have hstart : CallGraph.start p' = CallGraph.start p := by
    rw [CallGraph.start, CallGraph.start, hp.size_calls]
  rw [CallGraph.extract, CallGraph.extract, hsource, hids, hstart, h.reachability]

end FlowGraph.Moved

/-! ## Files -/

namespace SourceFile

/-- The one file is the other with wrappers put around expressions, or taken off: they have the
same bare form once the ranges of each are moved. -/
structure AlikeBare (file file' : SourceFile) : Prop where
  path : file'.path = file.path
  bare : ∃ move move' : Span → Span, Function.Injective move ∧ Function.Injective move' ∧
    file'.module?.map (Module.bare move') = file.module?.map (Module.bare move)

end SourceFile

/-- The bare forms of files, of which the first to be read has the number `n`. -/
inductive Relocation.Bares (ρ : Relocation) : Nat → List SourceFile → List SourceFile → Prop
  | nil (n : Nat) : Bares ρ n [] []
  | unread {n : Nat} {file bare : SourceFile} {files bares : List SourceFile}
    (path : bare.path = file.path) (unreadable : file.module? = none)
    (unreadable' : bare.module? = none) (rest : Bares ρ n files bares) :
    Bares ρ n (file :: files) (bare :: bares)
  | read {n : Nat} {file bare : SourceFile} {files bares : List SourceFile} {m : Module}
    (path : bare.path = file.path) (readable : file.module? = some m)
    (readable' : bare.module? = some (m.bare (ρ.move ⟨n⟩)))
    (rest : Bares ρ (n + 1) files bares) :
    Bares ρ n (file :: files) (bare :: bares)

namespace Relocation

/-- The relocation of all files from `n + 1` on, and a place for those of file `n`. -/
def withFile (ρ : Relocation) (n : Nat) (move : Span → Span) (h : Function.Injective move) :
    Relocation where
  move file := if file.index = n then move else ρ.move file
  injective file := by
    split
    · exact h
    · exact ρ.injective file

theorem withFile_self (ρ : Relocation) (n : Nat) {move : Span → Span}
    (h : Function.Injective move) : (ρ.withFile n move h).move ⟨n⟩ = move :=
  if_pos rfl

/-- Files with larger numbers do not notice where those of an earlier one move. -/
theorem Bares.withFile {ρ : Relocation} {k n : Nat} {files bares : List SourceFile}
    (h : Bares ρ n files bares) (hk : k < n) {move : Span → Span}
    (hmove : Function.Injective move) : Bares (ρ.withFile k move hmove) n files bares := by
  induction h with
  | nil n => exact .nil n
  | unread path unreadable unreadable' rest ih => exact .unread path unreadable unreadable' (ih hk)
  | @read n _ _ _ _ m path readable readable' rest ih =>
    have hmoved : (ρ.withFile k move hmove).move ⟨n⟩ = ρ.move ⟨n⟩ := if_neg (Nat.ne_of_gt hk)
    refine .read path readable ?_ (ih (Nat.lt_succ_of_lt hk))
    rw [hmoved]
    exact readable'

/-- Files that are alike have one list of bare forms. -/
theorem exists_bares {files files' : List SourceFile}
    (h : List.Forall₂ SourceFile.AlikeBare files files') (n : Nat) :
    ∃ (ρ ρ' : Relocation) (bares : List SourceFile), ρ.Bares n files bares ∧
      ρ'.Bares n files' bares := by
  induction h generalizing n with
  | nil => exact ⟨.stay, .stay, [], .nil n, .nil n⟩
  | @cons file file' files files' hfile _ ih =>
    obtain ⟨move, move', hmove, hmove', hbare⟩ := hfile.bare
    cases hm : file.module? with
    -- a file that is not read has no number, so that no move is needed for it
    | none =>
      obtain ⟨ρ, ρ', bares, hbares, hbares'⟩ := ih n
      have hm' : file'.module? = none := by
        rw [hm, Option.map_none, Option.map_eq_none_iff] at hbare
        exact hbare
      exact ⟨ρ, ρ', file :: bares, .unread rfl hm hm hbares,
        .unread hfile.path.symm hm' hm hbares'⟩
    | some m =>
      obtain ⟨ρ, ρ', bares, hbares, hbares'⟩ := ih (n + 1)
      rw [hm, Option.map_some, Option.map_eq_some_iff] at hbare
      obtain ⟨m', hm', hbare⟩ := hbare
      -- the common bare file keeps the path and the lines of the first
      let bare : SourceFile :=
        { file with reading := { file.reading with items := some (m.bare move).items } }
      have hread : bare.module? = some (m.bare move) := rfl
      refine ⟨ρ.withFile n move hmove, ρ'.withFile n move' hmove', bare :: bares,
        .read rfl hm ?_ (hbares.withFile n.lt_succ_self hmove),
        .read hfile.path.symm hm' ?_ (hbares'.withFile n.lt_succ_self hmove')⟩
      · rw [withFile_self, hread]
      · rw [withFile_self, hread, hbare]

end Relocation

/-- The files of one list are those of the other, moved. -/
structure FilesFlow.Moved (ρ : Relocation) (built built' : FilesFlow) : Prop where
  flow : built.flow.Moved ρ built'.flow
  records : built'.records = built.records

namespace FilesFlow.Moved

variable {built built' : FilesFlow}

/-- Building bare forms does what building the files does. -/
theorem foldl (h : Moved ρ built built') {n : Nat} (hn : built.flow.program.files.size = n)
    {files bares : List SourceFile} (hfiles : ρ.Bares n files bares) :
    Moved ρ (files.foldl add built) (bares.foldl add built') := by
  induction hfiles generalizing built built' with
  | nil => exact h
  | unread path unreadable unreadable' rest ih =>
    rw [List.foldl_cons, List.foldl_cons, add_of_none _ unreadable, add_of_none _ unreadable']
    exact ih ⟨h.flow, h.records⟩ hn
  | @read n file bare _ _ m path readable readable' rest ih =>
    -- the next file gets the number that the relocation was made for
    subst hn
    obtain ⟨hrecord, hflow⟩ := h.flow.addFile file.path file.lines bare.lines m
    rw [List.foldl_cons, List.foldl_cons, add_of_some _ readable, add_of_some _ readable', path]
    refine ih ⟨hflow, ?_⟩ ?_
    · show built'.records.push _ = built.records.push _
      rw [h.records, hrecord]
    · rw [(FlowState.gains_addFile _ _ _ _).files]
      exact Array.size_push _

theorem calls (h : Moved ρ built built') : built'.calls = built.calls := by
  have hlinked := Linking.Moved.run h.flow.graph built.records
  rw [FilesFlow.calls, FilesFlow.calls, FilesFlow.final, FilesFlow.final, FilesFlow.links,
    FilesFlow.links, h.records]
  exact (hlinked.graph.propagate h.flow.program).extract h.flow.program

end FilesFlow.Moved

namespace Analysis

/-- Built-in functions stand in no file. -/
theorem moved_seeded (ρ : Relocation) (natives : Bool) :
    (seeded natives).2.Moved ρ (seeded natives).2 := by
  have hprogram : Program.Moved ρ .empty .empty :=
    ⟨rfl, Array.map_empty.trans Array.map_empty.symm, .nil,
      Array.map_empty.trans Array.map_empty.symm⟩
  cases natives with
  | true =>
    have hseed : FlowGraph.Moved ρ (Builtin.seed .empty).2 (Builtin.seed .empty).2 :=
      FlowGraph.Moved.empty.seed
    rcases hseeds : Builtin.seed FlowGraph.empty with ⟨added, graph⟩
    rw [hseeds] at hseed
    rw [seeded_of_seed hseeds]
    exact ⟨hprogram, hseed, rfl, rfl⟩
  | false => exact ⟨hprogram, .empty, rfl, rfl⟩

theorem program_seeded (natives : Bool) : (seeded natives).2.program = .empty := by
  cases natives with
  | true => rw [seeded_true]
  | false => rfl

/-- The flow of files moves to that of their bare forms. -/
theorem moved_built (natives : Bool) {ρ : Relocation} {files bares : List SourceFile}
    (h : ρ.Bares 0 files bares) : (built natives files).Moved ρ (built natives bares) := by
  have hstart : FilesFlow.Moved ρ { flow := (seeded natives).2 } { flow := (seeded natives).2 } :=
    ⟨moved_seeded ρ natives, rfl⟩
  refine hstart.foldl ?_ h
  rw [program_seeded]
  rfl

/-- **Wrappers do not change the calls.** For files with the same bare forms the same calls have the
same callees, and calls and functions are the same, positions and names that a wrapper keeps from
a function aside. -/
theorem calls_run_alikeBare (options : AnalysisOptions) {files files' : List SourceFile}
    (h : List.Forall₂ SourceFile.AlikeBare files files') :
    (run options files').calls = (run options files).calls ∧
    ∃ ρ ρ' : Relocation,
      Program.Alike ρ ρ' (run options files).flow.program (run options files').flow.program := by
  obtain ⟨ρ, ρ', bares, hbares, hbares'⟩ := Relocation.exists_bares h 0
  have hmoved := moved_built options.natives hbares
  have hmoved' := moved_built options.natives hbares'
  rw [calls_run, calls_run, program_run, program_run]
  exact ⟨hmoved'.calls.symm.trans hmoved.calls, ρ, ρ',
    hmoved.flow.program.alike hmoved'.flow.program⟩

/-! ### A wrapped call -/

/-- The declarations behind a call, from a byte offset on: one function that calls its parameter,
and one that is passed to it. -/
def callbackItems (offset : Nat) : List ModuleItem := [
  .stmt (.decl (.function "g" (.mk [.pattern [] (.ident "x")]
    (.block [.expr (.call false ⟨offset + 16, offset + 19⟩ (.ident "x") [])])
    ⟨offset, offset + 22⟩))),
  .stmt (.decl (.function "h" (.mk [] (.block []) ⟨offset + 23, offset + 38⟩)))]

/-- A function passed to one that calls it. -/
def plainCall : SourceFile where
  path := ⟨"a.ts"⟩
  text := "g(h); function g(x) \x7b x(); \x7d function h() \x7b\x7d"
  dialect := .typeScript
  reading := ⟨some (.stmt (.expr (.call false ⟨0, 4⟩ (.ident "g") [.ident "h"])) ::
    callbackItems 6), []⟩

/-- The same program with parentheses and type assertions around callee and argument. -/
def wrappedCall : SourceFile where
  path := ⟨"a.ts"⟩
  text := "(g as any)((h)!); function g(x) \x7b x(); \x7d function h() \x7b\x7d"
  dialect := .typeScript
  reading := ⟨some (.stmt (.expr (.call false ⟨0, 16⟩ (.paren (.typed (.ident "g")))
    [.typed (.paren (.ident "h"))])) :: callbackItems 18), []⟩

/-- The wrapped call stays at the start of the file, and all else comes later. -/
def wrappedMove (span : Span) : Span :=
  ⟨if span.start = 0 then 0 else span.start + 12, span.stop + 12⟩

theorem wrappedMove_injective : Function.Injective wrappedMove := by
  rintro ⟨start, stop⟩ ⟨start', stop'⟩ h
  simp only [wrappedMove, Span.mk.injEq] at h ⊢
  split at h <;> split at h <;> omega

/-- A call in wrappers has its callee, and so has the call of what is passed to it. -/
theorem calls_run_alikeBare_example :
    List.Forall₂ SourceFile.AlikeBare [plainCall] [wrappedCall] ∧
    (run { natives := false } [plainCall]).calls.edges =
      [(⟨0⟩, .function ⟨0⟩), (⟨1⟩, .function ⟨1⟩)] ∧
    (run { natives := false } [wrappedCall]).calls.edges =
      [(⟨0⟩, .function ⟨0⟩), (⟨1⟩, .function ⟨1⟩)] := by
  have halike : List.Forall₂ SourceFile.AlikeBare [plainCall] [wrappedCall] :=
    .cons ⟨rfl, wrappedMove, id, wrappedMove_injective, Function.injective_id, rfl⟩ .nil
  have hplain : (run { natives := false } [plainCall]).calls.edges =
      [(⟨0⟩, .function ⟨0⟩), (⟨1⟩, .function ⟨1⟩)] := by decide +kernel
  refine ⟨halike, hplain, ?_⟩
  rw [(calls_run_alikeBare { natives := false } halike).1]
  exact hplain

end Analysis

end CallFlow
