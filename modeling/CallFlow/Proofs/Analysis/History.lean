import CallFlow.Proofs.Analysis.Phases
import CallFlow.Proofs.FileFlow.LawfulFile

/-!
# Histories of a flow state

A history is anything that may be done to a flow state, in any order: built-in functions are seeded,
files are walked, modules are linked, and rounds are run. `History.Valid` holds at its start and is
kept by every step, hence it holds of all histories. An analysis is one of them.
-/

namespace CallFlow

/-- The state names what is there, and what is registered has its vertices. -/
structure FlowState.WellFormed (files : List WalkedFile) (s : FlowState) : Prop where
  vertices : ∀ v, s.graph.Has v → s.Names v
  functions : ∀ f function, s.program.function? f = some function → s.FunctionComplete f function
  calls : ∀ c site, s.program.call? c = some site → s.CallComplete files c site

/-- What has been done so far: the state, the records of the modules and the files walked. -/
structure History where
  flow : FlowState := {}
  records : Array ModuleRecord := #[]
  files : List WalkedFile := []

namespace History

/-- What may be done to the flow but propagate it. -/
inductive Build
  | seed
  | file (path : Path) (lines : LineTable) (module : Syntax.Module)
  /-- The records of these numbers are linked, as far as there are such. -/
  | link (chosen : List ℕ)

/-- A build or a round of propagation. -/
inductive Step
  | build (what : Build)
  | round

/-- The same history with another graph. -/
def withGraph (h : History) (graph : FlowGraph) : History :=
  { h with flow := { h.flow with graph } }

@[simp]
theorem graph_withGraph (h : History) (graph : FlowGraph) :
    (h.withGraph graph).flow.graph = graph := rfl

@[simp]
theorem records_withGraph (h : History) (graph : FlowGraph) :
    (h.withGraph graph).records = h.records := rfl

@[simp]
theorem files_withGraph (h : History) (graph : FlowGraph) :
    (h.withGraph graph).files = h.files := rfl

/-- The records of these numbers. -/
def chosen (h : History) (numbers : List ℕ) : Array ModuleRecord :=
  (numbers.filterMap (h.records[·]?)).toArray

/-- What a build does. -/
def build (h : History) : Build → History
  | .seed => h.withGraph (Builtin.seed h.flow.graph).2
  | .file path lines m =>
    let (record, flow) := h.flow.addFile path lines m
    { flow, records := h.records.push record, files := h.files ++ [h.flow.next lines m] }
  | .link numbers => h.withGraph (Linking.run h.flow.graph (h.chosen numbers)).graph

/-- What a step does. -/
def step (h : History) : Step → History
  | .build what => h.build what
  | .round => h.withGraph (Round.run h.flow.program h.flow.graph).graph

/-- The history of these steps. -/
def after (steps : List Step) : History := steps.foldl step {}

theorem after_append (steps later : List Step) :
    after (steps ++ later) = later.foldl step (after steps) :=
  List.foldl_append

theorem after_map_build (whats : List Build) :
    after (whats.map .build) = whats.foldl build {} :=
  List.foldl_map

/-- Rounds change the graph only. -/
theorem foldl_round (h : History) (n : ℕ) :
    (List.replicate n .round).foldl step h =
      h.withGraph (Propagation.rounds h.flow.program n h.flow.graph).1 := by
  induction n generalizing h with
  | zero => rfl
  | succ n ih => exact ih (h.step .round)

/-! ## What every step keeps -/

/-- The state is well formed, its names are bound to its symbols, and the records stand for views
of modules. -/
structure Valid (h : History) : Prop where
  wellFormed : h.flow.WellFormed h.files
  closed : h.flow.symbols.Closed
  records : ∀ record ∈ h.records, ∃ view, record.Denotes h.flow.graph view ∧ view.Directed

/-- Nothing is registered at the start, so that there is nothing to be said of it. -/
theorem valid_start : Valid {} where
  wellFormed := ⟨fun v hv => absurd hv (FlowGraph.not_has_empty v), nofun, nofun⟩
  closed := nofun
  records := nofun

/-- A graph that only grows takes nothing away. -/
theorem later_withGraph {h : History} {graph : FlowGraph}
    (hkeeps : ∀ v id, h.flow.graph.find? v = some id → graph.find? v = some id)
    (hedges : h.flow.graph.edgeSet ⊆ graph.edgeSet) : h.flow.Later (h.withGraph graph).flow :=
  { FlowState.Later.refl h.flow with vertices := hkeeps, edges := hedges }

namespace Valid

variable {h : History}

/-- The views of chosen records. -/
theorem exists_views (hvalid : h.Valid) (numbers : List ℕ) :
    ∃ views, List.Forall₂ (fun record view => record ∈ h.records ∧
      record.Denotes h.flow.graph view ∧ view.Directed) (h.chosen numbers).toList views := by
  refine exists_forall₂ fun record hmem => ?_
  obtain ⟨k, -, hk⟩ := List.mem_filterMap.1 hmem
  have hrecord := Array.mem_of_getElem? hk
  exact (hvalid.records record hrecord).imp fun view hview => ⟨hrecord, hview⟩

/-- Whatever is built, nothing of the state is lost. -/
theorem later_build (hvalid : h.Valid) (what : Build) : h.flow.Later (h.build what).flow := by
  -- each kind of build keeps the numbers, the edges and the entries that are there
  cases what with
  | seed =>
    have hedges := (Builtin.seed_spec h.flow.graph).2.1
    exact later_withGraph (fun v id => Builtin.find?_seed h.flow.graph)
      fun e he => (hedges e).2 (Or.inl he)
  | file path lines m =>
    have hopened := FlowState.Later.opened h.flow path
    exact hopened.trans (FlowState.grows_addFile hvalid.closed path lines m).later
  | link numbers =>
    -- the records are those of walked files, hence their vertices are there
    obtain ⟨views, hviews⟩ := hvalid.exists_views numbers
    have hadds := Linking.run_spec (hviews.imp fun _ _ hd => hd.2.1)
    exact later_withGraph hadds.keeps fun e he => (hadds.edges e).2 (Or.inl he)

/-- No step loses anything of the state. -/
theorem later_step (hvalid : h.Valid) (s : Step) : h.flow.Later (h.step s).flow := by
  cases s with
  | build what => exact hvalid.later_build what
  | round =>
    have hextends := Propagation.extends_round h.flow.program h.flow.graph
    exact later_withGraph (fun v id hv => hextends.find? hv) hextends.edgeSet

/-- A graph that only gets vertices which name what is there. -/
theorem withGraph (hvalid : h.Valid) {graph : FlowGraph}
    (hlater : h.flow.Later (h.withGraph graph).flow)
    (hnew : ∀ v, graph.Has v → h.flow.graph.Has v ∨ h.flow.Names v) :
    (h.withGraph graph).Valid := by
  refine ⟨⟨fun v hv => ?_, fun f function hf => ?_, fun c site hc => ?_⟩, hvalid.closed,
    fun record hrecord => ?_⟩
  · exact hlater.names ((hnew v hv).elim (hvalid.wellFormed.vertices v) id)
  · exact (hvalid.wellFormed.functions f function hf).later hlater
  · exact (hvalid.wellFormed.calls c site hc).later hlater
  · exact (hvalid.records record hrecord).imp fun view =>
      And.imp_left fun hd => hd.mono hlater.vertices

theorem seed (hvalid : h.Valid) : (h.build .seed).Valid := by
  refine hvalid.withGraph (hvalid.later_build .seed) fun v hv => ?_
  refine (((Builtin.seed_spec h.flow.graph).1 v).1 hv).imp_right ?_
  rintro ⟨name, -, rfl | rfl⟩ <;> exact trivial

/-- Linking adds properties and edges between what the files have. -/
theorem link (hvalid : h.Valid) (numbers : List ℕ) : (h.build (.link numbers)).Valid := by
  obtain ⟨views, hviews⟩ := hvalid.exists_views numbers
  have hdenotes := hviews.imp fun _ _ hd => hd.2.1
  refine hvalid.withGraph (hvalid.later_build (.link numbers)) fun v hv => ?_
  refine (Linking.has_run hdenotes hv).imp_right ?_
  rintro ⟨name, rfl⟩
  exact trivial

/-- A file registers what it adds vertices for. -/
theorem file (hvalid : h.Valid) (path : Path) (lines : LineTable) (m : Syntax.Module) :
    (h.build (.file path lines m)).Valid := by
  have hopened := FlowState.Later.opened h.flow path
  have hgrows := FlowState.grows_addFile hvalid.closed path lines m
  have hlater := hvalid.later_build (.file path lines m)
  have hempty : ∃ view, (h.flow.opened path).record.Denotes (h.flow.opened path).flow.graph view ∧
      view.Directed :=
    ⟨{ file := ⟨h.flow.program.files.size⟩, path },
      ⟨⟨rfl, rfl, .nil, .nil, rfl⟩, List.forall_mem_nil _⟩,
      List.forall_mem_nil _, List.forall_mem_nil _⟩
  -- what was there before stays as it is; what is new is complete at the end of the walk
  refine ⟨⟨?_, fun f function hf => ?_, fun c site hc => ?_⟩, hgrows.closed hvalid.closed,
    fun record hrecord => ?_⟩
  · exact hgrows.names fun v hv => hopened.names (hvalid.wellFormed.vertices v hv)
  · rcases hgrows.functions hf with hold | ⟨hnew, -⟩
    · exact (hvalid.wellFormed.functions f function hold).later hlater
    · exact hnew
  · rcases hgrows.calls hc with hold | ⟨hnew, -⟩
    · exact ((hvalid.wellFormed.calls c site hold).later hlater).mono
        (List.subset_append_left _ _)
    · exact hnew.mono (List.subset_append_right _ _)
  · rcases Array.mem_push.1 hrecord with hold | rfl
    · exact (hvalid.records record hold).imp fun view =>
        And.imp_left fun hd => hd.mono hlater.vertices
    · exact hgrows.record hempty

theorem build (hvalid : h.Valid) (what : Build) : (h.build what).Valid := by
  cases what with
  | seed => exact hvalid.seed
  | file path lines m => exact hvalid.file path lines m
  | link numbers => exact hvalid.link numbers

/-- What a round adds are results of functions and arguments of calls that are there. -/
theorem round (hvalid : h.Valid) : (h.step .round).Valid := by
  have hextends := Propagation.extends_round h.flow.program h.flow.graph
  refine hvalid.withGraph (hvalid.later_step .round) fun v hv => ?_
  refine (hextends.newVertices v hv).imp_right ?_
  rintro ⟨w, -, hexchange⟩
  -- a round adds results and arguments of registered calls only
  cases hexchange with
  | result hf _ => exact ⟨_, hf⟩
  | argument _ hc hslot =>
    obtain ⟨site, hsite⟩ := hvalid.wellFormed.vertices _ hc
    rw [Program.argCount, hsite] at hslot
    exact ⟨site, hsite, hslot.trans (Nat.min_le_right _ _)⟩

theorem step (hvalid : h.Valid) (s : Step) : (h.step s).Valid := by
  cases s with
  | build what => exact hvalid.build what
  | round => exact hvalid.round

end Valid

/-- **Every history is valid.** -/
theorem valid_after (steps : List Step) : (after steps).Valid :=
  List.foldlRecOn steps step valid_start fun _ hvalid s _ => hvalid.step s

/-- What holds at the start and is kept by each of some steps holds after them. -/
theorem after_induction {motive : History → Prop} {steps : List Step} (start : motive {})
    (step : ∀ s ∈ steps, ∀ h : History, h.Valid → motive h → motive (h.step s)) :
    motive (after steps) :=
  (List.foldlRecOn (motive := fun h => h.Valid ∧ motive h) steps History.step
    ⟨valid_start, start⟩ fun h hh s hs => ⟨hh.1.step s, step s hs h hh.1 hh.2⟩).2

/-- The files of a history are the modules that it builds, as the program numbers them. -/
theorem files_after (steps : List Step) : ∀ file ∈ (after steps).files,
    ∃ path, .build (.file path file.lines file.module) ∈ steps ∧
      (after steps).flow.program.file? file.id = some path := by
  refine after_induction (motive := fun h => ∀ file ∈ h.files,
    ∃ path, .build (.file path file.lines file.module) ∈ steps ∧
      h.flow.program.file? file.id = some path) nofun fun s hs h hvalid hfiles => ?_
  have hlater := hvalid.later_step s
  -- the files that were there stay under their numbers
  have hold : ∀ file ∈ h.files, ∃ path, .build (.file path file.lines file.module) ∈ steps ∧
      (h.step s).flow.program.file? file.id = some path := fun file hfile =>
    (hfiles file hfile).imp fun path => And.imp_right (hlater.files file.id path)
  cases s with
  | round => exact hold
  | build what =>
    cases what with
    -- no file is walked here
    | seed | link _ =>
      intro file hfile
      rw [step, build, files_withGraph] at hfile
      exact hold file hfile
    | file path lines m =>
      -- the new file gets the next number
      refine List.forall_mem_append.2 ⟨hold, List.forall_mem_singleton.2 ⟨path, hs, ?_⟩⟩
      have hgrows := FlowState.grows_addFile hvalid.closed path lines m
      exact hgrows.later.files _ path Array.getElem?_push_size

/-! ## An analysis is a history -/

/-- The building of files, as far as they could be read. -/
def builds (files : List SourceFile) : List Build :=
  files.filterMap fun file => file.module?.map (.file file.path file.lines)

/-- The files that are read are built as the flow of files builds them, and the others change
nothing. -/
theorem foldl_builds (files : List SourceFile) {h : History} {built : FilesFlow}
    (hflow : h.flow = built.flow) (hrecords : h.records = built.records) :
    let later := (builds files).foldl build h
    later.flow = (files.foldl FilesFlow.add built).flow ∧
      later.records = (files.foldl FilesFlow.add built).records := by
  induction files generalizing h built with
  | nil => exact ⟨hflow, hrecords⟩
  | cons file files ih =>
    cases hm : file.module? with
    | none =>
      -- a file that is not read has no build
      have hbuilds : builds (file :: files) = builds files :=
        List.filterMap_cons_none (by rw [hm, Option.map_none])
      rw [hbuilds, List.foldl_cons, FilesFlow.add_of_none built hm]
      exact ih hflow hrecords
    | some m =>
      have hbuilds : builds (file :: files) = .file file.path file.lines m :: builds files :=
        List.filterMap_cons_some (by rw [hm, Option.map_some])
      rw [hbuilds, List.foldl_cons, List.foldl_cons, FilesFlow.add_of_some built hm]
      have hflow' := congrArg (FlowState.addFile · file.path file.lines m) hflow
      exact ih (congrArg Prod.snd hflow')
        (congrArg₂ Array.push hrecords (congrArg Prod.fst hflow'))

/-- Looking up all numbers gives the whole list. -/
theorem filterMap_range {α : Type} (as : List α) :
    (List.range as.length).filterMap (as[·]?) = as := by
  induction as with
  | nil => rfl
  | cons a as ih =>
    rw [List.length_cons, List.range_succ_eq_map]
    have hrest : ((List.range as.length).map Nat.succ).filterMap ((a :: as)[·]?) = as :=
      (List.filterMap_map ..).trans ih
    exact (List.filterMap_cons_some (f := ((a :: as)[·]?)) rfl).trans (congrArg (a :: ·) hrest)

/-- All records may be chosen, in their order. -/
theorem chosen_range (h : History) : h.chosen (List.range h.records.size) = h.records := by
  have hrange := filterMap_range h.records.toList
  simp only [Array.length_toList, Array.getElem?_toList] at hrange
  rw [chosen, hrange]

/-- The history with its flow propagated to the end. -/
def propagated (h : History) : History :=
  h.withGraph (Propagation.run h.flow.program h.flow.graph).1

/-- Propagation is so many rounds. -/
theorem exists_propagated_eq (whats : List Build) :
    ∃ n, after (whats.map .build ++ List.replicate n .round) =
      (after (whats.map .build)).propagated := by
  let h := after (whats.map .build)
  obtain ⟨n, hrun⟩ := Propagation.exists_run_eq h.flow.program h.flow.graph
  refine ⟨n, ?_⟩
  rw [after_append, foldl_round, propagated, hrun]

/-- What an analysis builds before it links is a history that builds nothing but its files. -/
theorem exists_after_eq_built (natives : Bool) (files : List SourceFile) :
    ∃ whats : List Build,
      (∀ path lines m, .file path lines m ∈ whats → .file path lines m ∈ builds files) ∧
      (after (whats.map .build)).flow = (Analysis.built natives files).flow ∧
      (after (whats.map .build)).records = (Analysis.built natives files).records := by
  -- the history starts with the built-in functions if the analysis does
  obtain ⟨seeds, hnofile, hseeds⟩ : ∃ seeds : List Build,
      (∀ path lines m, .file path lines m ∉ seeds) ∧
      after (seeds.map .build) = { flow := (Analysis.seeded natives).2 } := by
    cases natives with
    | false => exact ⟨[], fun _ _ _ => List.not_mem_nil, rfl⟩
    | true =>
      refine ⟨[.seed], by simp, ?_⟩
      rw [Analysis.seeded_true]
      rfl
  refine ⟨seeds ++ builds files, fun path lines m hmem => ?_, ?_⟩
  · exact (List.mem_append.1 hmem).resolve_left (hnofile path lines m)
  -- then it builds the files, one after the other
  · rw [after_map_build, List.foldl_append, ← after_map_build]
    exact foldl_builds files (by rw [hseeds]) (by rw [hseeds])

/-- All modules are linked. -/
theorem build_link_range {h : History} {built : FilesFlow} (hflow : h.flow = built.flow)
    (hrecords : h.records = built.records) :
    h.build (.link (List.range h.records.size)) = h.withGraph built.links.graph := by
  rw [build, chosen_range, hflow, hrecords]
  rfl

/-- An analysis builds nothing but its files, and propagates what it has built. -/
theorem exists_propagated_eq_run (options : AnalysisOptions) (files : List SourceFile) :
    ∃ whats : List Build,
      (∀ path lines m, .file path lines m ∈ whats → .file path lines m ∈ builds files) ∧
      (after (whats.map .build)).propagated.flow = (Analysis.run options files).flow := by
  let built := Analysis.built options.natives files
  obtain ⟨whats, hbuilds, hflow, hrecords⟩ := exists_after_eq_built options.natives files
  let h := after (whats.map .build)
  -- all records are linked in their order, and then the rounds are run
  refine ⟨whats ++ [.link (List.range h.records.size)], fun path lines m hmem => ?_, ?_⟩
  · exact hbuilds path lines m ((List.mem_append.1 hmem).resolve_right (by simp))
  · rw [after_map_build, List.foldl_append, ← after_map_build, List.foldl_cons, List.foldl_nil,
      build_link_range hflow hrecords, Analysis.run_eq]
    show { h.flow with graph := (Propagation.run h.flow.program built.links.graph).1 } =
      { built.flow with graph := built.final.1 }
    rw [hflow]
    rfl

/-- **An analysis is a history**: everything is built, then rounds are run. -/
theorem exists_after_eq_run (options : AnalysisOptions) (files : List SourceFile) :
    ∃ (whats : List Build) (n : ℕ),
      (after (whats.map .build ++ List.replicate n .round)).flow =
        (Analysis.run options files).flow := by
  obtain ⟨whats, -, hrun⟩ := exists_propagated_eq_run options files
  obtain ⟨n, hrounds⟩ := exists_propagated_eq whats
  exact ⟨whats, n, by rw [hrounds, hrun]⟩

/-! ### A file that requires another -/

/-- A file that offers a function by default. -/
def offering : SourceFile where
  path := ⟨"lib.js"⟩
  text := "export default function (x) \x7b return x \x7d"
  dialect := .javaScript
  reading := ⟨some [.exportDefaultFunction none
    (.mk [.pattern [] (.ident "x")] (.block [.ret (some (.ident "x"))]) ⟨15, 40⟩)], []⟩

/-- A file that requires it, gives it a function and calls what it returns. -/
def requiring : SourceFile where
  path := ⟨"main.js"⟩
  text := "let f = require('./lib'); f(() => 0)()"
  dialect := .javaScript
  reading := ⟨some [
    .stmt (.decl (.vars .let [.mk (.ident "f")
      (some (.call false ⟨8, 24⟩ (.ident "require") [.string "./lib"]))])),
    .stmt (.expr (.call false ⟨26, 38⟩ (.call false ⟨26, 36⟩ (.ident "f")
      [.arrow (.mk [] (.expr .literal) ⟨28, 35⟩)]) []))], []⟩

/-- Both files, linked. -/
def linked : List Build := builds [offering, requiring] ++ [.link [0, 1]]

end History

end CallFlow
