import CallFlow.Proofs.Analysis.Phases
import CallFlow.Proofs.CallGraph.OnDemand

/-!
# More files, more calls

Two runs of propagation over different graphs go through different rounds, but both find what flows
along the exhaustive edges, and these can only become more. So an analysis of more files finds all
calls that an analysis of fewer files finds, if all that is resolved there leads to the same files.
-/

namespace CallFlow

/-! ## More edges -/

/-- The one program has what the other has, under the same numbers. -/
structure Program.Extends (p p' : Program) : Prop where
  file? : ∀ i path, p.file? i = some path → p'.file? i = some path
  function? : ∀ f x, p.function? f = some x → p'.function? f = some x
  call? : ∀ c x, p.call? c = some x → p'.call? c = some x

section

variable {p p' : Program} {G G' : FlowGraph}

theorem Program.Extends.refl (p : Program) : p.Extends p :=
  ⟨fun _ _ => id, fun _ _ => id, fun _ _ => id⟩

/-- What may be passed stays so: functions and calls keep their parameters and arguments. -/
theorem Transfer.mono (h : p.Extends p') {f : FunctionId} {c : CallId} {a b : Vertex}
    (ht : Transfer p f c a b) : Transfer p' f c a b := by
  cases ht with
  | result hf hc => exact .result (h.function? _ _ hf) (h.call? _ _ hc)
  | argument hf hc hslot => exact .argument (h.function? _ _ hf) (h.call? _ _ hc) hslot

/-- Exhaustive edges become more with the edges of the graph and with the program. -/
theorem exhaustive_mono (h : p.Extends p') (hedges : G.edgeSet ⊆ G'.edgeSet) :
    exhaustive p G ⊆ exhaustive p' G' := by
  -- the edges of the larger graph are closed under all that closes those of the smaller
  obtain ⟨hgraph, hclosed⟩ := (exhaustive_isLeast p' G').1
  exact (exhaustive_isLeast p G).2 ⟨hedges.trans hgraph,
    fun f c a b hflow ht => hclosed f c a b hflow (ht.mono h)⟩

/-- Callees become more. -/
theorem CallGraph.callees_mono (h : p.Extends p') (hreg : CalleesRegistered p G)
    (hreg' : CalleesRegistered p' G') (hedges : G.edgeSet ⊆ G'.edgeSet) {c : CallId}
    {callee : Callee} (hcallee : callee ∈ (extract p (Propagation.run p G).1).callees c) :
    callee ∈ (extract p' (Propagation.run p' G').1).callees c := by
  rw [mem_callees_extract ((Propagation.grown_run hreg).1.calleesRegistered hreg),
    ← flows_run_iff hreg] at hcallee
  rw [mem_callees_extract ((Propagation.grown_run hreg').1.calleesRegistered hreg'),
    ← flows_run_iff hreg']
  exact hcallee.mono (exhaustive_mono h hedges)

end

/-! ## One more file -/

/-- The specifiers of what a module imports and requires. -/
def ModuleRecord.specifiers (record : ModuleRecord) : List String :=
  record.imports.toList.map ImportBinding.specifier ++
    record.requires.toList.map RequireCall.specifier

/-- A reference of the module has its specifier in the record. -/
theorem ModuleRecord.Denotes.specifier_mem {graph : FlowGraph} {record : ModuleRecord}
    {view : ModuleView} (h : record.Denotes graph view) {r : Reference}
    (hr : r ∈ view.references) : r.specifier ∈ record.specifiers := by
  rcases List.mem_append.1 hr with hr | hr
  · obtain ⟨i, hi, rfl⟩ := List.mem_map.1 hr
    obtain ⟨binding, hbinding, hspecifier, -⟩ := exists_mem_of_forall₂ h.imports hi
    exact List.mem_append_left _ (List.mem_map.2 ⟨binding, hbinding, hspecifier⟩)
  · obtain ⟨call, hcall, rfl⟩ := List.mem_map.1 hr
    rw [← h.requires] at hcall
    exact List.mem_append_right _ (List.mem_map.2 ⟨call, hcall, rfl⟩)

namespace FilesFlow

/-- What the modules of some files refer to among them, they refer to among others too. -/
def KeepsReferences (a b : FilesFlow) : Prop :=
  ∀ record ∈ a.records, ∀ specifier ∈ record.specifiers, ∀ k,
    Module.resolve (Linking.knownFiles a.records) record.path specifier = some k →
      Module.resolve (Linking.knownFiles b.records) record.path specifier = some k

variable {a b : FilesFlow} {part : FlowState} {added views : List ModuleView}

theorem Adds.extends (h : a.Adds part added b) : a.flow.program.Extends b.flow.program where
  file? i path hi := (h.flow.facts (.file i path)).2 (Or.inl hi)
  function? f x hf := (h.flow.facts (.function f x)).2 (Or.inl hf)
  call? c x hc := (h.flow.facts (.call c x)).2 (Or.inl hc)

/-- A reference leads to the same module as before. -/
theorem KeepsReferences.target? (h : a.KeepsReferences b) (hviews : a.Views views)
    {more : List ModuleView} (hviews' : b.Views (views ++ more)) {view : ModuleView}
    (hview : view ∈ views) {r : Reference} (hr : r ∈ view.references) {t : ModuleView}
    (ht : ModuleView.target? views view.path r.specifier = some t) :
    ModuleView.target? (views ++ more) view.path r.specifier = some t := by
  obtain ⟨record, hrecord, hdenotes⟩ := exists_mem_of_forall₂ hviews.denotes hview
  rw [← Module.resolve_places, ← Linking.knownFiles_eq (hviews.denotes.imp fun _ _ hd => hd.path)]
    at ht
  -- the reference is resolved to a position in the list
  obtain ⟨k, hk, hkt⟩ := Option.bind_eq_some_iff.1 ht
  rw [← Module.resolve_places, ← Linking.knownFiles_eq (hviews'.denotes.imp fun _ _ hd => hd.path)]
  refine Option.bind_eq_some_iff.2 ⟨k, ?_, ?_⟩
  · rw [← hdenotes.path] at hk ⊢
    exact h record (Array.mem_toList_iff.1 hrecord) _ (hdenotes.specifier_mem hr) k hk
  -- further modules come behind, so that the position means the same module
  · rw [List.getElem?_append_left (List.getElem?_eq_some_iff.1 hkt).1]
    exact hkt

/-- All edges are there after one more file. -/
theorem Adds.edgeSet_links_subset (h : a.Adds part added b) (hviews : a.Views views)
    (hkeeps : a.KeepsReferences b) : a.links.graph.edgeSet ⊆ b.links.graph.edgeSet := by
  have hviews' := h.views views hviews
  intro e he
  refine ((Linking.run_spec hviews'.denotes).edges e).2 ?_
  rcases ((Linking.run_spec hviews.denotes).edges e).1 he with hold | ⟨hjoined, hne⟩
  · exact Or.inl ((h.flow.facts (.edge e)).2 (Or.inl hold))
  · obtain ⟨view, hview, he⟩ := List.mem_flatMap.1 hjoined
    obtain ⟨r, hr, he⟩ := List.mem_flatMap.1 he
    -- the reference that joined the two leads to the same module as before
    refine Or.inr ⟨List.mem_flatMap.2 ⟨view, List.mem_append_left _ hview, ?_⟩, hne⟩
    refine List.mem_flatMap.2 ⟨r, hr, ?_⟩
    rw [ModuleView.joined] at he ⊢
    cases ht : ModuleView.target? views view.path r.specifier with
    | none =>
      rw [ht] at he
      cases he
    | some t =>
      rw [ht] at he
      rw [hkeeps.target? hviews hviews' hview hr ht]
      exact he

/-- If a further file redirects no reference, all calls are found again. -/
theorem Adds.edges_subset (h : a.Adds part added b) (hviews : a.Views views)
    (hkeeps : a.KeepsReferences b) : a.calls.edges ⊆ b.calls.edges := by
  rintro ⟨c, callee⟩ he
  simp only [calls, CallGraph.edges_extract, List.mem_flatMap, List.mem_map, Round.mem_callIds,
    Array.mem_toList_iff, Prod.mk.injEq] at he ⊢
  obtain ⟨_, ⟨site, hsite⟩, _, hcallee, rfl, rfl⟩ := he
  -- the call is there in the larger program too
  refine ⟨_, ⟨site, h.extends.call? _ _ hsite⟩, _, ?_, rfl, rfl⟩
  exact CallGraph.callees_mono h.extends (calleesRegistered_links h.flow.sound hviews)
    (calleesRegistered_links h.flow.sound_later (h.views views hviews))
    (h.edgeSet_links_subset hviews hkeeps) hcallee

end FilesFlow

namespace Analysis

theorem exists_views (natives : Bool) (files : List SourceFile) :
    (built natives files).flow.Sound ∧ ∃ views, (built natives files).Views views := by
  obtain ⟨views, h⟩ :=
    (FilesFlow.Mirrors.start (.refl (sound_seeded natives))).foldl files
  exact ⟨h.flow.sound, views, h.views⟩

/-- **More files, more calls.** If all that is resolved among some files leads to the same files
once there is one more, then all call edges are found that were found before, between the same
calls and functions. In general, propagation over more edges finds more callees. -/
theorem run_mono :
    (∀ (options : AnalysisOptions) (files : List SourceFile) (file : SourceFile),
      (built options.natives files).KeepsReferences (built options.natives (files ++ [file])) →
        (run options files).flow.program.Extends (run options (files ++ [file])).flow.program ∧
        ∀ e ∈ (run options files).calls.edges, e ∈ (run options (files ++ [file])).calls.edges) ∧
    ∀ (program : Program) (G G' : FlowGraph), CalleesRegistered program G →
      CalleesRegistered program G' → G.edgeSet ⊆ G'.edgeSet → ∀ c callee,
        callee ∈ (CallGraph.extract program (Propagation.run program G).1).callees c →
          callee ∈ (CallGraph.extract program (Propagation.run program G').1).callees c := by
  refine ⟨fun options files file hkeeps => ?_, fun program G G' hreg hreg' hedges c callee =>
    CallGraph.callees_mono (.refl program) hreg hreg' hedges⟩
  -- the last file is added to what the others have built
  have hlater : built options.natives (files ++ [file]) =
      (built options.natives files).add file := List.foldl_append
  obtain ⟨hsound, views, hviews⟩ := exists_views options.natives files
  obtain ⟨part, added, hadds⟩ := FilesFlow.exists_adds file
  rw [hlater] at hkeeps
  rw [program_run, program_run, calls_run, calls_run, hlater]
  exact ⟨(hadds _ hsound).extends, (hadds _ hsound).edges_subset hviews hkeeps⟩

/-- A file that calls a function of the same name. -/
def bystander : SourceFile where
  path := ⟨"other.js"⟩
  text := "f()"
  dialect := .javaScript
  reading := ⟨some [.stmt (.expr (.call false ⟨0, 3⟩ (.ident "f") []))], []⟩

/-- The graph of the example with one more edge. -/
def moreEdges : FlowGraph :=
  (Example.graph.connect (.func Example.passed) (.callee Example.outer)).2

/-- The imported function is still called once there is one more file, and what is passed in the
example is still called once there is one more edge. -/
theorem run_mono_example :
    (built false [library, importer]).KeepsReferences
      (built false ([library, importer] ++ [bystander])) ∧
    (⟨0⟩, .function ⟨0⟩) ∈
      (run { natives := false } ([library, importer] ++ [bystander])).calls.edges ∧
    CalleesRegistered Example.program Example.graph ∧
    CalleesRegistered Example.program moreEdges ∧
    Example.graph.edgeSet ⊆ moreEdges.edgeSet ∧
    .function Example.passed ∈ (CallGraph.extract Example.program
      (Propagation.run Example.program moreEdges).1).callees Example.inner := by
  -- a third file that neither of the two refers to
  have hkeeps : (built false [library, importer]).KeepsReferences
      (built false ([library, importer] ++ [bystander])) := by
    have hsame : ∀ record ∈ (built false [library, importer]).records.toList,
        ∀ specifier ∈ record.specifiers,
          Module.resolve (Linking.knownFiles
              (built false ([library, importer] ++ [bystander])).records) record.path specifier =
            Module.resolve (Linking.knownFiles (built false [library, importer]).records)
              record.path specifier := by
      decide +kernel
    intro record hrecord specifier hspecifier k hk
    exact (hsame record (Array.mem_toList_iff.2 hrecord) specifier hspecifier).trans hk
  have hcalled : (⟨0⟩, .function ⟨0⟩) ∈
      (run { natives := false } [library, importer]).calls.edges := by
    decide +kernel
  have hpassed : .function Example.passed ∈ (CallGraph.extract Example.program
      (Propagation.run Example.program Example.graph).1).callees Example.inner := by
    decide +kernel
  -- the further edge leads to a call that is registered
  have hreg : CalleesRegistered Example.program moreEdges := by
    intro c hc
    rcases (FlowGraph.has_connect ..).1 hc with hold | hfunc | hcallee
    · exact Example.calleesRegistered c hold
    · cases hfunc
    · cases hcallee
      exact ⟨_, rfl⟩
  have hedges : Example.graph.edgeSet ⊆ moreEdges.edgeSet := by
    rw [moreEdges, FlowGraph.edgeSet_connect _ (by simp)]
    exact Set.subset_insert _ _
  obtain ⟨hfiles, hgeneral⟩ := run_mono
  obtain ⟨-, hmore⟩ := hfiles { natives := false } [library, importer] bystander hkeeps
  exact ⟨hkeeps, hmore _ hcalled, Example.calleesRegistered, hreg, hedges,
    hgeneral _ _ _ Example.calleesRegistered hreg hedges _ _ hpassed⟩

end Analysis

end CallFlow
