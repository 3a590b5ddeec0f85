import CallFlow.Proofs.Analysis.Phases
import CallFlow.Proofs.Flow.Census
import CallFlow.Proofs.Module.Dependencies

/-!
# The order of files

Everything is numbered as it is met, so that the numbers depend on the order of the files. What an
analysis shows and counts does not. A file that could not be read leaves its path and nothing else.
-/

namespace CallFlow

/-- The files that could be read. -/
def SourceFile.readable (files : List SourceFile) : List SourceFile :=
  files.filter fun file => file.module?.isSome

/-- The paths of the files that could not be read. -/
def SourceFile.unreadable (files : List SourceFile) : List Path :=
  (files.filter fun file => file.module?.isNone).map SourceFile.path

open SourceFile (readable unreadable)

namespace FilesFlow

/-! ## Files that could not be read -/

/-- Files that could not be read leave their paths only. -/
theorem foldl_add_readable (built : FilesFlow) (failures : Array Path) (files : List SourceFile) :
    files.foldl add { built with failures } =
      { (readable files).foldl add built with
        failures := failures ++ (unreadable files).toArray } := by
  -- the failures are apart from all else, since no file looks at them
  induction files generalizing built failures with
  | nil => simp [readable, unreadable]
  | cons file files ih =>
    cases hm : file.module? with
    | none =>
      have hreadable : readable (file :: files) = readable files := by simp [readable, hm]
      have hunreadable : unreadable (file :: files) = file.path :: unreadable files := by
        simp [unreadable, hm]
      have hfailures : failures ++ (file.path :: unreadable files).toArray =
          failures.push file.path ++ (unreadable files).toArray := by simp
      rw [List.foldl_cons, add_of_none _ hm, hreadable, hunreadable, hfailures]
      exact ih built (failures.push file.path)
    | some m =>
      have hreadable : readable (file :: files) = file :: readable files := by
        simp [readable, hm]
      have hunreadable : unreadable (file :: files) = unreadable files := by
        simp [unreadable, hm]
      have hadd : add { built with failures } file = { built.add file with failures } := by
        rw [add_of_some _ hm, add_of_some built hm]
      rw [List.foldl_cons, hreadable, hunreadable, List.foldl_cons, hadd]
      exact ih (built.add file) failures

/-! ## The paths of modules -/

/-- The module of a file has the path of the file. -/
theorem path_addFile {flow : FlowState} (h : flow.Sound) (path : Path) (lines : LineTable)
    (m : Syntax.Module) : (flow.addFile path lines m).1.path = path := by
  obtain ⟨view, -, -, hfiles, hdenotes⟩ := FlowState.exists_view path lines m
  have hown : #[view.path] = #[path] :=
    hfiles.symm.trans (FlowState.gains_addFile {} path lines m).files
  rw [(hdenotes flow h).path]
  exact Array.singleton_inj.1 hown

/-- Every file that could be read has a module with its path. -/
theorem map_path_foldl {built : FilesFlow} (h : built.flow.Sound) (files : List SourceFile) :
    (files.foldl add built).records.toList.map ModuleRecord.path =
      built.records.toList.map ModuleRecord.path ++ (readable files).map SourceFile.path := by
  induction files generalizing built with
  | nil => exact (List.append_nil _).symm
  | cons file files ih =>
    obtain ⟨part, added, hadds⟩ := exists_adds file
    rw [List.foldl_cons, ih (hadds built h).flow.sound_later]
    cases hm : file.module? with
    -- a file that is not read leaves no module
    | none =>
      rw [add_of_none built hm]
      simp [readable, hm]
    | some m =>
      rw [add_of_some built hm]
      simp [readable, hm, path_addFile h]

/-! ## Two states -/

namespace Mirrors

variable {ρ : Renaming} {a b : FilesFlow} {views views' : List ModuleView}

/-- Every edge of the call graph can be shown. -/
theorem exists_shown (h : a.flow.Sound) (hviews : a.Views views) :
    ∀ e ∈ a.calls.edges, ∃ edge, CallEdge.of a.flow.program e.1 e.2 = .ok edge := by
  intro e he
  obtain ⟨⟨site, hsite⟩, hcallee⟩ :=
    CallGraph.known_of_mem_edges (calleesRegistered_final h hviews) he
  exact h.exists_edge (Array.getElem?_eq_some_iff.1 hsite).1 (within_of_has_callee h hviews hcallee)

variable (h : Mirrors ∅ ρ a b views views') (hmatched : ModuleView.Matched ρ views views')
include h hmatched

theorem edges_perm :
    b.calls.edges.Perm (a.calls.edges.map fun e => (ρ.callId e.1, ρ.callee e.2)) :=
  CallGraph.edges_perm (h.final hmatched).2 h.flow.program
    (calleesRegistered_final h.flow.sound h.views)

/-- The edges that are shown are the same. -/
theorem render_perm :
    ∃ shown shown', a.calls.render a.flow.program = .ok shown ∧
      b.calls.render b.flow.program = .ok shown' ∧ shown'.Perm shown :=
  CallGraph.render_perm h.flow.program (h.edges_perm hmatched)
    (exists_shown h.flow.sound h.views)

theorem dependencies_perm :
    b.links.dependencies.toList.Perm (a.links.dependencies.toList.map ρ.dependency) := by
  rw [FilesFlow.links, FilesFlow.links, Linking.dependencies_run h.views.denotes,
    Linking.dependencies_run h.views'.denotes]
  exact hmatched.noted_perm h.views.files h.views'.files

theorem edgeCount_calls : b.calls.edgeCount = a.calls.edgeCount := by
  rw [FilesFlow.calls, FilesFlow.calls, ← CallGraph.length_edges_extract,
    ← CallGraph.length_edges_extract]
  exact (h.edges_perm hmatched).length_eq.trans (List.length_map ..)

end Mirrors

end FilesFlow

namespace Analysis

/-- The dependencies of an analysis by the paths of the files. -/
def dependencyPaths (analysis : Analysis) : List (Option Path × Option Path × DependencyKind) :=
  let program := analysis.flow.program
  analysis.dependencies.toList.map fun d => (program.file? d.source, program.file? d.target, d.kind)

theorem built_readable (natives : Bool) (files : List SourceFile) :
    built natives files =
      { built natives (readable files) with failures := (unreadable files).toArray } := by
  have hfiles := FilesFlow.foldl_add_readable { flow := (seeded natives).2 } #[] files
  rw [Array.empty_append] at hfiles
  exact hfiles

/-- Only the failures tell files that could not be read. -/
theorem run_readable (options : AnalysisOptions) {files files' : List SourceFile}
    (h : readable files' = readable files) :
    run options files' = { run options files with parseFailures := unreadable files' } := by
  rw [run_eq, run_eq, built_readable _ files', built_readable _ files, h]
  generalize built options.natives (readable files) = b
  rfl

/-- Modules of files with different paths have different paths. -/
theorem apart_built {natives : Bool} {files : List SourceFile} {views : List ModuleView}
    (hdistinct : (files.map fun file => file.path.normalize.components).Nodup)
    (hviews : (built natives files).Views views) : ModuleView.Apart views := by
  have hpaths : views.map ModuleView.path = (readable files).map SourceFile.path :=
    (map_eq_of_forall₂ (hviews.denotes.imp fun _ _ hd => hd.path)).symm.trans
      (FilesFlow.map_path_foldl (sound_seeded natives) files)
  have hnormalized := congrArg (List.map fun path : Path => path.normalize.components) hpaths
  simp only [List.map_map, Function.comp_def] at hnormalized
  rw [ModuleView.Apart, hnormalized]
  exact hdistinct.sublist (List.filter_sublist.map _)

/-- All counters agree. Each counts something that a renaming keeps. -/
theorem stats_of_mirrors (options : AnalysisOptions) {files files' : List SourceFile}
    {ρ : Renaming} {views views' : List ModuleView}
    (h : FilesFlow.Mirrors ∅ ρ (built options.natives files) (built options.natives files') views
      views') (hmatched : ModuleView.Matched ρ views views') :
    (run options files').stats = (run options files).stats := by
  -- first what linking does, then what propagation does
  obtain ⟨hlinks, hlinked⟩ := h.links hmatched
  obtain ⟨hpropagation, hfinal⟩ := h.final hmatched
  have hprogram := h.flow.program
  have hregistered := FilesFlow.calleesRegistered_final h.flow.sound h.views
  rw [run_eq, run_eq]
  exact (AnalysisStats.mk.injEq ..).mpr ⟨hprogram.files, hprogram.functions, hprogram.calls,
    hfinal.vertexCount_eq, hlinks.edgeCount_same, hfinal.edgeCount_same, rfl, hlinked,
    hfinal.census_eq, hpropagation, h.edgeCount_calls hmatched,
    CallGraph.length_unresolvedCalls hfinal hprogram hregistered⟩

/-- Dependencies are shown by the paths of their files, which a renaming keeps. -/
theorem dependencyPaths_of_mirrors (options : AnalysisOptions) {files files' : List SourceFile}
    {ρ : Renaming} {views views' : List ModuleView}
    (h : FilesFlow.Mirrors ∅ ρ (built options.natives files) (built options.natives files') views
      views') (hmatched : ModuleView.Matched ρ views views') :
    (run options files').dependencyPaths.Perm (run options files).dependencyPaths := by
  simp only [dependencyPaths, dependencies_run, program_run]
  refine ((h.dependencies_perm hmatched).map _).trans (.of_eq ?_)
  rw [List.map_map]
  refine List.map_congr_left fun d _ => ?_
  simp only [Function.comp_apply, Renaming.dependency, h.flow.program.file?]

/-- **The order of files does not matter.** For files with different paths an analysis shows the
same edges, counts the same and finds the same dependencies in any order of the files, and files
that could not be read change nothing but the failures wherever they stand. -/
theorem run_order (options : AnalysisOptions) :
    (∀ files files' : List SourceFile, files'.Perm files →
      (files.map fun file => file.path.normalize.components).Nodup →
        (∃ shown shown', (run options files).edges = .ok shown ∧
          (run options files').edges = .ok shown' ∧ shown'.Perm shown) ∧
        (run options files').stats = (run options files).stats ∧
        (run options files').dependencyPaths.Perm (run options files).dependencyPaths) ∧
    ∀ files files' : List SourceFile, readable files' = readable files →
      run options files' =
        { run options files with parseFailures := unreadable files' } := by
  refine ⟨fun files files' hperm hdistinct => ?_, fun files files' => run_readable options⟩
  obtain ⟨ρ, views, views', h, hviews⟩ : (built options.natives files).Reordered
      (built options.natives files') :=
    .foldl hperm.symm (.refl (sound_seeded options.natives) (FilesFlow.views_start _))
  -- with different paths all references lead to the same modules in either order
  have hmatched := ModuleView.Matched.of_apart hviews (apart_built hdistinct h.views)
  refine ⟨?_, stats_of_mirrors options h hmatched, dependencyPaths_of_mirrors options h hmatched⟩
  rw [edges, edges, calls_run, calls_run, program_run, program_run]
  exact h.render_perm hmatched

/-- A file that could not be read. -/
def broken : SourceFile where
  path := ⟨"broken.js"⟩
  text := "f("
  dialect := .javaScript
  reading := ⟨none, [⟨.unexpectedEnd, ⟨2, 2⟩⟩]⟩

/-- The call and the dependency between two files are found in either order, and with a third file
in between that could not be read. -/
theorem run_order_example :
    [importer, library].Perm [library, importer] ∧
    ([library, importer].map fun file => file.path.normalize.components).Nodup ∧
    readable [importer, broken, library] = readable [importer, library] ∧
    (run { natives := false } [importer, library]).stats.callEdges = 1 ∧
    (run { natives := false } [importer, library]).dependencyPaths =
      [(some ⟨"main.js"⟩, some ⟨"lib.js"⟩, .imports)] ∧
    (run { natives := false } [importer, broken, library]).stats.callEdges = 1 := by
  have hperm : [importer, library].Perm [library, importer] := .swap ..
  have hdistinct :
      ([library, importer].map fun file => file.path.normalize.components).Nodup := by
    decide +kernel
  have hreadable : readable [importer, broken, library] = readable [importer, library] := by
    have hbroken : broken.module?.isSome = false := rfl
    simp [readable, List.filter_cons, hbroken]
  have hedges : (run { natives := false } [library, importer]).stats.callEdges = 1 := by
    decide +kernel
  have hpaths : (run { natives := false } [library, importer]).dependencyPaths =
      [(some ⟨"main.js"⟩, some ⟨"lib.js"⟩, .imports)] := by
    decide +kernel
  obtain ⟨hreordered, hinserted⟩ := run_order { natives := false }
  obtain ⟨-, hstats, hdependencies⟩ := hreordered _ _ hperm hdistinct
  rw [← hstats] at hedges
  rw [hpaths] at hdependencies
  refine ⟨hperm, hdistinct, hreadable, hedges, List.perm_singleton.1 hdependencies, ?_⟩
  rw [hinserted _ _ hreadable]
  -- keep the analysis closed, evaluating it again is slow
  generalize run { natives := false } [importer, library] = analysis at hedges ⊢
  exact hedges

end Analysis

end CallFlow
