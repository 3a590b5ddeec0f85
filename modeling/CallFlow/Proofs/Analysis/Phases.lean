import CallFlow.Proofs.Analysis.Files
import CallFlow.Proofs.Analysis.Seeding
import CallFlow.Proofs.CallGraph.Mirror
import CallFlow.Proofs.Module.Mirror

/-!
# The phases of an analysis

After the files have been built, their modules are linked, the flow between functions is
propagated, and the call graph is extracted. States that say the same up to a renaming still do
after each of these phases. None of them changes what is numbered, and the vertices of functions
keep their order.
-/

namespace CallFlow

namespace FilesFlow

/-- The modules of the files, linked. -/
def links (built : FilesFlow) : Linking := Linking.run built.flow.graph built.records

/-- The complete flow of the files, and what propagation has done. -/
def final (built : FilesFlow) : FlowGraph × PropagationStats :=
  Propagation.run built.flow.program built.links.graph

/-- The call graph of the files. -/
def calls (built : FilesFlow) : CallGraph := .extract built.flow.program built.final.1

end FilesFlow

namespace Analysis

/-- The files of an analysis, built behind the built-in functions that are wanted. -/
def built (natives : Bool) (files : List SourceFile) : FilesFlow :=
  .build (seeded natives).2 files

/-- An analysis by its phases. -/
theorem run_eq (options : AnalysisOptions) (files : List SourceFile) :
    let built := built options.natives files
    run options files =
      { flow := { built.flow with graph := built.final.1 }
        calls := built.calls
        dependencies := built.links.dependencies
        stats := {
          files := built.flow.program.files.size
          functions := built.flow.program.functions.size
          calls := built.flow.program.calls.size
          vertices := built.final.1.vertexCount
          intraproceduralEdges := built.links.graph.edgeCount
          flowEdges := built.final.1.edgeCount
          nativesSeeded := (seeded options.natives).1
          links := built.links.stats
          callbacks := CallbackStats.ofGraph built.final.1
          propagation := built.final.2
          callEdges := built.calls.edgeCount
          unresolvedCalls := built.calls.unresolvedCalls.length }
        parseFailures := built.failures.toList } := by
  unfold run built
  -- the built-in functions are the same on both sides, whatever they are
  generalize seeded options.natives = seeds
  rfl

section

variable (options : AnalysisOptions) (files : List SourceFile)

theorem program_run :
    (run options files).flow.program = (built options.natives files).flow.program := by
  rw [run_eq]

theorem graph_run : (run options files).flow.graph = (built options.natives files).final.1 := by
  rw [run_eq]

theorem calls_run : (run options files).calls = (built options.natives files).calls := by
  rw [run_eq]

theorem dependencies_run :
    (run options files).dependencies = (built options.natives files).links.dependencies := by
  rw [run_eq]

theorem links_run :
    (run options files).stats.links = (built options.natives files).links.stats := by
  rw [run_eq]

theorem propagation_run :
    (run options files).stats.propagation = (built options.natives files).final.2 := by
  rw [run_eq]

end

/-! ### Two files -/

/-- A file that exports a function. -/
def library : SourceFile where
  path := ⟨"lib.js"⟩
  text := "export function f() \x7b\x7d"
  dialect := .javaScript
  reading := ⟨some [.exportDecl (.function "f" (.mk [] (.block []) ⟨7, 22⟩))], []⟩

/-- A file that imports the function and calls it. -/
def importer : SourceFile where
  path := ⟨"main.js"⟩
  text := "import \x7bf\x7d from './lib'; f()"
  dialect := .javaScript
  reading := ⟨some [.importNames "./lib" [.named "f" "f"],
    .stmt (.expr (.call false ⟨25, 28⟩ (.ident "f") []))], []⟩

end Analysis

/-! ## One state -/

namespace FilesFlow

variable {built : FilesFlow} {views : List ModuleView}

/-- Linking adds no call. -/
theorem calleesRegistered_links (h : built.flow.Sound) (hviews : built.Views views) :
    CalleesRegistered built.flow.program built.links.graph := by
  intro c hc
  rcases Linking.has_run hviews.denotes hc with hold | ⟨_, hprop⟩
  · obtain ⟨site, hsite, -⟩ := h.exists_call (h.vertices _ hold)
    exact ⟨site, hsite⟩
  · cases hprop

/-- Functions and callees that are there at the end were there when the files had been built. -/
theorem has_final (h : built.flow.Sound) (hviews : built.Views views) {v : Vertex}
    (hv : built.final.1.Has v) :
    built.flow.graph.Has v ∨ (∃ name, v = .prop name) ∨ (∃ f, v = .ret f) ∨
      ∃ c slot, v = .arg c slot := by
  have hgrown := (Propagation.grown_run (calleesRegistered_links h hviews)).1
  rcases hgrown.fresh v hv with hlinked | hnew
  · exact (Linking.has_run hviews.denotes hlinked).imp_right Or.inl
  · exact Or.inr (Or.inr hnew)

theorem calleesRegistered_final (h : built.flow.Sound) (hviews : built.Views views) :
    CalleesRegistered built.flow.program built.final.1 :=
  have hreg := calleesRegistered_links h hviews
  (Propagation.grown_run hreg).1.calleesRegistered hreg

/-- What can be called is in use. -/
theorem within_of_has_callee (h : built.flow.Sound) (hviews : built.Views views)
    {callee : Callee} (hv : built.final.1.Has callee.vertex) :
    callee.vertex.Within built.flow.extent := by
  rcases has_final h hviews hv with hold | ⟨_, h⟩ | ⟨_, h⟩ | ⟨_, _, h⟩
  · exact h.vertices _ hold
  all_goals cases callee <;> cases h

/-- The vertices of functions keep their order. -/
theorem functionsInOrder_final (h : built.flow.Sound) (hviews : built.Views views) :
    built.final.1.FunctionsInOrder := by
  -- no function comes in after the files have been built, and none gets another number
  obtain ⟨_, hextends, -⟩ := Propagation.extends_run built.flow.program built.links.graph
  have hlinked := (Linking.run_spec hviews.denotes).keeps
  refine h.inOrder.of_keeps (fun v id hv => hextends.find? (hlinked v id hv)) fun f hf => ?_
  rcases has_final h hviews hf with hold | ⟨_, hf⟩ | ⟨_, hf⟩ | ⟨_, _, hf⟩
  · exact hold
  all_goals cases hf

/-! ## Two states -/

namespace Mirrors

variable {extra : Set String} {ρ : Renaming} {a b : FilesFlow} {views views' : List ModuleView}
  (h : Mirrors extra ρ a b views views') (hmatched : ModuleView.Matched ρ views views')
include h hmatched

/-- Linking leads mirrored states to mirrored graphs, with the same counters. -/
theorem links :
    a.links.graph.Mirrors extra ρ b.links.graph ∧ b.links.stats = a.links.stats :=
  ⟨Linking.mirrors_run h.flow.graph h.views.denotes h.views'.denotes hmatched,
    Linking.stats_run h.flow.graph h.views.denotes h.views'.denotes hmatched⟩

theorem final :
    b.final.2 = a.final.2 ∧ a.final.1.Mirrors extra ρ b.final.1 :=
  (h.links hmatched).1.propagate h.flow.program
    (calleesRegistered_links h.flow.sound h.views)

end Mirrors

end FilesFlow

/-! ## Counts -/

namespace Analysis

/-- Whatever propagation adds to the edges of an analysis is counted. -/
theorem flowEdges_run (options : AnalysisOptions) (files : List SourceFile) :
    let stats := (run options files).stats
    stats.flowEdges = stats.intraproceduralEdges + stats.propagation.edgesAdded := by
  rw [run_eq]
  obtain ⟨_, hextends, hcount⟩ := Propagation.extends_run
    (built options.natives files).flow.program (built options.natives files).links.graph
  exact hextends.edgeCount.trans (congrArg _ hcount.symm)

end Analysis

/-- **Propagation only adds, and counts exactly.** So do any number of rounds over any graph, so
does a run, which is rounds, and so do the edge counts of an analysis tell what propagation did. -/
theorem Propagation.rounds_only_add (program : Program) (G : FlowGraph) :
    (∀ n, Extends program G (rounds program n G).1 (rounds program n G).2) ∧
    (∃ n, run program G = ((rounds program n G).1,
      { rounds := n
        edgesAdded := (rounds program n G).2.edgesAdded
        interesting := (rounds program n G).1.interestingCount })) ∧
    ∀ options files, (Analysis.run options files).stats.flowEdges =
      (Analysis.run options files).stats.intraproceduralEdges +
        (Analysis.run options files).stats.propagation.edgesAdded :=
  ⟨fun n => extends_rounds program n G, exists_run_eq program G, Analysis.flowEdges_run⟩

end CallFlow
