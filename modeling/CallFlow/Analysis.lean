import CallFlow.Analysis.Options
import CallFlow.CallGraph.Endpoint
import CallFlow.FileFlow.Module
import CallFlow.Flow.Builtin
import CallFlow.Flow.CallbackCensus
import CallFlow.Module.Linking
import CallFlow.SourceFile

/-!
# Analysis

The analysis of a list of files in phases: the built-in functions are seeded, the flow of each
file is built, the modules are linked, the flow between functions is propagated, and the call
graph is extracted.
-/

namespace CallFlow

structure AnalysisStats where
  files : Nat
  functions : Nat
  calls : Nat
  vertices : Nat
  /-- Flow edges before propagation. -/
  intraproceduralEdges : Nat
  flowEdges : Nat
  nativesSeeded : Nat
  links : LinkStats
  callbacks : CallbackStats
  propagation : PropagationStats
  callEdges : Nat
  unresolvedCalls : Nat
deriving Repr, Inhabited

/-- What is known of a list of files after all phases. -/
structure Analysis where
  flow : FlowState
  calls : CallGraph
  /-- Files that import or require other files. -/
  dependencies : Array ModuleDependency
  stats : AnalysisStats
  /-- Files that could not be read. -/
  parseFailures : List Path
deriving Inhabited

/-- The files of which the flow is built, and the records of their modules. -/
structure FilesFlow where
  flow : FlowState := {}
  records : Array ModuleRecord := #[]
  failures : Array Path := #[]
deriving Inhabited

namespace FilesFlow

/-- Builds the flow of one more file, or notes that it could not be read. -/
def add (files : FilesFlow) (file : SourceFile) : FilesFlow :=
  match file.module? with
  | none => { files with failures := files.failures.push file.path }
  | some m =>
    let (record, flow) := files.flow.addFile file.path file.lines m
    { files with flow, records := files.records.push record }

/-- Builds the flow of files in their order. -/
def build (flow : FlowState) (files : List SourceFile) : FilesFlow :=
  files.foldl add { flow }

end FilesFlow

namespace Analysis

/-- The flow state with the built-in functions in it, if they are wanted, and their number. -/
def seeded (natives : Bool) : Nat × FlowState :=
  if natives then
    let (added, graph) := Builtin.seed FlowGraph.empty
    (added, { graph })
  else (0, {})

/-- Analyses files in their order. Either strategy propagates on demand. -/
def run (options : AnalysisOptions) (files : List SourceFile) : Analysis :=
  let (nativesSeeded, flow) := seeded options.natives
  let built := FilesFlow.build flow files
  let program := built.flow.program
  let links := Linking.run built.flow.graph built.records
  let (graph, propagation) := Propagation.run program links.graph
  let calls := CallGraph.extract program graph
  { flow := { built.flow with graph }
    calls
    dependencies := links.dependencies
    stats := {
      files := program.files.size
      functions := program.functions.size
      calls := program.calls.size
      vertices := graph.vertexCount
      intraproceduralEdges := links.graph.edgeCount
      flowEdges := graph.edgeCount
      nativesSeeded
      links := links.stats
      callbacks := CallbackStats.ofGraph graph
      propagation
      callEdges := calls.edgeCount
      unresolvedCalls := calls.unresolvedCalls.length }
    parseFailures := built.failures.toList }

/-- All edges of the call graph, ready to be shown. -/
def edges (analysis : Analysis) : Except EndpointError (List CallEdge) :=
  analysis.calls.render analysis.flow.program

end Analysis

end CallFlow
