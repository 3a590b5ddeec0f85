import CallFlow.Analysis
import CallFlow.Decimal.Shortest
import CallFlow.Report.Style

/-!
# Reports in lines

The call graph, the flow graph, the dependencies and the counts of an analysis as lines of text.
-/

namespace CallFlow.Report

/-- Lines, each with its end. -/
def unlines (lines : List String) : String :=
  String.join (lines.map (· ++ "\n"))

/-- A call and one of its callees on a line. -/
def callLine (colored : Bool) (program : Program) (edge : CallId × Callee) :
    Except EndpointError String := do
  let source ← program.vertexLine (.callee edge.1)
  let target ← program.vertexLine edge.2.vertex
  return styled colored .cyan source ++ " " ++ styled colored .dimmed "->" ++ " " ++
    styled colored .green target

/-- A line for each call edge, in call order. -/
def callGraph (colored : Bool) (analysis : Analysis) : Except EndpointError String := do
  return unlines (← analysis.calls.edges.mapM (callLine colored analysis.flow.program))

/-- A line for each flow edge. Vertices that name something unknown have none. -/
def flowGraph (analysis : Analysis) : String :=
  let flow := analysis.flow
  unlines (flow.graph.edges.filterMap (flow.graph.edgeLine? flow.program flow.symbols))

/-- How many functions are written as arguments. -/
def callbackCount (analysis : Analysis) : String :=
  let census := analysis.stats.callbacks
  unlines ["Callbacks: " ++ toString census.callbacks ++ " function arguments at " ++
    toString census.calls ++ " call sites"]

/-- A dependency between files on a line; `none` if one of them is unknown. -/
def dependencyLine? (program : Program) (d : ModuleDependency) : Option String := do
  let source ← program.file? d.source
  let target ← program.file? d.target
  return source.text ++ " -> " ++ target.text

/-- A line for each file with a file that it takes something from. -/
def dependencies (analysis : Analysis) : String :=
  unlines (analysis.dependencies.toList.filterMap (dependencyLine? analysis.flow.program))

/-- The counts of an analysis on one line. -/
def summary (colored : Bool) (analysis : Analysis) : String :=
  let stats := analysis.stats
  let style := if stats.unresolvedCalls > 0 then Style.yellow else Style.green
  unlines [styled colored .boldGreen "✓" ++ " " ++ toString stats.files ++ " files, " ++
    toString stats.functions ++ " functions, " ++ toString stats.calls ++ " call sites, " ++
    toString stats.callEdges ++ " call edges, " ++
    styled colored style (toString stats.unresolvedCalls) ++ " unresolved"]

/-- The phases of which the times are told, in order. -/
def phases : List String :=
  ["parsing", "natives", "intraprocedural", "linking", "propagation", "extraction"]

/-- A title, filled up with blanks to a width. -/
def padded (width : Nat) (title : String) : String :=
  title ++ String.ofList (List.replicate (width - title.length) ' ')

/-- A time in microseconds, as milliseconds with three places. -/
def milliseconds (time : Nat) : String :=
  let text := toString (time / 1000) ++ "." ++ paddedDigits (time % 1000) 3
  String.ofList (List.replicate (10 - text.length) ' ') ++ text ++ "ms"

/-- A line for the time of each phase, in microseconds, and one for their sum. A phase whose time is
not known counts as none. -/
def timings (colored : Bool) (times : List Nat) : String :=
  let known := (times ++ List.replicate phases.length 0).take phases.length
  let lines := (phases.zip known).map fun (phase, time) =>
    padded 16 phase ++ " " ++ milliseconds time
  let total := known.foldl (· + ·) 0
  unlines (lines ++ [styled colored .bold (padded 16 "total") ++ " " ++ milliseconds total])

end CallFlow.Report
