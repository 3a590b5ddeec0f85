import CallFlow.Flow.Reachability

/-!
# Propagation between functions

A call may invoke every function that reaches its callee. Its arguments then flow into the
parameters of that function, and the result of the function into the result of the call. Such
an edge is added on demand only: where the vertex it leads to is `interesting`, that is, leads
to a callee itself. Rounds are run until one of them adds no edge.
-/

namespace CallFlow

/-- How flow between functions is to be found. -/
inductive Strategy
  | demand
  | full
deriving DecidableEq, Repr, Inhabited

namespace Strategy

def text : Strategy → String
  | .demand => "demand"
  | .full => "full"

/-- The strategy that runs: exhaustive propagation is not available, so it degrades. -/
def effective : Strategy → Strategy
  | .demand | .full => .demand

/-- Reads a strategy in letters of either case; fails with the text in lower case. -/
def ofText (s : String) : Except String Strategy :=
  let lower := String.ofList (s.toList.map Char.toLower)
  if lower = "demand" then .ok .demand
  else if lower = "full" then .ok .full
  else .error lower

/-- What is said of a text that names no strategy. -/
def unknownMessage (s : String) : String :=
  "unknown strategy '" ++ s ++ "'"

end Strategy

/-- What a round has done. -/
structure RoundOutcome where
  edgesAdded : Nat := 0
  newlyInteresting : Nat := 0
deriving DecidableEq, Repr, Inhabited

/-- What a whole run has done; `interesting` counts the flags set at its end. -/
structure PropagationStats where
  rounds : Nat := 0
  edgesAdded : Nat := 0
  interesting : Nat := 0
deriving DecidableEq, Repr, Inhabited

/-- The graph during a round, the snapshot that questions are put to, and the counts so far. -/
structure Round where
  graph : FlowGraph
  snapshot : Reachability
  outcome : RoundOutcome := {}
deriving Inhabited

namespace Round

/-- Adds an edge and counts it if it is new. -/
def addEdge (round : Round) (source target : VertexId) : Round :=
  let (isNew, graph) := round.graph.addEdge source target
  { round with
    graph
    outcome := { round.outcome with
      edgesAdded := round.outcome.edgesAdded + if isNew then 1 else 0 } }

/-- The call of which a vertex number is the callee. -/
def calleeAt? (graph : FlowGraph) (id : VertexId) : Option CallId :=
  (graph.vertex? id).bind Vertex.calleeOf?

/-- Flags `v` if the snapshot has a callee that it leads to. -/
def markIfDemanded (round : Round) (v : Vertex) : Round :=
  match round.graph.find? v with
  | none => round
  | some id =>
    if round.graph.isInteresting id then round
    else
      let (demanded, snapshot) :=
        round.snapshot.queryAny id fun w => (calleeAt? round.graph w).isSome
      if demanded then
        { graph := (round.graph.markInteresting id).2
          snapshot
          outcome := { round.outcome with
            newlyInteresting := round.outcome.newlyInteresting + 1 } }
      else { round with snapshot }

/-- Adds the edge `source → target` if `target` is a flagged vertex of the graph; `source` is
added to the graph if need be. -/
def connectDemanded (source : Vertex) (round : Round) (target : Vertex) : Round :=
  match round.graph.find? target with
  | none => round
  | some t =>
    if round.graph.isInteresting t then
      let (s, graph) := round.graph.intern source
      { round with graph }.addEdge s t
    else round

/-- Lets the result of `f` flow to the result of a call that may invoke it, and the arguments of
that call, the receiver included, to the parameters that it has arguments for. Only registered calls
are given here. For a call that is not registered the analyser stops with an error; here such a call
counts as one without arguments. -/
def connectCall (program : Program) (f : FunctionId) (paramCount : Nat) (round : Round)
    (call : CallId) : Round :=
  let round := round.connectDemanded (.ret f) (.res call)
  let argCount := ((program.call? call).map CallSite.argCount).getD 0
  (List.range (min paramCount argCount + 1)).foldl
    (fun round slot => round.connectDemanded (.arg call slot) (.param f slot)) round

/-- Flags the results of all calls. -/
def markResults (program : Program) (round : Round) : Round :=
  program.callIds.foldl (fun round call => round.markIfDemanded (.res call)) round

/-- Flags the parameters of `f`, the receiver included. -/
def markParameters (f : FunctionId) (paramCount : Nat) (round : Round) : Round :=
  (List.range (paramCount + 1)).foldl
    (fun round slot => round.markIfDemanded (.param f slot)) round

/-- Connects `f` with every call that may invoke it, in ascending order. -/
def connectCalls (program : Program) (f : FunctionId) (paramCount : Nat) (round : Round) : Round :=
  match round.graph.find? (.func f) with
  | none => round
  | some source =>
    let (reached, snapshot) := round.snapshot.query source
    ((reached.filterMap (calleeAt? round.graph)).mergeSort fun a b => a.index ≤ b.index).foldl
      (connectCall program f paramCount) { round with snapshot }

/-- The turn of one function in a round. -/
def connectFunction (program : Program) (round : Round) (f : FunctionId) : Round :=
  let paramCount := ((program.function? f).map Function.paramCount).getD 0
  connectCalls program f paramCount (markParameters f paramCount round)

/-- One round: all questions of reachability are put to the graph as it is at the start. -/
def run (program : Program) (graph : FlowGraph) : Round :=
  program.functionIds.foldl (connectFunction program)
    (markResults program { graph, snapshot := graph.reachability Vertex.isTracked })

end Round

namespace Propagation

/-- The number of edges that propagation can add between a function and a call: for the result,
the receiver and the arguments that have a parameter. -/
def pairBound (f : Function) (c : CallSite) : Nat :=
  2 + min f.paramCount c.argCount

/-- The number of edges that propagation can add. -/
def edgeBound (program : Program) : Nat :=
  (program.functions.toList.flatMap fun f => program.calls.toList.map (pairBound f)).foldr
    (· + ·) 0

/-- Rounds until one adds no edge, at most `n`. -/
def runRounds (program : Program) :
    Nat → FlowGraph → PropagationStats → FlowGraph × PropagationStats
  | 0, graph, stats => (graph, stats)
  | n + 1, graph, stats =>
    let round := Round.run program graph
    let stats := { stats with
      rounds := stats.rounds + 1
      edgesAdded := stats.edgesAdded + round.outcome.edgesAdded }
    if round.outcome.edgesAdded = 0 then (round.graph, stats)
    else runRounds program n round.graph stats

/-- Rounds until one adds no edge. Every round but the last adds one, so there is one round more
than edges to add, at most. -/
def run (program : Program) (graph : FlowGraph) : FlowGraph × PropagationStats :=
  let (graph, stats) := runRounds program (edgeBound program + 1) graph {}
  (graph, { stats with interesting := graph.interestingCount })

end Propagation

end CallFlow
