import CallFlow.Flow.Propagation

/-!
# Orders of a round

A round takes calls and functions in ascending order. `Round.runIn` is the round with orders of
choice in place of these; `Round.run` is the case that ascends.
-/

namespace CallFlow

/-- Orders for a round: of the calls whose results it flags, of the functions, and for each
function of the calls that it is connected with. -/
structure Schedule (program : Program) where
  calls : List CallId
  functions : List FunctionId
  turns : FunctionId → List CallId → List CallId
  calls_perm : calls.Perm program.callIds
  functions_perm : functions.Perm program.functionIds
  turns_perm : ∀ f reached, (turns f reached).Perm reached

/-- Everything in ascending order. -/
def Schedule.ascending (program : Program) : Schedule program where
  calls := program.callIds
  functions := program.functionIds
  turns _ reached := reached.mergeSort fun a b => a.index ≤ b.index
  calls_perm := .refl _
  functions_perm := .refl _
  turns_perm _ reached := reached.mergeSort_perm _

namespace Round

variable {program : Program}

/-- Connects `f` with every call that may invoke it, in the order that `turns` brings them to. -/
def connectReached (program : Program) (turns : List CallId → List CallId) (f : FunctionId)
    (paramCount : Nat) (round : Round) : Round :=
  match round.graph.find? (.func f) with
  | none => round
  | some source =>
    let (reached, snapshot) := round.snapshot.query source
    (turns (reached.filterMap (calleeAt? round.graph))).foldl (connectCall program f paramCount)
      { round with snapshot }

/-- The turn of one function. -/
def connectScheduled (schedule : Schedule program) (round : Round) (f : FunctionId) : Round :=
  let paramCount := ((program.function? f).map Function.paramCount).getD 0
  connectReached program (schedule.turns f) f paramCount (markParameters f paramCount round)

/-- Flags the results of all calls. -/
def markScheduled (schedule : Schedule program) (round : Round) : Round :=
  schedule.calls.foldl (fun round call => round.markIfDemanded (.res call)) round

/-- A round in these orders. -/
def runIn (schedule : Schedule program) (graph : FlowGraph) : Round :=
  schedule.functions.foldl (connectScheduled schedule)
    (markScheduled schedule { graph, snapshot := graph.reachability Vertex.isTracked })

end Round

end CallFlow
