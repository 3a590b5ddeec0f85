import CallFlow.Flow.Reachability

/-!
# Call graphs

The callees of a call are the functions, written or built in, from which its callee vertex is
reached. A call without callees is unresolved; since the analysis tells what may happen, such
calls are to be expected.
-/

namespace CallFlow

/-- Something that a call may invoke. -/
inductive Callee
  | function (id : FunctionId)
  | native (name : String)
deriving DecidableEq, Repr, Inhabited

namespace Callee

def ofVertex? : Vertex → Option Callee
  | .func f => some (.function f)
  | .native name => some (.native name)
  | _ => none

def vertex : Callee → Vertex
  | .function f => .func f
  | .native name => .native name

end Callee

/-- For every call of a program, by number, the callees found for it, and how many were found for
all calls together. -/
structure CallGraph where
  sites : Array (Array Callee) := #[]
  edgeCount : Nat := 0
deriving Repr, Inhabited

namespace CallGraph

/-- The call graph of a program before any callee is found. -/
def start (program : Program) : CallGraph where
  sites := Array.replicate program.calls.size #[]

/-- Gives `callee` to a call and counts it; a call that is not in the program gets none. -/
def push (calls : CallGraph) (call : CallId) (callee : Callee) : CallGraph :=
  if call.index < calls.sites.size then
    { sites := calls.sites.modify call.index (·.push callee)
      edgeCount := calls.edgeCount + 1 }
  else calls

/-- Gives `callee` to the calls whose callee vertices are among `reached`. -/
def addCallee (graph : FlowGraph) (callee : Callee) (calls : CallGraph)
    (reached : List VertexId) : CallGraph :=
  reached.foldl
    (fun calls v =>
      match (graph.vertex? v).bind Vertex.calleeOf? with
      | some call => calls.push call callee
      | none => calls)
    calls

/-- Gives the function of vertex number `source`, if it is one, to every call that it reaches. -/
def addSource (graph : FlowGraph) (state : CallGraph × Reachability) (source : VertexId) :
    CallGraph × Reachability :=
  match (graph.vertex? source).bind Callee.ofVertex? with
  | some callee =>
    let (reached, snapshot) := state.2.query source
    (addCallee graph callee state.1 reached, snapshot)
  | none => state

/-- The call graph of a program whose flow is complete. -/
def extract (program : Program) (graph : FlowGraph) : CallGraph :=
  (graph.vertexIds.foldl (addSource graph)
    (start program, graph.reachability Vertex.isTracked)).1

/-- The callees of a call, in the order of their vertices; none for an unknown call. -/
def callees (calls : CallGraph) (call : CallId) : Array Callee :=
  calls.sites.getD call.index #[]

def isResolved (calls : CallGraph) (call : CallId) : Bool :=
  !(calls.callees call).isEmpty

def callCount (calls : CallGraph) : Nat :=
  calls.sites.size

/-- Every call with each of its callees, in call order. -/
def edges (calls : CallGraph) : List (CallId × Callee) :=
  (List.range calls.sites.size).flatMap fun k =>
    (calls.callees ⟨k⟩).toList.map fun callee => (⟨k⟩, callee)

/-- Visits every call with each of its callees, in call order; `visit` may change a state. -/
def forEach {σ : Type} (calls : CallGraph) (visit : σ → CallId → Callee → σ) (state : σ) : σ :=
  (List.range calls.sites.size).foldl
    (fun state k => (calls.callees ⟨k⟩).foldl (fun state callee => visit state ⟨k⟩ callee) state)
    state

/-- The calls without callees, ascending. -/
def unresolvedCalls (calls : CallGraph) : List CallId :=
  ((List.range calls.sites.size).map (⟨·⟩)).filter fun call => !calls.isResolved call

end CallGraph

end CallFlow
