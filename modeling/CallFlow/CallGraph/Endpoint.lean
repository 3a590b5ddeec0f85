import CallFlow.CallGraph.Basic
import CallFlow.Binding.Symbol

/-!
# Showing vertices and call edges

A call edge has two endpoints: the call, labelled with the function around it, and the callee.
A built-in callee has no place.
-/

namespace CallFlow

/-- What stands for the file of a built-in function. -/
def nativeFile : String := "Native"

/-- A row and a column, both absent for a built-in function. -/
structure Point where
  row : Option Nat
  column : Option Nat
deriving DecidableEq, Repr, Inhabited

structure ByteRange where
  start : Option Nat
  stop : Option Nat
deriving DecidableEq, Repr, Inhabited

/-- One side of a call edge. -/
structure Endpoint where
  label : String
  file : String
  start : Point
  stop : Point
  range : ByteRange
deriving DecidableEq, Repr, Inhabited

/-- A call edge ready to be shown. -/
structure CallEdge where
  source : Endpoint
  target : Endpoint
deriving DecidableEq, Repr, Inhabited

/-- Why a vertex cannot be shown as an endpoint. -/
inductive EndpointError
  | unexpectedVertex (kind : VertexKind)
  /-- A file, function or call that the program does not have. -/
  | unregistered
deriving DecidableEq, Repr, Inhabited

def EndpointError.message : EndpointError → String
  | .unexpectedVertex kind =>
    "unexpected vertex kind " ++ kind.text ++ " where a call site or function was expected"
  | .unregistered => "unregistered file, function or call"

/-- A missing entry of the program as an error. -/
def EndpointError.require {α : Type} : Option α → Except EndpointError α
  | some a => .ok a
  | none => .error .unregistered

namespace Endpoint

def located (label file : String) (place : Location) : Endpoint where
  label
  file
  start := ⟨some place.start.line, some place.start.column⟩
  stop := ⟨some place.stop.line, some place.stop.column⟩
  range := ⟨some place.span.start, some place.span.stop⟩

def ofCall? (program : Program) (call : CallId) : Option Endpoint := do
  let site ← program.call? call
  let label ← program.enclosingName? call
  let path ← program.file? site.file
  return located label path.text site.location

def ofCallee? (program : Program) : Callee → Option Endpoint
  | .function f => do
    let function ← program.function? f
    let path ← program.file? function.file
    return located (Program.label function) path.text function.location
  | .native name => some ⟨name, nativeFile, ⟨none, none⟩, ⟨none, none⟩, ⟨none, none⟩⟩

/-- The endpoint of a vertex, which must be the callee of a call or a function. -/
def ofVertex (program : Program) (v : Vertex) : Except EndpointError Endpoint :=
  match v.calleeOf?, Callee.ofVertex? v with
  | some call, _ => EndpointError.require (ofCall? program call)
  | none, some callee => EndpointError.require (ofCallee? program callee)
  | none, none => .error (.unexpectedVertex v.kind)

end Endpoint

/-- A call with one of its callees. -/
def CallEdge.of (program : Program) (call : CallId) (callee : Callee) :
    Except EndpointError CallEdge := do
  let source ← Endpoint.ofVertex program (.callee call)
  let target ← Endpoint.ofVertex program callee.vertex
  return ⟨source, target⟩

/-- All edges of a call graph, in call order. -/
def CallGraph.render (calls : CallGraph) (program : Program) :
    Except EndpointError (List CallEdge) :=
  calls.edges.mapM fun (call, callee) => CallEdge.of program call callee

namespace Program

/-- A call or a callee on one line: `'label' (file@line:start-stop)`. -/
def vertexLine (program : Program) : Vertex → Except EndpointError String
  | .callee call => do
    let label ← EndpointError.require (program.enclosingName? call)
    let place ← EndpointError.require (program.callPlace? call)
    return "'" ++ label ++ "' (" ++ place ++ ")"
  | .func f => do
    let function ← EndpointError.require (program.function? f)
    let place ← EndpointError.require (program.functionPlace? f)
    return "'" ++ label function ++ "' (" ++ place ++ ")"
  | .native name => .ok ("'" ++ name ++ "' (" ++ nativeFile ++ ")")
  | v => .error (.unexpectedVertex v.kind)

/-- A function as it appears in the description of a vertex. -/
def functionText? (program : Program) (f : FunctionId) : Option String := do
  let function ← program.function? f
  let place ← program.functionPlace? f
  return label function ++ " " ++ place

end Program

/-- A vertex in words; `none` if it names something that does not exist. -/
def Vertex.describe? (program : Program) (symbols : SymbolTable) : Vertex → Option String
  | .func f => do return "Func(" ++ (← program.functionText? f) ++ ")"
  | .callee call => do return "Callee(" ++ (← program.callPlace? call) ++ ")"
  | .native name => some ("Native(" ++ name ++ ")")
  | .param f slot => do
    return "Param(" ++ (← program.functionText? f) ++ ", " ++ toString slot ++ ")"
  | .arg call slot => do
    return "Arg(" ++ (← program.callPlace? call) ++ ", " ++ toString slot ++ ")"
  | .ret f => do return "Ret(" ++ (← program.functionText? f) ++ ")"
  | .res call => do return "Res(" ++ (← program.callPlace? call) ++ ")"
  | .unknown => some "Unknown"
  | .var symbol => do
    return "Var(" ++ (← symbols.symbol? symbol).name ++ "#" ++ toString symbol.index ++ ")"
  | .prop name => some ("Prop(" ++ name ++ ")")
  | .expr key => do
    let path ← program.file? key.file
    return "Expr(" ++ Program.displayName path ++ "@" ++ toString key.span.start ++ "-"
      ++ toString key.span.stop ++ ")"

namespace FlowGraph

/-- The vertex of a number in words. -/
def describe? (graph : FlowGraph) (program : Program) (symbols : SymbolTable) (id : VertexId) :
    Option String :=
  (graph.vertex? id).bind (Vertex.describe? program symbols)

/-- A flow edge in words. -/
def edgeLine? (graph : FlowGraph) (program : Program) (symbols : SymbolTable)
    (edge : VertexId × VertexId) : Option String := do
  let source ← graph.describe? program symbols edge.1
  let target ← graph.describe? program symbols edge.2
  return source ++ " => " ++ target

end FlowGraph

end CallFlow
