import CallFlow.Source.Text
import CallFlow.Module.Record
import CallFlow.Binding.Symbol

/-!
# Building the flow of a file

The state that grows while the syntax of a file is walked, the place that the walk is at, and
the primitive steps. A `Walk` is a step that stays where it is: it reads the place and changes the
state. A `Routine` moves: it enters scopes and functions, and has to go back on its own.
-/

namespace CallFlow

/-- All that is known of the files walked so far. -/
structure FlowState where
  program : Program := .empty
  graph : FlowGraph := .empty
  scopes : ScopeTree := .empty
  symbols : SymbolTable := .empty
deriving Inhabited

/-- The state while one file is walked: what is known so far, and the record of this file. -/
structure FileState where
  flow : FlowState
  record : ModuleRecord
deriving Inhabited

/-- Where a walk is: the file, the current scope, the function around, and the function whose
receiver `this` denotes, which arrows inherit. -/
structure Place where
  file : FileId
  lines : LineTable
  scope : ScopeId
  function : Option FunctionId := none
  receiver : Option FunctionId := none
deriving Inhabited

/-- A walk reads its place and changes the state. It cannot change the place it was started at. -/
abbrev Walk := ReaderT Place (StateM FileState)

/-- A routine changes its place too. -/
abbrev Routine := StateT Place (StateM FileState)

/-- A walk is a routine that stays where it is. -/
instance : MonadLift Walk Routine where
  monadLift walk place s := (((walk place s).1, place), (walk place s).2)

namespace Walk

/-! ### Vertices and edges -/

/-- The number of a vertex, which is added if it is new. -/
def vertex (v : Vertex) : Walk VertexId := fun _ s =>
  let (id, graph) := s.flow.graph.intern v
  (id, { s with flow := { s.flow with graph } })

def edge (source target : VertexId) : Walk Unit := fun _ s =>
  ((), { s with flow := { s.flow with graph := (s.flow.graph.addEdge source target).2 } })

/-- An edge from a value, if there is one. -/
def flow (source : Option VertexId) (target : VertexId) : Walk Unit :=
  match source with
  | some source => edge source target
  | none => pure ()

/-- The vertex of a compound expression. -/
def exprVertex (span : Span) : Walk VertexId := fun place s =>
  vertex (.expr ⟨place.file, span⟩) place s

/-! ### Functions and calls -/

def addFunction (name : Option String) (paramCount : Nat) (isArrow : Bool) (span : Span) :
    Walk FunctionId := fun place s =>
  let (id, program) := s.flow.program.addFunction {
    name, paramCount, isArrow
    file := place.file
    location := place.lines.location span
    enclosing := place.function }
  (id, { s with flow := { s.flow with program } })

def addCall (kind : CallKind) (argCount : Nat) (span : Span) : Walk CallId := fun place s =>
  let (id, program) := s.flow.program.addCall {
    kind, argCount
    file := place.file
    location := place.lines.location span
    enclosing := place.function }
  (id, { s with flow := { s.flow with program } })

/-! ### Scopes and names -/

def declareIn (scope : ScopeId) (kind : SymbolKind) (name : String) : Walk Unit := fun _ s =>
  ((), { s with flow := { s.flow with symbols := (s.flow.symbols.declare name kind scope).2 } })

/-- Declares names in the present scope. -/
def declare (kind : SymbolKind) (names : List String) : Walk Unit := fun place =>
  names.forM (declareIn place.scope kind) place

/-- Declares names in the scope that `var` belongs to. -/
def declareVars (names : List String) : Walk Unit := fun place s =>
  names.forM (declareIn (s.flow.scopes.varScope place.scope) .variable) place s

/-- The symbol of a name that is visible here. -/
def lookup (name : String) : Walk (Option SymbolId) := fun place s =>
  (s.flow.symbols.lookup s.flow.scopes name place.scope, s)

/-- The vertex that a name denotes here: its variable, or the global of this name. -/
def resolve (name : String) : Walk VertexId := do
  match ← lookup name with
  | some symbol => vertex (.var symbol)
  | none => vertex (.prop name)

/-- The receiver of the function around, if there is one. -/
def receiver : Walk (Option VertexId) := do
  match (← read).receiver with
  | some f => return some (← vertex (.param f 0))
  | none => return none

/-! ### The module record -/

def addExport (name : String) (value : VertexId) : Walk Unit := fun _ s =>
  ((), { s with record := { s.record with exports := s.record.exports.push ⟨name, value⟩ } })

def addImport (specifier : String) (imported : ImportedName) (target : VertexId) : Walk Unit :=
  fun _ s =>
    ((), { s with record := { s.record with
      imports := s.record.imports.push ⟨specifier, imported, target⟩ } })

def addRequire (specifier : String) (call : CallId) : Walk Unit := fun _ s =>
  ((), { s with record := { s.record with
    requires := s.record.requires.push ⟨specifier, call⟩ } })

end Walk

namespace Routine

/-! ### Moving -/

/-- Opens a scope below the current one and goes there. Returns the scope to go back to. -/
def enterScope (kind : ScopeKind) : Routine ScopeId := fun place s =>
  let (scope, scopes) := s.flow.scopes.create kind place.scope
  ((place.scope, { place with scope }), { s with flow := { s.flow with scopes } })

/-- Makes `f` the function around. Returns the one to go back to. -/
def enterFunction (f : FunctionId) : Routine (Option FunctionId) := fun place s =>
  ((place.function, { place with function := some f }), s)

def setScope (scope : ScopeId) : Routine Unit := fun place s => (((), { place with scope }), s)

def setFunction (function : Option FunctionId) : Routine Unit := fun place s =>
  (((), { place with function }), s)

def setReceiver (receiver : Option FunctionId) : Routine Unit := fun place s =>
  (((), { place with receiver }), s)

end Routine

end CallFlow
