import CallFlow.FileFlow.Visit

/-!
# The flow of one file

`FlowState.addFile` walks the items of a module in a scope of its own and returns the record of
what the module offers and takes.
-/

namespace CallFlow

open Syntax

namespace Syntax

def ImportSpecifier.localName : ImportSpecifier → String
  | .named _ name | .default name | .namespaceObject name => name

/-- What is asked of the other module. -/
def ImportSpecifier.imported : ImportSpecifier → ImportedName
  | .named imported _ => if imported = "default" then .default else .named imported
  | .default _ => .default
  | .namespaceObject _ => .namespaceObject

/-- What a name that is passed on is called in the module that it comes from. -/
def ExportSpecifier.imported (s : ExportSpecifier) : ImportedName :=
  if s.given = "default" then .default else .named s.given

/-- The names that an exported declaration offers. -/
def Decl.exportedNames : Decl → List String
  | .function name _ | .class name _ => [name]
  | .vars _ declarators => Declarator.namesAll declarators
  | .using _ | .inert => []

end Syntax

namespace Walk

/-- Declares what an item binds in the module. -/
def hoistItem : ModuleItem → Walk Unit
  | .stmt s => do
    match s with
    | .decl d => hoist d
    | _ => pure ()
    declare .variable s.varNames
  | .importNames _ specifiers => declare .importName (specifiers.map ImportSpecifier.localName)
  | .importEquals name _ => declare .importName [name]
  | .exportDecl d => hoist d
  | .exportDefaultFunction (some name) _ => declare .functionName [name]
  | .exportDefaultClass (some name) _ => declare .className [name]
  | .exportDefaultFunction none _ | .exportDefaultClass none _ | .exportDefaultExpr _
  | .exportAssignment _ | .exportNames _ _ | .inert => pure ()

def importName (source : String) (s : ImportSpecifier) : Walk Unit := do
  addImport source s.imported (← resolve s.localName)

/-- Exports what a name denotes in this module. -/
def exportName (name exported : String) : Walk Unit := do
  addExport exported (← resolve name)

/-- Passes a name of another module on: a relay vertex receives it and is exported. -/
def relayName (source : String) (s : ExportSpecifier) : Walk Unit := do
  let relay ← exprVertex s.span
  addImport source s.imported relay
  addExport s.exported relay

def exportValue (value : Option VertexId) : Walk Unit :=
  match value with
  | some value => addExport "default" value
  | none => pure ()

/-- An edge to the name that a default export binds in its own module. -/
def bindDefault (name : Option String) (value : VertexId) : Walk Unit :=
  match name with
  | some name => do edge value (← resolve name)
  | none => pure ()

end Walk

namespace Routine

open Walk

def visitItem : ModuleItem → Routine Unit
  | .stmt s => visitStmt s
  | .importNames source specifiers => specifiers.forM fun s => importName source s
  | .importEquals name (some source) => do addImport source .default (← resolve name)
  | .importEquals _ none => pure ()
  | .exportDecl d => do
    visitDecl d
    d.exportedNames.forM fun name => exportName name name
  | .exportDefaultFunction name f => do
    let id ← visitFunction name none false f
    let value ← vertex (.func id)
    bindDefault name value
    addExport "default" value
  | .exportDefaultClass name c => do
    match ← visitClass name none c with
    | some constructor =>
      bindDefault name constructor
      addExport "default" constructor
    | none => pure ()
  | .exportDefaultExpr e => do exportValue (← visit (.named "default") e).result
  | .exportAssignment e => do exportValue (← visit .value e).result
  | .exportNames none specifiers => specifiers.forM fun s => exportName s.given s.exported
  | .exportNames (some source) specifiers => specifiers.forM fun s => relayName source s
  | .inert => pure ()

/-- Declares what all items bind, then walks them. -/
def visitModule (m : Module) : Routine Unit := do
  m.items.forM fun item => hoistItem item
  m.items.forM visitItem

end Routine

/-- Adds the flow of a file to the state. Returns the record of its module. -/
def FlowState.addFile (state : FlowState) (path : Path) (lines : LineTable) (m : Module) :
    ModuleRecord × FlowState :=
  let (file, program) := state.program.addFile path
  let (scope, scopes) := state.scopes.create .moduleScope ScopeTree.global
  let start : FileState := {
    flow := { state with program, scopes }
    record := { file, path } }
  let (_, final) := Routine.visitModule m { file, lines, scope } start
  (final.record, final.flow)

end CallFlow
