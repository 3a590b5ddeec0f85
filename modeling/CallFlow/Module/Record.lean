import CallFlow.Flow.Graph

/-!
# Module records

What one file offers to other files and takes from them, as found while its flow is built.
-/

namespace CallFlow

/-- What an import asks of the other module. -/
inductive ImportedName
  | default
  | named (name : String)
  | namespaceObject
deriving DecidableEq, Repr, Inhabited

/-- An import: the value asked for flows to `target`. -/
structure ImportBinding where
  specifier : String
  imported : ImportedName
  target : VertexId
deriving DecidableEq, Repr, Inhabited

/-- An export; the default export has the name `default`. -/
structure ExportBinding where
  name : String
  value : VertexId
deriving DecidableEq, Repr, Inhabited

/-- A call of `require` with a literal specifier. -/
structure RequireCall where
  specifier : String
  call : CallId
deriving DecidableEq, Repr, Inhabited

structure ModuleRecord where
  file : FileId
  path : Path
  exports : Array ExportBinding := #[]
  imports : Array ImportBinding := #[]
  requires : Array RequireCall := #[]
deriving Repr, Inhabited

end CallFlow
