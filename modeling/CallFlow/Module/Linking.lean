import CallFlow.Module.Record
import CallFlow.Module.Resolution

/-!
# Linking modules

Every import and every call of `require` is resolved among the files at hand, and the exports
asked for flow to where the importing file receives them.
-/

namespace CallFlow

inductive DependencyKind
  | imports
  | requires
deriving DecidableEq, Repr, Inhabited

/-- The file `source` imports or requires the file `target`. -/
structure ModuleDependency where
  source : FileId
  target : FileId
  kind : DependencyKind
deriving DecidableEq, Repr, Inhabited

structure LinkStats where
  resolved : Nat := 0
  unresolved : Nat := 0
  edgesAdded : Nat := 0
deriving DecidableEq, Repr, Inhabited

/-- The state of linking: the graph, the counts, and one dependency for each pair of files, in
the order of first reference. -/
structure Linking where
  graph : FlowGraph
  stats : LinkStats := {}
  dependencies : Array ModuleDependency := #[]
deriving Inhabited

namespace Linking

/-- Adds a dependency unless the two files have one. -/
def depend (links : Linking) (source target : FileId) (kind : DependencyKind) : Linking :=
  if links.dependencies.any fun d => d.source = source && d.target = target then links
  else { links with dependencies := links.dependencies.push ⟨source, target, kind⟩ }

/-- Adds an edge and counts it if it is new. -/
def addEdge (links : Linking) (source target : VertexId) : Linking :=
  let (isNew, graph) := links.graph.addEdge source target
  { links with
    graph
    stats := { links.stats with
      edgesAdded := links.stats.edgesAdded + if isNew then 1 else 0 } }

/-- Every export called `name` flows to `target`. -/
def connectNamed (links : Linking) (exports : Array ExportBinding) (name : String)
    (target : VertexId) : Linking :=
  exports.foldl
    (fun links e => if e.name = name then links.addEdge e.value target else links) links

/-- Every export but the default one flows to the property of its name. -/
def connectNamespace (links : Linking) (exports : Array ExportBinding) : Linking :=
  exports.foldl
    (fun links e =>
      if e.name = "default" then links
      else
        let (property, graph) := links.graph.intern (.prop e.name)
        { links with graph }.addEdge e.value property)
    links

/-- What an import receives from the exports of the module that it leads to. -/
def connectImport (links : Linking) (exports : Array ExportBinding) (binding : ImportBinding) :
    Linking :=
  match binding.imported with
  | .default => links.connectNamed exports "default" binding.target
  | .named name => links.connectNamed exports name binding.target
  | .namespaceObject => links.connectNamespace exports

/-- What a call of `require` receives: the default export as its result, all others through
their properties. -/
def connectRequire (links : Linking) (exports : Array ExportBinding) (call : CallId) :
    Linking :=
  let (result, graph) := links.graph.intern (.res call)
  ({ links with graph }.connectNamed exports "default" result).connectNamespace exports

/-- Resolves one reference of `record`, counts it, and connects it if it leads to a module. -/
def link (records : Array ModuleRecord) (known : Module.KnownFiles) (record : ModuleRecord)
    (kind : DependencyKind) (specifier : String)
    (connect : Linking → Array ExportBinding → Linking) (links : Linking) : Linking :=
  match (Module.resolve known record.path specifier).bind (records[·]?) with
  | some target =>
    let links := { links with stats := { links.stats with resolved := links.stats.resolved + 1 } }
    connect (links.depend record.file target.file kind) target.exports
  | none =>
    { links with stats := { links.stats with unresolved := links.stats.unresolved + 1 } }

/-- Links the imports of a record, then its calls of `require`. -/
def linkRecord (records : Array ModuleRecord) (known : Module.KnownFiles) (links : Linking)
    (record : ModuleRecord) : Linking :=
  let links := record.imports.foldl
    (fun links i =>
      links.link records known record .imports i.specifier fun links exports =>
        links.connectImport exports i)
    links
  record.requires.foldl
    (fun links r =>
      links.link records known record .requires r.specifier fun links exports =>
        links.connectRequire exports r.call)
    links

/-- Every record's place, with its number. -/
def knownFiles (records : Array ModuleRecord) : Module.KnownFiles :=
  records.toList.zipIdx.map fun (record, k) => (record.path.normalize, k)

/-- Links every record, in order. -/
def run (graph : FlowGraph) (records : Array ModuleRecord) : Linking :=
  records.foldl (linkRecord records (knownFiles records)) { graph }

end Linking

end CallFlow
