import CallFlow.Proofs.Flow.Counting
import CallFlow.Proofs.Module.References

/-!
# What linking adds

`Linking.Adds` says what has been joined, noted and counted between two states of linking. It has
one lemma for each step, and one that follows a list of records or bindings next to their views.
`Linking.run_spec` is the sum over all references of all modules.
-/

namespace CallFlow

/-- Notes a dependency unless its two files have one. -/
def ModuleDependency.note (noted : Array ModuleDependency) (d : ModuleDependency) :
    Array ModuleDependency :=
  if noted.any fun e => e.source = d.source && e.target = d.target then noted else noted.push d

namespace Linking

/-- From one state to another these pairs of vertices have been joined, these dependencies noted,
and this number of references has been found to lead nowhere. -/
structure Adds (links later : Linking) (joins : List (Vertex × Vertex))
    (dependencies : List ModuleDependency) (missing : ℕ) : Prop where
  keeps : ∀ v id, links.graph.find? v = some id → later.graph.find? v = some id
  vertices : ∀ v, later.graph.Has v ↔ links.graph.Has v ∨ ∃ e ∈ joins, e.2 = v
  edges : ∀ e, e ∈ later.graph.edgeSet ↔ e ∈ links.graph.edgeSet ∨ e ∈ joins ∧ e.1 ≠ e.2
  flagged : ∀ v, later.graph.Flagged v ↔ links.graph.Flagged v
  counted : later.graph.edgeCount + links.stats.edgesAdded =
    links.graph.edgeCount + later.stats.edgesAdded
  resolved : later.stats.resolved = links.stats.resolved + dependencies.length
  unresolved : later.stats.unresolved = links.stats.unresolved + missing
  noted : later.dependencies = dependencies.foldl ModuleDependency.note links.dependencies

namespace Adds

variable {links later last : Linking} {es es' : List (Vertex × Vertex)}
  {ds ds' : List ModuleDependency} {n n' : ℕ}

/-- Nothing has been linked. -/
theorem refl (links : Linking) : Adds links links [] [] 0 where
  keeps := fun _ _ h => h
  vertices := by simp
  edges := by simp
  flagged := fun _ => Iff.rfl
  counted := rfl
  resolved := rfl
  unresolved := rfl
  noted := rfl

/-- What two parts of linking add is put together. -/
theorem trans (h : Adds links later es ds n) (h' : Adds later last es' ds' n') :
    Adds links last (es ++ es') (ds ++ ds') (n + n') where
  keeps := fun v id hv => h'.keeps v id (h.keeps v id hv)
  vertices v := by
    simp only [h'.vertices, h.vertices, List.mem_append, or_and_right, exists_or, or_assoc]
  edges e := by
    rw [h'.edges, h.edges, List.mem_append, or_and_right, or_assoc]
  flagged v := (h'.flagged v).trans (h.flagged v)
  counted := by
    have hone := h.counted
    have htwo := h'.counted
    omega
  resolved := by rw [h'.resolved, h.resolved, List.length_append, Nat.add_assoc]
  unresolved := by rw [h'.unresolved, h.unresolved, Nat.add_assoc]
  noted := by rw [h'.noted, h.noted, List.foldl_append]

/-- Linking along a list next to the list of what its entries stand for. -/
theorem foldl {α β : Type} {R : Linking → α → β → Prop} {step : Linking → α → Linking}
    {joins : β → List (Vertex × Vertex)} {dependencies : β → List ModuleDependency}
    {missing : β → ℕ} {as : List α} {bs : List β}
    (hmono : ∀ links later : Linking,
      (∀ v id, links.graph.find? v = some id → later.graph.find? v = some id) →
        ∀ a b, R links a b → R later a b)
    (hstep : ∀ links a b, R links a b →
      Adds links (step links a) (joins b) (dependencies b) (missing b))
    (h : List.Forall₂ (R links) as bs) :
    Adds links (as.foldl step links) (bs.flatMap joins) (bs.flatMap dependencies)
      (bs.map missing).sum := by
  induction as generalizing links bs with
  | nil =>
    cases h
    exact .refl links
  | cons a as ih =>
    cases h with
    | cons hab hrest =>
      have hone := hstep links _ _ hab
      exact hone.trans (ih (hrest.imp fun _ _ => hmono links _ hone.keeps _ _))

/-- Steps that note nothing. -/
theorem silent {β : Type} {bs : List β} {joins : β → List (Vertex × Vertex)}
    (h : Adds links later (bs.flatMap joins) (bs.flatMap fun _ => []) (bs.map fun _ => 0).sum) :
    Adds links later (bs.flatMap joins) [] 0 := by
  have hnone : (bs.flatMap fun _ => ([] : List ModuleDependency)) = [] := by simp
  have hzero : (bs.map fun _ => 0).sum = 0 := by simp
  rwa [hnone, hzero] at h

end Adds

/-! ## Joining exports with what receives them -/

variable {links : Linking}

/-- An edge between two vertices of the graph. -/
theorem adds_addEdge {a b : Vertex} {s t : VertexId} (ha : links.graph.find? a = some s)
    (hb : links.graph.find? b = some t) : Adds links (links.addEdge s t) [(a, b)] [] 0 where
  keeps := fun v id hv => (FlowGraph.find?_addEdge ..).trans hv
  vertices v := by
    refine (FlowGraph.has_addEdge s t v).trans ⟨Or.inl, ?_⟩
    rintro (hv | ⟨e, he, rfl⟩)
    · exact hv
    · rw [List.mem_singleton.1 he]
      exact ⟨t, hb⟩
  edges e := by
    show e ∈ (links.graph.addEdge s t).2.edgeSet ↔ _
    rw [List.mem_singleton]
    -- an edge from a vertex to itself is not added
    by_cases hne : a = b
    · subst hne
      obtain rfl := Option.some.inj (ha.symm.trans hb)
      rw [FlowGraph.addEdge_self]
      refine ⟨Or.inl, fun h => h.resolve_right ?_⟩
      rintro ⟨rfl, hne⟩
      exact hne rfl
    · rw [(FlowGraph.edgeSet_addEdge ha hb hne).2, Set.mem_insert_iff, or_comm]
      refine or_congr_right ⟨?_, And.left⟩
      rintro rfl
      exact ⟨rfl, hne⟩
  flagged v := FlowGraph.flagged_addEdge s t v
  counted := by
    have hone := FlowGraph.edgeCount_addEdge links.graph s t
    have hadded : (links.addEdge s t).stats.edgesAdded =
        links.stats.edgesAdded + if (links.graph.addEdge s t).1 then 1 else 0 := rfl
    have hgraph : (links.addEdge s t).graph = (links.graph.addEdge s t).2 := rfl
    rw [hgraph, hadded]
    omega
  resolved := rfl
  unresolved := rfl
  noted := rfl

/-- A vertex may be added before edges into it are. -/
theorem adds_of_intern {v : Vertex} {later : Linking} {es : List (Vertex × Vertex)}
    {ds : List ModuleDependency} {n : ℕ}
    (hv : links.graph.Has v ∨ ∃ e ∈ es, e.2 = v)
    (h : Adds { links with graph := (links.graph.intern v).2 } later es ds n) :
    Adds links later es ds n :=
  { h with
    keeps := fun x id hx => h.keeps x id (FlowGraph.find?_intern_of_find? v hx)
    vertices := fun x => by
      rw [h.vertices, FlowGraph.has_intern]
      constructor
      -- the new vertex is an end of an edge, or was there
      · rintro ((hx | rfl) | hx)
        · exact Or.inl hx
        · exact hv
        · exact Or.inr hx
      · exact Or.imp_left Or.inl
    edges := fun e => by rw [h.edges, FlowGraph.edgeSet_intern]
    flagged := fun x => by rw [h.flagged, FlowGraph.flagged_intern]
    counted := by
      have hcounted := h.counted
      rwa [FlowGraph.edgeCount_intern] at hcounted }

/-- A binding next to what it stands for. -/
def Exported (links : Linking) (e : ExportBinding) (x : ExportView) : Prop :=
  e.name = x.name ∧ links.graph.find? x.value = some e.value

/-- The exports of the name are joined with the target, one after the other. -/
theorem adds_connectNamed {exports : Array ExportBinding} {views : List ExportView}
    (h : List.Forall₂ (links.Exported) exports.toList views) (name : String) {target : Vertex}
    {t : VertexId} (ht : links.graph.find? target = some t) :
    Adds links (links.connectNamed exports name t) (ExportView.named views name target) [] 0 := by
  rw [connectNamed, ← Array.foldl_toList]
  refine .silent (.foldl
    (R := fun links e x => links.Exported e x ∧ links.graph.find? target = some t)
    (fun _ _ hkeep _ _ hab => ⟨⟨hab.1.1, hkeep _ _ hab.1.2⟩, hkeep _ _ hab.2⟩)
    (fun links e x hex => ?_) (h.imp fun _ _ hex => ⟨hex, ht⟩))
  obtain ⟨⟨hname, hvalue⟩, htarget⟩ := hex
  rw [hname]
  split
  · exact adds_addEdge hvalue htarget
  · exact .refl links

/-- All exports but the default are joined with their properties. -/
theorem adds_connectNamespace {exports : Array ExportBinding} {views : List ExportView}
    (h : List.Forall₂ (links.Exported) exports.toList views) :
    Adds links (links.connectNamespace exports) (ExportView.properties views) [] 0 := by
  rw [connectNamespace, ← Array.foldl_toList]
  refine .silent (.foldl (R := Exported)
    (fun _ _ hkeep _ _ hab => ⟨hab.1, hkeep _ _ hab.2⟩) (fun links e x hex => ?_) h)
  obtain ⟨hname, hvalue⟩ := hex
  rw [hname]
  split
  · exact .refl links
  -- the property may be new, and then it is the end of the edge
  · refine adds_of_intern (v := .prop x.name) (Or.inr ⟨_, List.mem_singleton_self _, rfl⟩) ?_
    exact adds_addEdge (FlowGraph.find?_intern_of_find? _ hvalue)
      (FlowGraph.find?_intern_self _ _)

/-! ## One reference -/

/-- A dependency changes neither the graph nor the counters. -/
theorem note_depend (links : Linking) (source target : FileId) (kind : DependencyKind) :
    (links.depend source target kind).dependencies =
        ModuleDependency.note links.dependencies ⟨source, target, kind⟩ ∧
      (links.depend source target kind).graph = links.graph ∧
      (links.depend source target kind).stats = links.stats := by
  rw [depend, ModuleDependency.note]
  split
  · exact ⟨rfl, rfl, rfl⟩
  · exact ⟨rfl, rfl, rfl⟩

/-- The records at hand next to their views. -/
abbrev Denoting (links : Linking) (records : Array ModuleRecord) (views : List ModuleView) :
    Prop :=
  List.Forall₂ (ModuleRecord.Stands links.graph) records.toList views

variable {records : Array ModuleRecord} {views : List ModuleView} {record : ModuleRecord}
  {view : ModuleView}

/-- The known files are the normalized paths of the modules with their positions. -/
theorem knownFiles_eq
    (h : List.Forall₂ (fun record view => record.path = view.path) records.toList views) :
    knownFiles records = Module.places ModuleView.path views := by
  have hpaths : records.toList.map ModuleRecord.path = views.map ModuleView.path :=
    map_eq_of_forall₂ h
  -- only the paths matter
  have hplaces : ∀ {α : Type} (pathOf : α → Path) (modules : List α),
      Module.places pathOf modules =
        (modules.map pathOf).zipIdx.map fun (path, k) => (path.normalize, k) := by
    intro α pathOf modules
    rw [Module.places, List.zipIdx_map, List.map_map]
    rfl
  rw [show knownFiles records = Module.places ModuleRecord.path records.toList from rfl,
    hplaces, hplaces, hpaths]

/-- What a specifier resolves to is the record of the module that it leads to. -/
theorem rel_resolve (h : links.Denoting records views) (path : Path) (specifier : String) :
    Option.Rel (ModuleRecord.Stands links.graph)
      ((Module.resolve (knownFiles records) path specifier).bind (records[·]?))
      (ModuleView.target? views path specifier) := by
  rw [knownFiles_eq (h.imp fun _ _ hs => hs.path), ← Module.resolve_places views path specifier]
  cases Module.resolve (Module.places ModuleView.path views) path specifier with
  | none => exact .none
  | some k =>
    rw [Option.bind_some, Option.bind_some, ← Array.getElem?_toList]
    exact rel_getElem?_of_forall₂ h k

/-- A reference that leads to a module is counted as resolved and noted before it is connected. -/
theorem adds_link (h : links.Denoting records views) (hrecord : record.Stands links.graph view)
    (reference : Reference) {connect : Linking → Array ExportBinding → Linking}
    (hconnect : ∀ (target : ModuleView) (exports : Array ExportBinding) (later : Linking),
      later.graph = links.graph →
        List.Forall₂ (later.Exported) exports.toList target.exports →
          Adds later (connect later exports) (reference.joins target.exports) [] 0) :
    Adds links
      (links.link records (knownFiles records) record reference.kind reference.specifier connect)
      (view.joined views reference) (view.dependency? views reference).toList
      (view.lost views reference) := by
  have hrel := rel_resolve h view.path reference.specifier
  rw [link, hrecord.path, ModuleView.joined, ModuleView.dependency?, ModuleView.lost]
  revert hrel
  cases (Module.resolve (knownFiles records) view.path reference.specifier).bind (records[·]?)
    <;> cases ModuleView.target? views view.path reference.specifier <;> intro hrel
  case none.none =>
    exact { Adds.refl links with unresolved := rfl }
  case some.some target t =>
    cases hrel with
    | some htarget =>
      -- the reference is counted and noted first
      let counted : Linking :=
        { links with stats := { links.stats with resolved := links.stats.resolved + 1 } }
      let noted := counted.depend record.file target.file reference.kind
      obtain ⟨hnoted, hgraph, hstats⟩ :=
        note_depend counted record.file target.file reference.kind
      have hgraph : noted.graph = links.graph := hgraph
      have hfirst : Adds links noted [] [⟨record.file, target.file, reference.kind⟩] 0 :=
        { keeps := fun v id hv => by rw [hgraph]; exact hv
          vertices := fun v => by rw [hgraph]; simp
          edges := fun e => by rw [hgraph]; simp
          flagged := fun v => by rw [hgraph]
          counted := by rw [hgraph, show noted.stats = counted.stats from hstats]
          resolved := by rw [show noted.stats = counted.stats from hstats]; rfl
          unresolved := by rw [show noted.stats = counted.stats from hstats]; rfl
          noted := hnoted }
      have hadds := hfirst.trans <| hconnect t target.exports noted hgraph
        (htarget.exports.imp fun _ _ he => ⟨he.1, by rw [hgraph]; exact he.2⟩)
      rw [hrecord.file, htarget.file] at hadds
      exact hadds
  case none.some => cases hrel
  case some.none => cases hrel

/-! ## All references -/

/-- An import joins what it asks for with its target. -/
theorem adds_connectImport {exports : Array ExportBinding} {exported : List ExportView}
    (h : List.Forall₂ (links.Exported) exports.toList exported) {i : ImportBinding}
    {x : ImportView} (hname : i.imported = x.imported)
    (htarget : links.graph.find? x.target = some i.target) :
    Adds links (links.connectImport exports i) ((Reference.imports x).joins exported) [] 0 := by
  rw [connectImport, Reference.joins, hname]
  cases x.imported with
  | default => exact adds_connectNamed h "default" htarget
  | named name => exact adds_connectNamed h name htarget
  | namespaceObject => exact adds_connectNamespace h

/-- A vertex that is met is paired with itself. -/
theorem adds_intern (links : Linking) (v : Vertex) :
    Adds links { links with graph := (links.graph.intern v).2 } [(v, v)] [] 0 where
  keeps := fun _ _ => FlowGraph.find?_intern_of_find? v
  vertices w := by
    simp only [FlowGraph.has_intern, List.mem_singleton, exists_eq_left, eq_comm (a := w)]
  edges e := by
    -- an edge from a vertex to itself does not count
    have hself : ¬ (e ∈ [(v, v)] ∧ e.1 ≠ e.2) := fun ⟨he, hne⟩ => by
      rw [List.mem_singleton.1 he] at hne
      exact hne rfl
    rw [FlowGraph.edgeSet_intern, or_iff_left hself]
  flagged w := FlowGraph.flagged_intern links.graph v w
  counted := congrArg (· + links.stats.edgesAdded) (FlowGraph.edgeCount_intern links.graph v)
  resolved := rfl
  unresolved := rfl
  noted := rfl

/-- A call of `require` joins all exports with its result. -/
theorem adds_connectRequire {exports : Array ExportBinding} {exported : List ExportView}
    (h : List.Forall₂ (links.Exported) exports.toList exported) (r : RequireCall) :
    Adds links (links.connectRequire exports r.call) ((Reference.requires r).joins exported) []
      0 := by
  have hmet := adds_intern links (.res r.call)
  have hexports := h.imp fun _ _ he => he.imp_right (hmet.keeps _ _)
  have hnamed := adds_connectNamed hexports "default" (FlowGraph.find?_intern_self _ _)
  have hproperties := adds_connectNamespace
    (hexports.imp fun _ _ he => he.imp_right (hnamed.keeps _ _))
  exact hmet.trans (hnamed.trans hproperties)

/-- The imports of a record, one after the other. -/
theorem adds_imports (h : links.Denoting records views)
    (hrecord : record.Stands links.graph view) :
    Adds links
      (record.imports.foldl (fun links i =>
        links.link records (knownFiles records) record .imports i.specifier fun links exports =>
          links.connectImport exports i) links)
      (view.imports.flatMap fun x => view.joined views (.imports x))
      (view.imports.flatMap fun x => (view.dependency? views (.imports x)).toList)
      (view.imports.map fun x => view.lost views (.imports x)).sum := by
  rw [← Array.foldl_toList]
  refine .foldl
    (R := fun links (i : ImportBinding) (x : ImportView) =>
      (i.specifier = x.specifier ∧ i.imported = x.imported ∧
        links.graph.find? x.target = some i.target) ∧
          links.Denoting records views ∧ record.Stands links.graph view)
    (fun links later hkeep i x ⟨⟨hspecifier, hname, htarget⟩, hdenoting, hrecord⟩ =>
      ⟨⟨hspecifier, hname, hkeep x.target i.target htarget⟩,
        hdenoting.imp fun _ _ hd => hd.mono hkeep, hrecord.mono hkeep⟩)
    (fun links i x hix => ?_) (hrecord.imports.imp fun _ _ hix => ⟨hix, h, hrecord⟩)
  -- linking an import keeps what is known of the next ones
  obtain ⟨⟨hspecifier, hname, htarget⟩, hdenoting, hrecord⟩ := hix
  rw [hspecifier]
  exact adds_link hdenoting hrecord (.imports x) fun t exports later hgraph hexports =>
    adds_connectImport hexports hname (by rw [hgraph]; exact htarget)

/-- Its calls of `require`, one after the other. -/
theorem adds_requires (h : links.Denoting records views)
    (hrecord : record.Stands links.graph view) :
    Adds links
      (record.requires.foldl (fun links r =>
        links.link records (knownFiles records) record .requires r.specifier fun links exports =>
          links.connectRequire exports r.call) links)
      (view.requires.flatMap fun x => view.joined views (.requires x))
      (view.requires.flatMap fun x => (view.dependency? views (.requires x)).toList)
      (view.requires.map fun x => view.lost views (.requires x)).sum := by
  rw [← Array.foldl_toList, hrecord.requires]
  refine .foldl
    (R := fun links (a b : RequireCall) => a = b ∧ links.Denoting records views ∧
      record.Stands links.graph view)
    (fun links later hkeep a b ⟨heq, hdenoting, hrecord⟩ =>
      ⟨heq, hdenoting.imp fun _ _ hd => hd.mono hkeep, hrecord.mono hkeep⟩)
    (fun links a b hab => ?_) (List.forall₂_same.2 fun r _ => ⟨rfl, h, hrecord⟩)
  obtain ⟨rfl, hdenoting, hrecord⟩ := hab
  exact adds_link hdenoting hrecord (.requires a) fun t exports later _ hexports =>
    adds_connectRequire hexports a

/-- First the imports and then the calls of `require`. -/
theorem adds_linkRecord (h : links.Denoting records views)
    (hrecord : record.Stands links.graph view) :
    Adds links (linkRecord records (knownFiles records) links record) (view.joins views)
      (view.dependencies views) (view.missing views) := by
  have himports := adds_imports h hrecord
  have hrequires := adds_requires (h.imp fun _ _ hd => hd.mono himports.keeps)
    (hrecord.mono himports.keeps)
  rw [ModuleView.joins, ModuleView.dependencies, ModuleView.missing, ModuleView.references]
  simp only [List.flatMap_append, List.flatMap_map, List.map_append, List.map_map,
    List.sum_append]
  exact himports.trans hrequires

/-- **Linking.** All that linking does is told by the views of the records: it joins what their
references join, notes their dependencies and counts the references that lead nowhere. -/
theorem adds_run {graph : FlowGraph}
    (h : List.Forall₂ (ModuleRecord.Stands graph) records.toList views) :
    Adds { graph } (run graph records) (views.flatMap (ModuleView.joins views))
      (views.flatMap (ModuleView.dependencies views))
      (views.map (ModuleView.missing views)).sum := by
  rw [run, ← Array.foldl_toList]
  refine .foldl
    (R := fun links record view => record.Stands links.graph view ∧
      links.Denoting records views)
    (fun _ _ hkeep _ _ hab => ⟨hab.1.mono hkeep, hab.2.imp fun _ _ hd => hd.mono hkeep⟩)
    (fun links record view hab => adds_linkRecord hab.2 hab.1) (h.imp fun _ _ hd => ⟨hd, h⟩)

/-- In particular if the graph has all the results. -/
theorem run_spec {graph : FlowGraph}
    (h : List.Forall₂ (ModuleRecord.Denotes graph) records.toList views) :
    Adds { graph } (run graph records) (views.flatMap (ModuleView.joins views))
      (views.flatMap (ModuleView.dependencies views))
      (views.map (ModuleView.missing views)).sum :=
  adds_run (h.imp fun _ _ hd => hd.toStands)

end Linking

end CallFlow
