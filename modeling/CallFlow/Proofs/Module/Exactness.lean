import CallFlow.Proofs.Module.Dependencies

/-!
# Linking is exact

What linking does, said of the records themselves: where a specifier leads, which exports are joined
with what, and which dependencies are noted. The records may be any whose numbers the graph has.
-/

namespace CallFlow

namespace ModuleRecord

/-- The path of the record, normalised, is this place. -/
def LiesAt (record : ModuleRecord) (place : Path) : Prop :=
  record.path.normalize.components = place.components

/-- The references of a record in the order in which they are linked. -/
def references (record : ModuleRecord) : List (DependencyKind × String) :=
  record.imports.toList.map (fun i => (.imports, i.specifier)) ++
    record.requires.toList.map fun r => (.requires, r.specifier)

end ModuleRecord

/-- The vertex receives what the module that the import leads to exports under this name. -/
def ImportBinding.Receives (i : ImportBinding) (graph : FlowGraph) (name : String) (v : Vertex) :
    Prop :=
  match i.imported with
  | .default => name = "default" ∧ graph.find? v = some i.target
  | .named asked => name = asked ∧ graph.find? v = some i.target
  | .namespaceObject => name ≠ "default" ∧ v = .prop name

/-- The vertex receives what the required module exports under this name. -/
def RequireCall.Receives (r : RequireCall) (name : String) (v : Vertex) : Prop :=
  name = "default" ∧ v = .res r.call ∨ name ≠ "default" ∧ v = .prop name

namespace Linking

/-- The record that a specifier in the file at `path` leads to. -/
def target? (records : Array ModuleRecord) (path : Path) (specifier : String) :
    Option ModuleRecord :=
  (Module.resolve (knownFiles records) path specifier).bind (records[·]?)

/-- Of the places that a relative specifier may stand for, in the order in which they are tried, the
first one at which there are records has this one as its last. -/
structure Leads (records : Array ModuleRecord) (path : Path) (specifier : String)
    (target : ModuleRecord) : Prop where
  relative : Module.isRelative specifier = true
  hit : ∃ given tried place rest,
    given = Module.target path specifier ∧
      -- the place itself, the file there with an extension, and the index of the directory there
      given :: Module.extensions.map (fun ext => ⟨given.text ++ "." ++ ext⟩) ++
        Module.extensions.map (fun ext => given.join ⟨"index." ++ ext⟩) = tried ++ place :: rest ∧
      (∀ other ∈ tried, ∀ record ∈ records, ¬ record.LiesAt other) ∧
      ∃ earlier later, records.toList = earlier ++ target :: later ∧ target.LiesAt place ∧
        ∀ record ∈ later, ¬ record.LiesAt place

/-- The vertex is what the record that a specifier leads to exports under this name. -/
def Supplies (graph : FlowGraph) (records : Array ModuleRecord) (path : Path)
    (specifier name : String) (v : Vertex) : Prop :=
  ∃ target, target? records path specifier = some target ∧
    ∃ e ∈ target.exports, e.name = name ∧ graph.find? v = some e.value

/-- What one record exports is to flow to what receives it in another. -/
def Joins (graph : FlowGraph) (records : Array ModuleRecord) (a b : Vertex) : Prop :=
  ∃ record ∈ records, ∃ name,
    (∃ i ∈ record.imports,
      Supplies graph records record.path i.specifier name a ∧ i.Receives graph name b) ∨
    ∃ r ∈ record.requires,
      Supplies graph records record.path r.specifier name a ∧ r.Receives name b

/-- The dependencies for all references that lead to a record. -/
def referred (records : Array ModuleRecord) : List ModuleDependency :=
  records.toList.flatMap fun record => record.references.filterMap fun (kind, specifier) =>
    (target? records record.path specifier).map fun target => ⟨record.file, target.file, kind⟩

/-- What is to be joined has been joined, everything is counted, and of the dependencies between two
files the first one is noted, in the order of the references. -/
structure Exact (graph : FlowGraph) (records : Array ModuleRecord) (links : Linking) : Prop where
  edges : ∀ a b, (a, b) ∈ links.graph.edgeSet ↔
    (a, b) ∈ graph.edgeSet ∨ Joins graph records a b ∧ a ≠ b
  edgesAdded : links.graph.edgeCount = graph.edgeCount + links.stats.edgesAdded
  resolved : links.stats.resolved = (referred records).length
  references : links.stats.resolved + links.stats.unresolved =
    (records.toList.map fun record => record.imports.size + record.requires.size).sum
  dependencies : links.dependencies.toList =
    (referred records).eraseDupsBy fun d e => d.files = e.files
  onePerPair : (links.dependencies.toList.map ModuleDependency.files).Nodup
  firsts : ∀ d, d ∈ links.dependencies ↔
    (referred records).find? (fun e => e.files = d.files) = some d

end Linking

/-! ## Where a specifier leads -/

namespace Linking

variable {records : Array ModuleRecord}

/-- The last record at the first place that has one. -/
theorem target?_eq (records : Array ModuleRecord) (path : Path) (specifier : String) :
    target? records path specifier =
      if Module.isRelative specifier then
        (Module.candidates (Module.target path specifier)).findSome? fun place =>
          records.toList.reverse.find? fun r => r.path.normalize.components = place.components
      else none := by
  have hknown : knownFiles records = Module.places ModuleRecord.path records.toList := rfl
  rw [target?, hknown, ← Module.bind_resolve_places]
  simp only [Array.getElem?_toList]

/-- The last record at a place is found there. -/
theorem find?_reverse_eq_some_iff {place : Path} {target : ModuleRecord} :
    (records.toList.reverse.find? fun r => r.path.normalize.components = place.components) =
        some target ↔
      ∃ earlier later, records.toList = earlier ++ target :: later ∧ target.LiesAt place ∧
        ∀ record ∈ later, ¬ record.LiesAt place := by
  rw [List.find?_eq_some_iff_append]
  simp only [decide_eq_true_eq, Bool.not_eq_true', decide_eq_false_iff_not]
  constructor
  -- searching from the end finds the record with none behind it at the place
  · rintro ⟨hlies, later, earlier, heq, hlater⟩
    refine ⟨earlier.reverse, later.reverse, ?_, hlies, fun r hr => hlater r (List.mem_reverse.1 hr)⟩
    rw [List.reverse_eq_iff] at heq
    simpa using heq
  · rintro ⟨earlier, later, heq, hlies, hlater⟩
    refine ⟨hlies, later.reverse, earlier.reverse, ?_, fun r hr => hlater r (List.mem_reverse.1 hr)⟩
    rw [heq]
    simp

theorem find?_reverse_eq_none_iff {place : Path} :
    (records.toList.reverse.find? fun r => r.path.normalize.components = place.components) = none ↔
      ∀ record ∈ records, ¬ record.LiesAt place := by
  simp [List.find?_eq_none, ModuleRecord.LiesAt]

/-- A specifier leads to a record if it is relative and the record is at the first place that is
taken. -/
theorem target?_eq_some_iff {path : Path} {specifier : String} {target : ModuleRecord} :
    target? records path specifier = some target ↔ Leads records path specifier target := by
  rw [target?_eq]
  split
  · next hrelative =>
    rw [List.findSome?_eq_some_iff]
    simp only [find?_reverse_eq_some_iff, find?_reverse_eq_none_iff]
    constructor
    · rintro ⟨tried, place, rest, heq, hhit, htried⟩
      exact ⟨hrelative, _, tried, place, rest, rfl, heq, htried, hhit⟩
    · rintro ⟨-, _, tried, place, rest, rfl, heq, htried, hhit⟩
      exact ⟨tried, place, rest, heq, hhit, htried⟩
  · next hpackage => exact ⟨nofun, fun h => absurd h.relative hpackage⟩

end Linking

/-! ## Which dependencies are noted -/

namespace ModuleDependency

/-- Noting dependencies is erasing the repetitions of their files. -/
theorem toList_foldl_note (ds acc : List ModuleDependency) :
    (ds.foldl note acc.reverse.toArray).toList =
      List.eraseDupsBy.loop (fun d e => decide (d.files = e.files)) ds acc := by
  induction ds generalizing acc with
  | nil => rfl
  | cons d ds ih =>
    -- the dependency is compared with those that have been noted
    have hany : (acc.reverse.toArray.any fun e => e.source = d.source && e.target = d.target) =
        acc.any fun e => decide (d.files = e.files) := by
      rw [Bool.eq_iff_iff, any_files_eq]
      simp [eq_comm (a := d.files)]
    have hpush : acc.reverse.toArray.push d = (d :: acc).reverse.toArray := by simp
    rw [List.foldl_cons, List.eraseDupsBy.loop, note, hany]
    cases acc.any fun e => decide (d.files = e.files) with
    | true => exact ih acc
    | false =>
      rw [if_neg Bool.false_ne_true, hpush]
      exact ih (d :: acc)

/-- Of the dependencies between two files the first one is noted, in its place. -/
theorem toList_noted (ds : List ModuleDependency) :
    (noted ds).toList = ds.eraseDupsBy fun d e => decide (d.files = e.files) :=
  toList_foldl_note ds []

end ModuleDependency

/-! ## Records by vertices -/

theorem flatMap_eq_of_forall₂ {α β γ : Type} {f : α → List γ} {g : β → List γ} {as : List α}
    {bs : List β} (h : List.Forall₂ (fun a b => f a = g b) as bs) :
    as.flatMap f = bs.flatMap g := by
  rw [List.flatMap_def, List.flatMap_def, map_eq_of_forall₂ h]

namespace ModuleRecord

/-- The graph has given out the numbers in the record. -/
def In (record : ModuleRecord) (graph : FlowGraph) : Prop :=
  (∀ e ∈ record.exports, e.value.index < graph.vertexCount) ∧
    ∀ i ∈ record.imports, i.target.index < graph.vertexCount

instance (record : ModuleRecord) (graph : FlowGraph) : Decidable (record.In graph) :=
  inferInstanceAs (Decidable (_ ∧ _))

/-- A record whose vertices are there stands for a module. -/
theorem exists_stands {graph : FlowGraph} {record : ModuleRecord} (h : record.In graph) :
    ∃ view, record.Stands graph view := by
  -- each number of the record is that of a vertex
  have hexport : ∀ e ∈ record.exports.toList, ∃ x : ExportView,
      e.name = x.name ∧ graph.find? x.value = some e.value := fun e he => by
    obtain ⟨v, hv⟩ := FlowGraph.exists_find?_of_lt (h.1 e (Array.mem_toList_iff.1 he))
    exact ⟨⟨e.name, v⟩, rfl, hv⟩
  have himport : ∀ i ∈ record.imports.toList, ∃ x : ImportView, i.specifier = x.specifier ∧
      i.imported = x.imported ∧ graph.find? x.target = some i.target := fun i hi => by
    obtain ⟨v, hv⟩ := FlowGraph.exists_find?_of_lt (h.2 i (Array.mem_toList_iff.1 hi))
    exact ⟨⟨i.specifier, i.imported, v⟩, rfl, rfl, hv⟩
  obtain ⟨exports, hexports⟩ := exists_forall₂ hexport
  obtain ⟨imports, himports⟩ := exists_forall₂ himport
  exact ⟨⟨record.file, record.path, exports, imports, record.requires.toList⟩,
    rfl, rfl, hexports, himports, rfl⟩

variable {graph : FlowGraph} {record : ModuleRecord} {view : ModuleView}

theorem Denotes.isIn (h : record.Denotes graph view) : record.In graph := by
  refine ⟨fun e he => ?_, fun i hi => ?_⟩
  · obtain ⟨x, -, hx⟩ := exists_mem_of_forall₂ h.exports.flip (Array.mem_toList_iff.2 he)
    exact FlowGraph.lt_of_find? hx.2
  · obtain ⟨x, -, hx⟩ := exists_mem_of_forall₂ h.imports.flip (Array.mem_toList_iff.2 hi)
    exact FlowGraph.lt_of_find? hx.2.2

/-- The record has the references of the module. -/
theorem Stands.references (h : record.Stands graph view) :
    record.references = view.references.map fun r => (r.kind, r.specifier) := by
  have himports : record.imports.toList.map ImportBinding.specifier =
      view.imports.map ImportView.specifier :=
    map_eq_of_forall₂ (h.imports.imp fun _ _ hi => hi.1)
  rw [ModuleRecord.references, ModuleView.references, h.requires, List.map_append, List.map_map,
    List.map_map]
  refine congrArg₂ (· ++ ·) ?_ rfl
  have hpairs := congrArg (List.map (Prod.mk DependencyKind.imports)) himports
  rwa [List.map_map, List.map_map] at hpairs

end ModuleRecord

/-! ## References by vertices -/

/-- The vertex receives what the module that the reference leads to exports under this name. -/
def Reference.Receives (r : Reference) (name : String) (v : Vertex) : Prop :=
  match r with
  | .imports i =>
    match i.imported with
    | .default => name = "default" ∧ v = i.target
    | .named asked => name = asked ∧ v = i.target
    | .namespaceObject => name ≠ "default" ∧ v = .prop name
  | .requires r => r.Receives name v

/-- A reference joins what is exported under some name with what receives this name. -/
theorem Reference.mem_joins {r : Reference} {exports : List ExportView} {a b : Vertex}
    (hne : a ≠ b) :
    (a, b) ∈ r.joins exports ↔ ∃ x ∈ exports, a = x.value ∧ r.Receives x.name b := by
  cases r with
  | imports i =>
    simp only [joins, Receives]
    cases i.imported with
    | default | named _ =>
      simp only [ExportView.mem_named, Prod.mk.injEq]
      exact exists_congr fun x => and_congr_right fun _ => and_left_comm
    | namespaceObject =>
      simp only [ExportView.mem_properties, Prod.mk.injEq]
      exact exists_congr fun x => and_congr_right fun _ => and_left_comm
  | requires r =>
    -- the pair of the result with itself joins nothing
    have hself : (a, b) ≠ (.res r.call, .res r.call) := fun heq => by
      obtain ⟨ha, hb⟩ := Prod.mk.inj heq
      exact hne (ha.trans hb.symm)
    simp only [joins, Receives, RequireCall.Receives, List.mem_cons, hself, false_or,
      List.mem_append, ExportView.mem_named, ExportView.mem_properties, Prod.mk.injEq]
    rw [← exists_or]
    refine exists_congr fun x => ?_
    rw [← and_or_left, and_left_comm (b := a = _), and_left_comm (b := a = _), ← and_or_left]

namespace ModuleView

/-- The vertex is what the module that a specifier leads to exports under this name. -/
def Supplies (views : List ModuleView) (path : Path) (specifier name : String) (v : Vertex) :
    Prop :=
  ∃ t, target? views path specifier = some t ∧ ∃ x ∈ t.exports, x.name = name ∧ v = x.value

theorem exists_reference_iff {view : ModuleView} {P : Reference → Prop} :
    (∃ r ∈ view.references, P r) ↔
      (∃ i ∈ view.imports, P (.imports i)) ∨ ∃ r ∈ view.requires, P (.requires r) := by
  simp only [references, List.mem_append, List.mem_map, or_and_right, exists_or,
    exists_exists_and_eq_and]

/-- A reference joins what the module that it leads to supplies. -/
theorem mem_joined {views : List ModuleView} {view : ModuleView} {r : Reference} {a b : Vertex}
    (hne : a ≠ b) :
    (a, b) ∈ view.joined views r ↔
      ∃ name, Supplies views view.path r.specifier name a ∧ r.Receives name b := by
  rw [joined]
  simp only [Supplies]
  cases target? views view.path r.specifier with
  -- a reference that leads nowhere supplies nothing
  | none => simp
  | some t =>
    simp only [Option.map_some, Option.getD_some, Reference.mem_joins hne, Option.some.injEq,
      exists_eq_left']
    constructor
    · rintro ⟨x, hx, ha, hb⟩
      exact ⟨x.name, ⟨x, hx, rfl, ha⟩, hb⟩
    · rintro ⟨_, ⟨x, hx, rfl, ha⟩, hb⟩
      exact ⟨x, hx, ha, hb⟩

end ModuleView

/-! ## From the views to the records -/

theorem exists_iff_of_forall₂ {α β : Type} {R : α → β → Prop} {P : α → Prop} {Q : β → Prop}
    {as : List α} {bs : List β} (h : List.Forall₂ R as bs) (hPQ : ∀ a b, R a b → (P a ↔ Q b)) :
    (∃ a ∈ as, P a) ↔ ∃ b ∈ bs, Q b := by
  induction h with
  | nil => simp
  | cons hab _ ih => simp only [List.exists_mem_cons_iff, hPQ _ _ hab, ih]

theorem exists_iff_of_rel {α β : Type} {R : α → β → Prop} {P : α → Prop} {Q : β → Prop}
    {a : Option α} {b : Option β} (h : Option.Rel R a b) (hPQ : ∀ a b, R a b → (P a ↔ Q b)) :
    (∃ x, a = some x ∧ P x) ↔ ∃ y, b = some y ∧ Q y := by
  cases h with
  | none => simp
  | some hab => simp [hPQ _ _ hab]

theorem map_eq_of_rel {α β γ : Type} {R : α → β → Prop} {f : α → γ} {g : β → γ} {a : Option α}
    {b : Option β} (h : Option.Rel R a b) (hfg : ∀ a b, R a b → f a = g b) : a.map f = b.map g := by
  cases h with
  | none => rfl
  | some hab => exact congrArg some (hfg _ _ hab)

namespace Linking

section

variable {graph : FlowGraph} {records : Array ModuleRecord} {views : List ModuleView}
  (h : List.Forall₂ (ModuleRecord.Stands graph) records.toList views)
include h

theorem rel_target? (path : Path) (specifier : String) :
    Option.Rel (ModuleRecord.Stands graph) (target? records path specifier)
      (ModuleView.target? views path specifier) :=
  have hviews : Linking.Denoting { graph } records views := h
  rel_resolve hviews path specifier

/-- The dependencies of the modules are read off the records. -/
theorem dependencies_eq_referred :
    views.flatMap (ModuleView.dependencies views) = referred records := by
  refine (flatMap_eq_of_forall₂ (h.imp fun record view hview => ?_)).symm
  rw [ModuleView.dependencies, hview.references, List.filterMap_map,
    List.filterMap_eq_flatMap_toList]
  refine List.flatMap_congr fun r _ => congrArg Option.toList ?_
  show (target? records record.path r.specifier).map _ = (ModuleView.target? _ _ _).map _
  rw [hview.path]
  exact map_eq_of_rel (rel_target? h view.path r.specifier) fun target t htarget => by
    rw [htarget.file, hview.file]

/-- Every reference is counted: as a dependency, or as one that leads nowhere. -/
theorem length_references :
    (views.flatMap (ModuleView.dependencies views)).length +
        (views.map (ModuleView.missing views)).sum =
      (records.toList.map fun record => record.imports.size + record.requires.size).sum := by
  -- a reference is resolved or lost
  have hcounted : ∀ (view : ModuleView) (r : Reference),
      (view.dependency? views r).toList.length + view.lost views r = 1 := fun view r => by
    rw [ModuleView.dependency?, ModuleView.lost]
    cases ModuleView.target? views view.path r.specifier <;> rfl
  have hone : ∀ view : ModuleView, (view.dependencies views).length + view.missing views =
      view.references.length := fun view => by
    rw [ModuleView.dependencies, ModuleView.missing, List.length_flatMap, ← List.sum_map_add]
    simp only [hcounted, List.map_const', List.sum_replicate_nat, Nat.mul_one]
  -- each record has as many references as its module
  have hlength : records.toList.map (fun record => record.imports.size + record.requires.size) =
      views.map fun view => view.references.length :=
    map_eq_of_forall₂ (h.imp fun record view hview => by
      rw [ModuleView.references, List.length_append, List.length_map, List.length_map,
        ← hview.requires, ← hview.imports.length_eq, Array.length_toList, Array.length_toList])
  rw [hlength, List.length_flatMap, ← List.sum_map_add]
  simp only [hone]

/-- What a specifier supplies is said by the records as by the modules. -/
theorem supplies_iff {path : Path} {specifier name : String} {v : Vertex} :
    Supplies graph records path specifier name v ↔
      ModuleView.Supplies views path specifier name v := by
  refine exists_iff_of_rel (rel_target? h path specifier) fun target t htarget => ?_
  have hexports := exists_iff_of_forall₂
    (P := fun e => e.name = name ∧ graph.find? v = some e.value)
    (Q := fun x => x.name = name ∧ v = x.value) htarget.exports fun e x hex => by
      rw [hex.1, ← hex.2]
      refine and_congr_right fun _ => ⟨fun hv => ?_, fun hv => by rw [hv]⟩
      exact FlowGraph.find?_inj (hv.trans hex.2) hex.2
  simpa only [Array.mem_toList_iff] using hexports

omit h in
/-- An import receives a name into the same vertex. -/
theorem receives_iff {i : ImportBinding} {x : ImportView} (himported : i.imported = x.imported)
    (htarget : graph.find? x.target = some i.target) {name : String} {v : Vertex} :
    i.Receives graph name v ↔ (Reference.imports x).Receives name v := by
  have hsame : graph.find? v = some i.target ↔ v = x.target :=
    ⟨fun hv => FlowGraph.find?_inj hv htarget, fun hv => by rw [hv, htarget]⟩
  rw [ImportBinding.Receives, Reference.Receives, himported]
  cases x.imported with
  | default => exact and_congr_right fun _ => hsame
  | named asked => exact and_congr_right fun _ => hsame
  | namespaceObject => exact Iff.rfl

/-- Two different vertices are joined by the references of the views if they are to be joined. -/
theorem mem_joins_iff {a b : Vertex} (hne : a ≠ b) :
    (a, b) ∈ views.flatMap (ModuleView.joins views) ↔ Joins graph records a b := by
  -- record by record, first the imports and then the calls of `require`
  have hrecord : ∀ (record : ModuleRecord) (view : ModuleView), record.Stands graph view →
      ((∃ name, (∃ i ∈ record.imports,
          Supplies graph records record.path i.specifier name a ∧ i.Receives graph name b) ∨
        ∃ r ∈ record.requires,
          Supplies graph records record.path r.specifier name a ∧ r.Receives name b) ↔
        ∃ r ∈ view.references, (a, b) ∈ view.joined views r) := by
    intro record view hview
    have himports : ∀ name, (∃ i ∈ record.imports.toList,
        Supplies graph records record.path i.specifier name a ∧ i.Receives graph name b) ↔
          ∃ x ∈ view.imports, ModuleView.Supplies views view.path x.specifier name a ∧
            (Reference.imports x).Receives name b := fun name =>
      exists_iff_of_forall₂ hview.imports fun i x hix => by
        rw [supplies_iff h, hview.path, hix.1, receives_iff hix.2.1 hix.2.2]
    simp only [← Array.mem_toList_iff, himports, hview.requires]
    simp only [hview.path, supplies_iff h, ModuleView.exists_reference_iff,
      ModuleView.mem_joined hne]
    constructor
    · rintro ⟨name, ⟨x, hx, hjoined⟩ | ⟨r, hr, hjoined⟩⟩
      · exact Or.inl ⟨x, hx, name, hjoined⟩
      · exact Or.inr ⟨r, hr, name, hjoined⟩
    · rintro (⟨x, hx, name, hjoined⟩ | ⟨r, hr, name, hjoined⟩)
      · exact ⟨name, Or.inl ⟨x, hx, hjoined⟩⟩
      · exact ⟨name, Or.inr ⟨r, hr, hjoined⟩⟩
  have hrecords := exists_iff_of_forall₂ h hrecord
  simp only [ModuleView.joins, List.mem_flatMap]
  rw [← hrecords]
  simp only [Array.mem_toList_iff, Joins]

end

theorem exists_views {graph : FlowGraph} {records : Array ModuleRecord}
    (hin : ∀ record ∈ records, record.In graph) :
    ∃ views, List.Forall₂ (ModuleRecord.Stands graph) records.toList views :=
  exists_forall₂ fun record hrecord =>
    ModuleRecord.exists_stands (hin record (Array.mem_toList_iff.1 hrecord))

/-- The edges after linking are those before it and those that join two vertices. -/
theorem mem_edgeSet_run {graph : FlowGraph} {records : Array ModuleRecord}
    (hin : ∀ record ∈ records, record.In graph) {a b : Vertex} :
    (a, b) ∈ (run graph records).graph.edgeSet ↔
      (a, b) ∈ graph.edgeSet ∨ Joins graph records a b ∧ a ≠ b := by
  obtain ⟨views, h⟩ := exists_views hin
  rw [(adds_run h).edges]
  exact or_congr_right (and_congr_left fun hne => mem_joins_iff h hne)

/-- **Linking is exact.** Whatever the graph and the records, as long as the numbers in these are
numbers of the graph, linking joins what is to be joined and nothing else, counts the edges that it
adds and the references that it resolves and does not, and notes one dependency for each two files
of which one refers to the other: the first. A specifier leads to the last of the records at the
first place that has any. -/
theorem run_exact (graph : FlowGraph) (records : Array ModuleRecord)
    (hin : ∀ record ∈ records, record.In graph) :
    Exact graph records (run graph records) ∧ ∀ path specifier target,
      target? records path specifier = some target ↔ Leads records path specifier target := by
  refine ⟨?_, fun path specifier target => target?_eq_some_iff⟩
  -- the records are seen as modules, whose linking is known
  obtain ⟨views, h⟩ := exists_views hin
  have hadds := adds_run h
  have hreferred := dependencies_eq_referred h
  have hnoted : (run graph records).dependencies = ModuleDependency.noted (referred records) := by
    rw [hadds.noted, hreferred]
    rfl
  exact
    -- what is known of the modules, said of the records
    { edges := fun a b => mem_edgeSet_run hin
      edgesAdded := hadds.counted
      resolved := by
        rw [hadds.resolved, hreferred]
        exact Nat.zero_add _
      references := by
        rw [hadds.resolved, hadds.unresolved, ← length_references h]
        show 0 + _ + (0 + _) = _
        rw [Nat.zero_add, Nat.zero_add]
      dependencies := by rw [hnoted, ModuleDependency.toList_noted]
      onePerPair := by
        rw [hnoted]
        exact ModuleDependency.nodup_noted _
      firsts := fun d => by rw [hnoted, ModuleDependency.mem_noted] }

namespace Example

/-- A graph with a function and a variable. -/
def graph : FlowGraph := ((FlowGraph.empty.intern (.func ⟨0⟩)).2.intern (.var ⟨0⟩)).2

/-- A record that exports the function. -/
def exporter : ModuleRecord := { file := ⟨1⟩, path := ⟨"./lib.js"⟩, exports := #[⟨"f", ⟨0⟩⟩] }

/-- A record that imports the function into the variable and requires the same file. -/
def importer : ModuleRecord where
  file := ⟨2⟩
  path := ⟨"main.js"⟩
  imports := #[⟨"./lib", .named "f", ⟨1⟩⟩]
  requires := #[⟨"./lib", ⟨0⟩⟩]

/-- Another record with the path of the exporter comes first. -/
def records : Array ModuleRecord := #[{ file := ⟨0⟩, path := ⟨"lib.js"⟩ }, exporter, importer]

end Example

/-- The function flows to the variable, and the two references to one file are one dependency. -/
theorem run_exact_example :
    (∀ record ∈ Example.records, record.In Example.graph) ∧
      (.func ⟨0⟩, .var ⟨0⟩) ∈ (run Example.graph Example.records).graph.edgeSet ∧
      (run Example.graph Example.records).dependencies.toList = [⟨⟨2⟩, ⟨1⟩, .imports⟩] := by
  have hin : ∀ record ∈ Example.records, record.In Example.graph := by decide +kernel
  obtain ⟨hexact, -⟩ := run_exact Example.graph Example.records hin
  have himporter : Example.importer ∈ Example.records := Array.mem_of_getElem? (i := 2) rfl
  -- the specifier leads to the second of two files at one place
  have htarget : Module.resolve (knownFiles Example.records) Example.importer.path "./lib" =
      some 1 := by
    decide +kernel
  have hsupplies : Supplies Example.graph Example.records Example.importer.path "./lib" "f"
      (.func ⟨0⟩) := by
    refine ⟨Example.exporter, ?_, _, Array.mem_of_getElem? (i := 0) rfl, rfl, by decide +kernel⟩
    rw [target?, htarget]
    rfl
  have hreceives : Example.importer.imports[0].Receives Example.graph "f" (.var ⟨0⟩) :=
    ⟨rfl, by decide +kernel⟩
  have hjoins : Joins Example.graph Example.records (.func ⟨0⟩) (.var ⟨0⟩) :=
    ⟨_, himporter, "f", Or.inl ⟨_, Array.mem_of_getElem? (i := 0) rfl, hsupplies, hreceives⟩⟩
  have hreferred : (referred Example.records).eraseDupsBy (fun d e => d.files = e.files) =
      [⟨⟨2⟩, ⟨1⟩, .imports⟩] := by
    decide +kernel
  exact ⟨hin, (hexact.edges _ _).2 (Or.inr ⟨hjoins, nofun⟩), hexact.dependencies.trans hreferred⟩

end Linking

end CallFlow
