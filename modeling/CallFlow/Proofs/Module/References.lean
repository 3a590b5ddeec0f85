import CallFlow.Module.Linking
import CallFlow.Proofs.Module.View

/-!
# What modules take from each other

The references of a module are its imports and its calls of `require`. Each one may lead to
another module, whose exports are then joined with what receives them. All of this is said of
views, without the graph that is linked.
-/

namespace CallFlow

/-- A reference to another module. -/
inductive Reference
  | imports (i : ImportView)
  | requires (r : RequireCall)

namespace ExportView

/-- Every export of a name, joined with what receives it. -/
def named (exports : List ExportView) (name : String) (target : Vertex) : List (Vertex × Vertex) :=
  exports.flatMap fun e => if e.name = name then [(e.value, target)] else []

/-- Every export but the default one, joined with the property of its name. -/
def properties (exports : List ExportView) : List (Vertex × Vertex) :=
  exports.flatMap fun e => if e.name = "default" then [] else [(e.value, .prop e.name)]

variable {exports : List ExportView} {e : Vertex × Vertex}

theorem mem_named {name : String} {target : Vertex} :
    e ∈ named exports name target ↔ ∃ x ∈ exports, x.name = name ∧ e = (x.value, target) := by
  simp only [named, List.mem_flatMap, List.mem_ite_nil_right, List.mem_singleton]

theorem mem_properties :
    e ∈ properties exports ↔
      ∃ x ∈ exports, x.name ≠ "default" ∧ e = (x.value, .prop x.name) := by
  simp only [properties, List.mem_flatMap, List.mem_ite_nil_left, List.mem_singleton]

end ExportView

namespace Reference

/-- How the reference is written. -/
def kind : Reference → DependencyKind
  | .imports _ => .imports
  | .requires _ => .requires

/-- What the reference is written with. -/
def specifier : Reference → String
  | .imports i => i.specifier
  | .requires r => r.specifier

/-- What is joined if the reference leads to a module with these exports. The result of a call of
`require` is met even if nothing flows to it, which a pair with itself says. -/
def joins : Reference → List ExportView → List (Vertex × Vertex)
  | .imports i, exports =>
    match i.imported with
    | .default => ExportView.named exports "default" i.target
    | .named name => ExportView.named exports name i.target
    | .namespaceObject => ExportView.properties exports
  | .requires r, exports =>
    (.res r.call, .res r.call) ::
      (ExportView.named exports "default" (.res r.call) ++ ExportView.properties exports)

end Reference

namespace ModuleView

/-- The references of a module, in the order in which they are linked. -/
def references (view : ModuleView) : List Reference :=
  view.imports.map .imports ++ view.requires.map .requires

/-- The module that a specifier in the file at `path` leads to. -/
def target? (views : List ModuleView) (path : Path) (specifier : String) : Option ModuleView :=
  if Module.isRelative specifier then
    (Module.candidates (Module.target path specifier)).findSome? fun place =>
      views.reverse.find? fun v => v.path.normalize.components = place.components
  else none

/-- What is joined for one reference of a module. -/
def joined (views : List ModuleView) (view : ModuleView) (r : Reference) :
    List (Vertex × Vertex) :=
  ((target? views view.path r.specifier).map fun t => r.joins t.exports).getD []

/-- The dependency for a reference that leads to a module. -/
def dependency? (views : List ModuleView) (view : ModuleView) (r : Reference) :
    Option ModuleDependency :=
  (target? views view.path r.specifier).map fun t => ⟨view.file, t.file, r.kind⟩

/-- One for a reference that leads to no module. -/
def lost (views : List ModuleView) (view : ModuleView) (r : Reference) : ℕ :=
  if (target? views view.path r.specifier).isSome then 0 else 1

/-- All that is joined for the references of a module. -/
def joins (views : List ModuleView) (view : ModuleView) : List (Vertex × Vertex) :=
  view.references.flatMap (view.joined views)

/-- The dependencies of a module, one for each reference that leads to a module. -/
def dependencies (views : List ModuleView) (view : ModuleView) : List ModuleDependency :=
  view.references.flatMap fun r => (view.dependency? views r).toList

/-- The number of references that lead to no module. -/
def missing (views : List ModuleView) (view : ModuleView) : ℕ :=
  (view.references.map (view.lost views)).sum

end ModuleView

/-! ## Which module a specifier leads to -/

namespace Module

variable {α : Type}

/-- The places of some modules, with their numbers. -/
def places (pathOf : α → Path) (modules : List α) : KnownFiles :=
  modules.zipIdx.map fun (m, k) => ((pathOf m).normalize, k)

theorem lt_of_find?_places {pathOf : α → Path} {modules : List α} {place : Path} {k : ℕ}
    (h : (places pathOf modules).find? place = some k) : k < modules.length := by
  obtain ⟨entry, hentry, rfl⟩ := Option.map_eq_some_iff.1 h
  obtain ⟨⟨m, j⟩, hmem, rfl⟩ :=
    List.mem_map.1 (List.mem_reverse.1 (List.mem_of_find?_eq_some hentry))
  simpa using (List.mem_zipIdx hmem).2.1

/-- A module that comes later takes the place of one with the same path. -/
theorem find?_places_append (pathOf : α → Path) (modules : List α) (m : α) (place : Path) :
    (places pathOf (modules ++ [m])).find? place =
      if (pathOf m).normalize.components = place.components then some modules.length
      else (places pathOf modules).find? place := by
  have hplaces : places pathOf (modules ++ [m]) =
      places pathOf modules ++ [((pathOf m).normalize, modules.length)] := by
    simp [places, List.zipIdx_append]
  rw [KnownFiles.find?, hplaces, List.reverse_append, List.reverse_singleton,
    List.singleton_append]
  split
  · next h => rw [List.find?_cons_of_pos (by simpa using h), Option.map_some]
  · next h => rw [List.find?_cons_of_neg (by simpa using h), KnownFiles.find?]

/-- The module at a place is the last one with this path. -/
theorem find?_places (pathOf : α → Path) (modules : List α) (place : Path) :
    ((places pathOf modules).find? place).bind (modules[·]?) =
      modules.reverse.find? fun m => (pathOf m).normalize.components = place.components := by
  induction modules using List.reverseRecOn with
  | nil => rfl
  | append_singleton modules m ih =>
    rw [find?_places_append, List.reverse_append, List.reverse_singleton, List.singleton_append]
    split
    -- the last module has this path
    · next h =>
      rw [List.find?_cons_of_pos (by simpa using h), Option.bind_some]
      exact List.getElem?_concat_length ..
    · next h =>
      rw [List.find?_cons_of_neg (by simpa using h), ← ih]
      refine Option.bind_congr fun k hk => ?_
      exact List.getElem?_append_left (lt_of_find?_places hk)

/-- What a specifier resolves to is the last module at the first place that has one. -/
theorem bind_resolve_places (pathOf : α → Path) (modules : List α) (path : Path)
    (specifier : String) :
    (resolve (places pathOf modules) path specifier).bind (modules[·]?) =
      if isRelative specifier then
        (candidates (target path specifier)).findSome? fun place =>
          modules.reverse.find? fun m => (pathOf m).normalize.components = place.components
      else none := by
  rw [resolve]
  -- a specifier of a package leads to no file
  split
  · simp only [← find?_places pathOf modules]
    induction candidates (target path specifier) with
    | nil => rfl
    | cons place rest ih =>
      rw [List.findSome?_cons, List.findSome?_cons]
      cases hfound : (places pathOf modules).find? place with
      | none => exact ih
      | some k =>
        have hlt := lt_of_find?_places hfound
        simp [hlt]
  · rfl

/-- A specifier leads to the module whose number it resolves to. -/
theorem resolve_places (views : List ModuleView) (path : Path) (specifier : String) :
    (resolve (places ModuleView.path views) path specifier).bind (views[·]?) =
      ModuleView.target? views path specifier :=
  bind_resolve_places ModuleView.path views path specifier

end Module

/-! ## References under a renaming -/

namespace Renaming

variable (ρ : Renaming)

/-- A renamed reference. -/
def reference : Reference → Reference
  | .imports i => .imports (ρ.importView i)
  | .requires r => .requires (ρ.requireCall r)

/-- A dependency between the renamed files. -/
def dependency (d : ModuleDependency) : ModuleDependency :=
  { d with source := ρ.fileId d.source, target := ρ.fileId d.target }

@[simp]
theorem kind_reference (r : Reference) : (ρ.reference r).kind = r.kind := by
  cases r <;> rfl

@[simp]
theorem specifier_reference (r : Reference) : (ρ.reference r).specifier = r.specifier := by
  cases r <;> rfl

theorem references_view (view : ModuleView) :
    (ρ.view view).references = view.references.map ρ.reference := by
  simp only [ModuleView.references, Renaming.view, List.map_append, List.map_map]
  rfl

/-- Exports are found by their names, which stay. -/
theorem named_exportView (exports : List ExportView) (name : String) (target : Vertex) :
    ExportView.named (exports.map ρ.exportView) name (ρ.vertex target) =
      (ExportView.named exports name target).map ρ.edge := by
  rw [ExportView.named, ExportView.named, List.flatMap_map, List.map_flatMap]
  refine List.flatMap_congr fun e _ => ?_
  show (if e.name = name then _ else _) = _
  split <;> rfl

theorem properties_exportView (exports : List ExportView) :
    ExportView.properties (exports.map ρ.exportView) =
      (ExportView.properties exports).map ρ.edge := by
  rw [ExportView.properties, ExportView.properties, List.flatMap_map, List.map_flatMap]
  refine List.flatMap_congr fun e _ => ?_
  show (if e.name = "default" then _ else _) = _
  split <;> rfl

/-- A renamed reference joins the renamed vertices. -/
theorem joins_reference (r : Reference) (exports : List ExportView) :
    (ρ.reference r).joins (exports.map ρ.exportView) = (r.joins exports).map ρ.edge := by
  cases r with
  | imports i =>
    obtain ⟨specifier, imported, target⟩ := i
    cases imported with
    | default => exact ρ.named_exportView exports "default" target
    | named name => exact ρ.named_exportView exports name target
    | namespaceObject => exact ρ.properties_exportView exports
  | requires r =>
    rw [Reference.joins, List.map_cons, List.map_append, ← ρ.named_exportView,
      ← ρ.properties_exportView]
    rfl

/-- A specifier leads to the renamed module, since paths stay. -/
theorem target?_view (views : List ModuleView) (path : Path) (specifier : String) :
    ModuleView.target? (views.map ρ.view) path specifier =
      (ModuleView.target? views path specifier).map ρ.view := by
  have hpath : ∀ place : Path,
      (fun v : ModuleView => decide (v.path.normalize.components = place.components)) ∘ ρ.view =
        fun v => decide (v.path.normalize.components = place.components) := fun _ => rfl
  rw [ModuleView.target?, ModuleView.target?]
  split
  · simp only [← List.map_reverse, List.find?_map, hpath, List.map_findSome?]
    rfl
  · rfl

/-- A renamed module joins what it joined, renamed. -/
theorem joins_view (views : List ModuleView) (view : ModuleView) :
    (ρ.view view).joins (views.map ρ.view) = (view.joins views).map ρ.edge := by
  rw [ModuleView.joins, ModuleView.joins, ρ.references_view, List.flatMap_map, List.map_flatMap]
  refine List.flatMap_congr fun r _ => ?_
  rw [ModuleView.joined, ModuleView.joined, specifier_reference,
    show (ρ.view view).path = view.path from rfl, target?_view]
  cases ModuleView.target? views view.path r.specifier with
  | none => rfl
  | some t => exact ρ.joins_reference r t.exports

/-- It depends on the renamed files. -/
theorem dependencies_view (views : List ModuleView) (view : ModuleView) :
    (ρ.view view).dependencies (views.map ρ.view) =
      (view.dependencies views).map ρ.dependency := by
  rw [ModuleView.dependencies, ModuleView.dependencies, ρ.references_view, List.flatMap_map,
    List.map_flatMap]
  refine List.flatMap_congr fun r _ => ?_
  rw [ModuleView.dependency?, ModuleView.dependency?, specifier_reference, kind_reference,
    show (ρ.view view).path = view.path from rfl, target?_view]
  cases ModuleView.target? views view.path r.specifier <;> rfl

theorem missing_view (views : List ModuleView) (view : ModuleView) :
    (ρ.view view).missing (views.map ρ.view) = view.missing views := by
  rw [ModuleView.missing, ModuleView.missing, ρ.references_view, List.map_map]
  refine congrArg List.sum (List.map_congr_left fun r _ => ?_)
  rw [Function.comp_apply, ModuleView.lost, ModuleView.lost, specifier_reference,
    show (ρ.view view).path = view.path from rfl, target?_view, Option.isSome_map]

end Renaming

/-! ## The order of modules -/

namespace ModuleView

/-- No two modules have the same path. -/
def Apart (views : List ModuleView) : Prop :=
  (views.map fun v => v.path.normalize.components).Nodup

variable {views views' : List ModuleView}

theorem Apart.eq (h : Apart views) {v w : ModuleView} (hv : v ∈ views) (hw : w ∈ views)
    (hpath : v.path.normalize.components = w.path.normalize.components) : v = w :=
  List.inj_on_of_nodup_map h hv hw hpath

/-- What is found is what has the property, if only one entry has it. -/
theorem find?_eq_some_iff_mem {α : Type} {l : List α} {p : α → Bool}
    (hunique : ∀ a ∈ l, ∀ b ∈ l, p a = true → p b = true → a = b) {a : α} :
    l.find? p = some a ↔ a ∈ l ∧ p a = true := by
  refine ⟨fun h => ⟨List.mem_of_find?_eq_some h, List.find?_some h⟩, fun ⟨ha, hpa⟩ => ?_⟩
  cases hfound : l.find? p with
  | none => exact absurd hpa (List.find?_eq_none.1 hfound a ha)
  | some b =>
    rw [hunique b (List.mem_of_find?_eq_some hfound) a ha (List.find?_some hfound) hpa]

/-- A specifier leads to the same module in any order of modules with different paths. -/
theorem target?_perm (h : Apart views) (hperm : views'.Perm views) (path : Path)
    (specifier : String) : target? views' path specifier = target? views path specifier := by
  have hfind : ∀ place : Path,
      (views'.reverse.find? fun v => v.path.normalize.components = place.components) =
        views.reverse.find? fun v => v.path.normalize.components = place.components := by
    intro place
    have hunique : ∀ v ∈ views, ∀ w ∈ views,
        decide (v.path.normalize.components = place.components) = true →
          decide (w.path.normalize.components = place.components) = true → v = w :=
      fun v hv w hw hvp hwp =>
        h.eq hv hw ((of_decide_eq_true hvp).trans (of_decide_eq_true hwp).symm)
    refine Option.ext fun v => ?_
    rw [find?_eq_some_iff_mem (by simpa [hperm.mem_iff] using hunique),
      find?_eq_some_iff_mem (by simpa using hunique), List.mem_reverse, List.mem_reverse,
      hperm.mem_iff]
  rw [target?, target?]
  simp only [hfind]

end ModuleView

end CallFlow
