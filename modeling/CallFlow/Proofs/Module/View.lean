import CallFlow.Module.Record
import CallFlow.Proofs.FileFlow.Sound
import Mathlib.Data.List.Forall2

/-!
# Module records without vertex numbers

A record holds numbers of vertices, which depend on the graph. Its view holds the vertices
themselves. A record denotes the same view as long as the graph only grows.
-/

namespace CallFlow

/-- An export by the vertex of its value. -/
structure ExportView where
  name : String
  value : Vertex

/-- An import by the vertex that receives it. -/
structure ImportView where
  specifier : String
  imported : ImportedName
  target : Vertex

/-- A module record by vertices. -/
structure ModuleView where
  file : FileId
  path : Path
  exports : List ExportView := []
  imports : List ImportView := []
  requires : List RequireCall := []

namespace ModuleView

/-- The vertices that linking joins: what is exported, what receives imports, and the results of
the calls of `require`. -/
def vertices (view : ModuleView) : List Vertex :=
  view.exports.map ExportView.value ++ view.imports.map ImportView.target ++
    view.requires.map fun r => .res r.call

theorem value_mem_vertices {view : ModuleView} {e : ExportView} (h : e ∈ view.exports) :
    e.value ∈ view.vertices :=
  List.mem_append_left _ (List.mem_append_left _ (List.mem_map_of_mem h))

theorem target_mem_vertices {view : ModuleView} {i : ImportView} (h : i ∈ view.imports) :
    i.target ∈ view.vertices :=
  List.mem_append_left _ (List.mem_append_right _ (List.mem_map_of_mem h))

theorem res_mem_vertices {view : ModuleView} {r : RequireCall} (h : r ∈ view.requires) :
    .res r.call ∈ view.vertices :=
  List.mem_append_right _ (List.mem_map_of_mem (f := fun r : RequireCall => Vertex.res r.call) h)

/-- The numbers in a view are in use. -/
def Within (n : Extent) (view : ModuleView) : Prop :=
  view.file.index < n .file ∧ ∀ v ∈ view.vertices, v.Within n

end ModuleView

namespace Renaming

/-- An export with its value renamed. -/
def exportView (ρ : Renaming) (e : ExportView) : ExportView := { e with value := ρ.vertex e.value }

/-- An import with its target renamed. -/
def importView (ρ : Renaming) (i : ImportView) : ImportView :=
  { i with target := ρ.vertex i.target }

/-- A call of `require`, renamed. -/
def requireCall (ρ : Renaming) (r : RequireCall) : RequireCall := { r with call := ρ.callId r.call }

/-- A module with all its vertices renamed. -/
def view (ρ : Renaming) (view : ModuleView) : ModuleView where
  file := ρ.fileId view.file
  path := view.path
  exports := view.exports.map ρ.exportView
  imports := view.imports.map ρ.importView
  requires := view.requires.map ρ.requireCall

variable (ρ σ : Renaming)

theorem vertices_view (view : ModuleView) :
    (ρ.view view).vertices = view.vertices.map ρ.vertex := by
  simp only [ModuleView.vertices, Renaming.view, List.map_append, List.map_map]
  rfl

@[simp]
theorem view_refl (view : ModuleView) : refl.view view = view := by
  have hexport : refl.exportView = id := funext fun e => by simp [exportView]
  have himport : refl.importView = id := funext fun i => by simp [importView]
  have hrequire : refl.requireCall = id := rfl
  simp only [Renaming.view, hexport, himport, hrequire, List.map_id]
  rfl

/-- One renaming after the other. -/
theorem view_trans (view : ModuleView) : (ρ.trans σ).view view = σ.view (ρ.view view) := by
  have hexport : (ρ.trans σ).exportView = σ.exportView ∘ ρ.exportView :=
    funext fun e => by simp [exportView, vertex_trans]
  have himport : (ρ.trans σ).importView = σ.importView ∘ ρ.importView :=
    funext fun i => by simp [importView, vertex_trans]
  simp only [Renaming.view, hexport, himport, List.map_map]
  rfl

variable {ρ σ}

/-- Only what the module has is renamed. -/
theorem AgreeOn.view {n : Extent} (h : ρ.AgreeOn σ n) {view : ModuleView} (hview : view.Within n) :
    ρ.view view = σ.view view := by
  obtain ⟨hfile, hvertices⟩ := hview
  have hexports : view.exports.map ρ.exportView = view.exports.map σ.exportView :=
    List.map_congr_left fun e he => by
      rw [exportView, exportView, h.vertex (hvertices _ (ModuleView.value_mem_vertices he))]
  have himports : view.imports.map ρ.importView = view.imports.map σ.importView :=
    List.map_congr_left fun i hi => by
      rw [importView, importView, h.vertex (hvertices _ (ModuleView.target_mem_vertices hi))]
  have hrequires : view.requires.map ρ.requireCall = view.requires.map σ.requireCall :=
    List.map_congr_left fun r hr => by
      rw [requireCall, requireCall, h.callId (hvertices _ (ModuleView.res_mem_vertices hr))]
  rw [Renaming.view, Renaming.view, hexports, himports, hrequires]
  exact congrArg (fun i => ({ view with
    file := ⟨i⟩, exports := _, imports := _, requires := _ } : ModuleView)) (h .file _ hfile)

end Renaming

theorem ModuleView.Within.mono {n m : Extent} (h : n ≤ m) {view : ModuleView}
    (hview : view.Within n) : view.Within m :=
  ⟨hview.1.trans_le (h .file), fun v hv => (hview.2 v hv).mono h⟩

theorem ModuleView.Within.shift {n m : Extent} {view : ModuleView} (hview : view.Within m) :
    ((Renaming.shift n).view view).Within (n + m) := by
  refine ⟨Nat.add_lt_add_left hview.1 _, fun v hv => ?_⟩
  rw [Renaming.vertices_view] at hv
  obtain ⟨u, hu, rfl⟩ := List.mem_map.1 hv
  exact Renaming.vertex_shift_within (hview.2 u hu)

/-! ## What a record denotes -/

/-- Every member of the second list has its counterpart. -/
theorem exists_mem_of_forall₂ {α β : Type} {R : α → β → Prop} {as : List α} {bs : List β}
    (h : List.Forall₂ R as bs) {b : β} (hb : b ∈ bs) : ∃ a ∈ as, R a b := by
  induction h with
  | nil => cases hb
  | @cons a b' as bs hab _ ih =>
    rcases List.mem_cons.1 hb with rfl | hb
    · exact ⟨a, List.mem_cons_self, hab⟩
    · obtain ⟨a', ha', hab'⟩ := ih hb
      exact ⟨a', List.mem_cons_of_mem _ ha', hab'⟩

/-- A list that is related to another, if all of its entries are to something. -/
theorem exists_forall₂ {α β : Type} {R : α → β → Prop} {as : List α} (h : ∀ a ∈ as, ∃ b, R a b) :
    ∃ bs, List.Forall₂ R as bs := by
  induction as with
  | nil => exact ⟨[], .nil⟩
  | cons a as ih =>
    obtain ⟨b, hb⟩ := h a List.mem_cons_self
    obtain ⟨bs, hbs⟩ := ih fun x hx => h x (List.mem_cons_of_mem a hx)
    exact ⟨b :: bs, .cons hb hbs⟩

theorem map_eq_of_forall₂ {α β γ : Type} {f : α → γ} {g : β → γ} {as : List α} {bs : List β}
    (h : List.Forall₂ (fun a b => f a = g b) as bs) : as.map f = bs.map g := by
  induction h with
  | nil => rfl
  | cons hab _ ih => exact List.cons_eq_cons.2 ⟨hab, ih⟩

/-- Entries under the same number are related. -/
theorem rel_getElem?_of_forall₂ {α β : Type} {R : α → β → Prop} {as : List α} {bs : List β}
    (h : List.Forall₂ R as bs) (k : ℕ) : Option.Rel R as[k]? bs[k]? := by
  induction h generalizing k with
  | nil => exact .none
  | cons hab _ ih =>
    cases k with
    | zero => exact .some hab
    | succ k => exact ih k

namespace ModuleRecord

/-- The numbers in the record are those of the vertices in the view. -/
structure Stands (graph : FlowGraph) (record : ModuleRecord) (view : ModuleView) : Prop where
  file : record.file = view.file
  path : record.path = view.path
  exports : List.Forall₂ (fun e x => e.name = x.name ∧ graph.find? x.value = some e.value)
    record.exports.toList view.exports
  imports : List.Forall₂ (fun i x => i.specifier = x.specifier ∧ i.imported = x.imported ∧
    graph.find? x.target = some i.target) record.imports.toList view.imports
  requires : record.requires.toList = view.requires

/-- The record stands for the view, and the graph has what its calls of `require` result in. -/
structure Denotes (graph : FlowGraph) (record : ModuleRecord) (view : ModuleView) : Prop extends
    record.Stands graph view where
  results : ∀ r ∈ view.requires, graph.Has (.res r.call)

/-- A record stands for its module as long as the vertices keep their numbers. -/
theorem Stands.mono {graph later : FlowGraph} {record : ModuleRecord} {view : ModuleView}
    (h : record.Stands graph view)
    (hkeep : ∀ v id, graph.find? v = some id → later.find? v = some id) :
    record.Stands later view :=
  { h with
    exports := h.exports.imp fun _ _ he => he.imp_right (hkeep _ _)
    imports := h.imports.imp fun _ _ hi => ⟨hi.1, hi.2.1, hkeep _ _ hi.2.2⟩ }

namespace Denotes

variable {graph later : FlowGraph} {record : ModuleRecord} {view : ModuleView}

theorem mono (h : record.Denotes graph view)
    (hkeep : ∀ v id, graph.find? v = some id → later.find? v = some id) :
    record.Denotes later view :=
  { h.toStands.mono hkeep with
    results := fun r hr => (h.results r hr).imp fun id => hkeep _ id }

/-- All vertices of a view are in the graph. -/
theorem has (h : record.Denotes graph view) {v : Vertex} (hv : v ∈ view.vertices) :
    graph.Has v := by
  rcases List.mem_append.1 hv with hv | hv
  · rcases List.mem_append.1 hv with hv | hv
    · obtain ⟨x, hx, rfl⟩ := List.mem_map.1 hv
      obtain ⟨e, -, he⟩ := exists_mem_of_forall₂ h.exports hx
      exact ⟨_, he.2⟩
    · obtain ⟨x, hx, rfl⟩ := List.mem_map.1 hv
      obtain ⟨i, -, hi⟩ := exists_mem_of_forall₂ h.imports hx
      exact ⟨_, hi.2.2⟩
  · obtain ⟨r, hr, rfl⟩ := List.mem_map.1 hv
    exact h.results r hr

/-- Numbers tell the vertices. -/
theorem unique (h : record.Denotes graph view) {other : ModuleView}
    (h' : record.Denotes graph other) : view = other := by
  -- one number is that of one vertex
  have hexports : view.exports = other.exports := by
    refine List.right_unique_forall₂' (fun e x y hx hy => ?_) h.exports h'.exports
    have hvalue : x.value = y.value := FlowGraph.find?_inj hx.2 hy.2
    have hname : x.name = y.name := hx.1.symm.trans hy.1
    cases x
    cases y
    exact (ExportView.mk.injEq ..).mpr ⟨hname, hvalue⟩
  have himports : view.imports = other.imports := by
    refine List.right_unique_forall₂' (fun i x y hx hy => ?_) h.imports h'.imports
    have htarget : x.target = y.target := FlowGraph.find?_inj hx.2.2 hy.2.2
    have himported : x.imported = y.imported := hx.2.1.symm.trans hy.2.1
    have hspecifier : x.specifier = y.specifier := hx.1.symm.trans hy.1
    cases x
    cases y
    exact (ImportView.mk.injEq ..).mpr ⟨hspecifier, himported, htarget⟩
  have hfile : view.file = other.file := h.file.symm.trans h'.file
  have hpath : view.path = other.path := h.path.symm.trans h'.path
  have hrequires : view.requires = other.requires := h.requires.symm.trans h'.requires
  cases view
  cases other
  exact (ModuleView.mk.injEq ..).mpr ⟨hfile, hpath, hexports, himports, hrequires⟩

/-- A further export is one of the module. -/
theorem addExport (h : record.Denotes graph view) (name : String) {v : Vertex} {id : VertexId}
    (hv : graph.find? v = some id) :
    ({ record with exports := record.exports.push ⟨name, id⟩ } : ModuleRecord).Denotes graph
      { view with exports := view.exports ++ [⟨name, v⟩] } :=
  { h with
    exports := by
      rw [Array.toList_push]
      exact List.rel_append h.exports (.cons ⟨rfl, hv⟩ .nil) }

/-- A further import is one of the module. -/
theorem addImport (h : record.Denotes graph view) (specifier : String) (imported : ImportedName)
    {v : Vertex} {id : VertexId} (hv : graph.find? v = some id) :
    ({ record with imports := record.imports.push ⟨specifier, imported, id⟩ }
      : ModuleRecord).Denotes graph
      { view with imports := view.imports ++ [⟨specifier, imported, v⟩] } :=
  { h with
    imports := by
      rw [Array.toList_push]
      exact List.rel_append h.imports (.cons ⟨rfl, rfl, hv⟩ .nil) }

/-- A further call of `require` is one of the module. -/
theorem addRequire (h : record.Denotes graph view) (specifier : String) {call : CallId}
    (hcall : graph.Has (.res call)) :
    ({ record with requires := record.requires.push ⟨specifier, call⟩ } : ModuleRecord).Denotes
      graph { view with requires := view.requires ++ [⟨specifier, call⟩] } :=
  { h with
    requires := by rw [Array.toList_push, h.requires]
    results := fun r hr => by
      rcases List.mem_append.1 hr with hr | hr
      · exact h.results r hr
      · rwa [List.mem_singleton.1 hr] }

end Denotes

end ModuleRecord

end CallFlow
