import CallFlow.Proofs.Module.Linking
import CallFlow.Proofs.Renaming.Mirror

/-!
# Linking under a renaming

Modules which are the same up to a renaming, and in whatever order lead to the same modules, join
the same and count the same.
-/

namespace CallFlow

namespace ModuleView

/-- The modules are the same up to a renaming, and the references in them lead to the same. -/
structure Matched (ρ : Renaming) (views views' : List ModuleView) : Prop where
  perm : views'.Perm (views.map ρ.view)
  target? : ∀ path specifier,
    target? views' path specifier = target? (views.map ρ.view) path specifier

namespace Matched

variable {ρ : Renaming} {views views' : List ModuleView}

theorem refl (ρ : Renaming) (views : List ModuleView) : Matched ρ views (views.map ρ.view) :=
  ⟨.refl _, fun _ _ => rfl⟩

/-- With different paths the order does not matter. -/
theorem of_apart (hperm : views'.Perm (views.map ρ.view)) (happart : Apart views) :
    Matched ρ views views' := by
  refine ⟨hperm, target?_perm ?_ hperm⟩
  rw [Apart, List.map_map]
  exact happart

/-- Lists that are the same module by module are the same in some order. -/
theorem flatMap_perm (h : Matched ρ views views') {α : Type} {f f' : ModuleView → List α}
    {g : α → α} (hf : ∀ view, f' (ρ.view view) = (f view).map g) :
    (views'.flatMap f').Perm ((views.flatMap f).map g) := by
  refine (h.perm.flatMap_right f').trans (.of_eq ?_)
  rw [List.flatMap_map, List.map_flatMap]
  exact List.flatMap_congr fun view _ => hf view

theorem joins_eq (h : Matched ρ views views') :
    ModuleView.joins views' = ModuleView.joins (views.map ρ.view) :=
  funext fun view => List.flatMap_congr fun r _ => by
    rw [ModuleView.joined, ModuleView.joined, h.target?]

theorem dependencies_eq (h : Matched ρ views views') :
    ModuleView.dependencies views' = ModuleView.dependencies (views.map ρ.view) :=
  funext fun view => List.flatMap_congr fun r _ => by
    rw [ModuleView.dependency?, ModuleView.dependency?, h.target?]

theorem missing_eq (h : Matched ρ views views') :
    ModuleView.missing views' = ModuleView.missing (views.map ρ.view) :=
  funext fun view => congrArg List.sum <| List.map_congr_left fun r _ => by
    rw [ModuleView.lost, ModuleView.lost, h.target?]

theorem joins (h : Matched ρ views views') :
    (views'.flatMap (ModuleView.joins views')).Perm
      ((views.flatMap (ModuleView.joins views)).map ρ.edge) := by
  rw [h.joins_eq]
  exact h.flatMap_perm (ρ.joins_view views)

theorem dependencies (h : Matched ρ views views') :
    (views'.flatMap (ModuleView.dependencies views')).Perm
      ((views.flatMap (ModuleView.dependencies views)).map ρ.dependency) := by
  rw [h.dependencies_eq]
  exact h.flatMap_perm (ρ.dependencies_view views)

theorem missing (h : Matched ρ views views') :
    (views'.map (ModuleView.missing views')).sum =
      (views.map (ModuleView.missing views)).sum := by
  rw [h.missing_eq, (h.perm.map _).sum_eq, List.map_map]
  exact congrArg List.sum (List.map_congr_left fun view _ => ρ.missing_view views view)

theorem mem_joins_iff (h : Matched ρ views views') (e' : Vertex × Vertex) :
    e' ∈ views'.flatMap (ModuleView.joins views') ↔
      ∃ e ∈ views.flatMap (ModuleView.joins views), ρ.edge e = e' := by
  rw [h.joins.mem_iff, List.mem_map]

end Matched

end ModuleView

/-! ## What linking joins -/

theorem ExportView.of_mem_named {exports : List ExportView} {name : String} {target : Vertex}
    {e : Vertex × Vertex} (he : e ∈ named exports name target) :
    (∃ x ∈ exports, e.1 = x.value) ∧ e.2 = target := by
  obtain ⟨x, hx, -, rfl⟩ := mem_named.1 he
  exact ⟨⟨x, hx, rfl⟩, rfl⟩

theorem ExportView.of_mem_properties {exports : List ExportView} {e : Vertex × Vertex}
    (he : e ∈ properties exports) :
    (∃ x ∈ exports, e.1 = x.value) ∧ ∃ name, e.2 = .prop name := by
  obtain ⟨x, hx, -, rfl⟩ := mem_properties.1 he
  exact ⟨⟨x, hx, rfl⟩, _, rfl⟩

namespace ModuleView

/-- The exports of other modules are joined with this vertex. -/
def Receives (view : ModuleView) (v : Vertex) : Prop :=
  (∃ i ∈ view.imports, v = i.target) ∨ (∃ r ∈ view.requires, v = .res r.call) ∨
    ∃ name, v = .prop name

/-- A reference leads an exported value into what the module has for it. -/
theorem receives_of_mem_joins {view : ModuleView} {r : Reference} (hr : r ∈ view.references)
    {exports : List ExportView} {e : Vertex × Vertex} (he : e ∈ r.joins exports) :
    (e.1 = e.2 ∨ ∃ x ∈ exports, e.1 = x.value) ∧ view.Receives e.2 := by
  -- a namespace receives by the properties of all names
  have hproperties : e ∈ ExportView.properties exports →
      (e.1 = e.2 ∨ ∃ x ∈ exports, e.1 = x.value) ∧ view.Receives e.2 := fun h =>
    (ExportView.of_mem_properties h).imp Or.inr fun hprop => Or.inr (Or.inr hprop)
  rcases List.mem_append.1 hr with hr | hr
  · obtain ⟨i, hi, rfl⟩ := List.mem_map.1 hr
    have hnamed : ∀ name, e ∈ ExportView.named exports name i.target →
        (e.1 = e.2 ∨ ∃ x ∈ exports, e.1 = x.value) ∧ view.Receives e.2 := fun _ h =>
      (ExportView.of_mem_named h).imp Or.inr fun heq => Or.inl ⟨i, hi, heq⟩
    simp only [Reference.joins] at he
    split at he
    · exact hnamed _ he
    · exact hnamed _ he
    · exact hproperties he
  · obtain ⟨call, hcall, rfl⟩ := List.mem_map.1 hr
    rcases List.mem_cons.1 he with rfl | he
    · exact ⟨Or.inl rfl, Or.inr (Or.inl ⟨call, hcall, rfl⟩)⟩
    · rcases List.mem_append.1 he with he | he
      · exact (ExportView.of_mem_named he).imp Or.inr fun heq => Or.inr (Or.inl ⟨call, hcall, heq⟩)
      · exact hproperties he

/-- A reference leads to one of the modules. -/
theorem mem_of_target? {views : List ModuleView} {path : Path} {specifier : String}
    {target : ModuleView} (h : target? views path specifier = some target) : target ∈ views := by
  rw [target?] at h
  split at h
  · obtain ⟨place, -, hfind⟩ := List.exists_of_findSome?_eq_some h
    exact List.mem_reverse.1 (List.mem_of_find?_eq_some hfind)
  · cases h

/-- What is exported by one of the modules is joined with what receives it in another. -/
theorem ends_of_mem_joins {views : List ModuleView} {e : Vertex × Vertex}
    (he : e ∈ views.flatMap (ModuleView.joins views)) :
    (e.1 = e.2 ∨ ∃ view ∈ views, ∃ x ∈ view.exports, e.1 = x.value) ∧
      ∃ view ∈ views, view.Receives e.2 := by
  obtain ⟨view, hview, he⟩ := List.mem_flatMap.1 he
  obtain ⟨r, hr, he⟩ := List.mem_flatMap.1 he
  rw [joined] at he
  cases htarget : target? views view.path r.specifier with
  -- a reference that is lost joins nothing
  | none =>
    rw [htarget] at he
    cases he
  | some target =>
    rw [htarget] at he
    obtain ⟨hexport, hreceives⟩ := receives_of_mem_joins hr he
    exact ⟨hexport.imp_right fun hx => ⟨target, mem_of_target? htarget, hx⟩, view, hview, hreceives⟩

end ModuleView

namespace Linking

variable {graph : FlowGraph} {records : Array ModuleRecord} {views : List ModuleView}

/-- Linking adds no vertices but properties. -/
theorem has_run (h : List.Forall₂ (ModuleRecord.Denotes graph) records.toList views) {v : Vertex}
    (hv : (run graph records).graph.Has v) : graph.Has v ∨ ∃ name, v = .prop name := by
  rcases ((run_spec h).vertices v).1 hv with hold | ⟨e, he, rfl⟩
  · exact Or.inl hold
  · obtain ⟨-, view, hview, hreceives⟩ := ModuleView.ends_of_mem_joins he
    obtain ⟨record, -, hrecord⟩ := exists_mem_of_forall₂ h hview
    rcases hreceives with ⟨i, hi, heq⟩ | ⟨r, hr, heq⟩ | hprop
    · exact Or.inl (heq ▸ hrecord.has (ModuleView.target_mem_vertices hi))
    · exact Or.inl (heq ▸ hrecord.has (ModuleView.res_mem_vertices hr))
    · exact Or.inr hprop

section

variable {extra : Set String} {ρ : Renaming} {graph' : FlowGraph}
  {records' : Array ModuleRecord} {views' : List ModuleView}
  (hgraph : graph.Mirrors extra ρ graph')
  (h : List.Forall₂ (ModuleRecord.Denotes graph) records.toList views)
  (h' : List.Forall₂ (ModuleRecord.Denotes graph') records'.toList views')
  (hmatched : ModuleView.Matched ρ views views')
include hgraph h h' hmatched

/-- **Linking under a renaming.** Matching modules leave mirrored graphs. -/
theorem mirrors_run : (run graph records).graph.Mirrors extra ρ (run graph' records').graph := by
  have hadds := run_spec h
  have hadds' := run_spec h'
  -- what is joined in the one graph is joined in the other; the extra functions stay as they are
  refine ⟨fun v' => ?_, fun e' => ?_, fun v' => ?_, fun name hname hhas => ?_⟩
  · rw [hadds'.vertices, hgraph.vertices, or_right_comm]
    refine or_congr_left ?_
    simp only [hadds.vertices, hmatched.mem_joins_iff, or_and_right, exists_or]
    refine or_congr_right ⟨?_, ?_⟩
    · rintro ⟨_, ⟨e, he, rfl⟩, rfl⟩
      exact ⟨e.2, ⟨e, he, rfl⟩, rfl⟩
    · rintro ⟨_, ⟨e, he, rfl⟩, rfl⟩
      exact ⟨_, ⟨e, he, rfl⟩, rfl⟩
  · rw [hadds'.edges, hgraph.edges, or_right_comm]
    refine or_congr_left ?_
    simp only [hadds.edges, hmatched.mem_joins_iff, or_and_right, exists_or]
    refine or_congr_right ⟨?_, ?_⟩
    · rintro ⟨⟨e, he, rfl⟩, hne⟩
      exact ⟨e, ⟨he, fun heq => hne (congrArg ρ.vertex heq)⟩, rfl⟩
    · rintro ⟨e, ⟨he, hne⟩, rfl⟩
      exact ⟨⟨e, he, rfl⟩, fun heq => hne (ρ.vertex_injective heq)⟩
  · rw [hadds'.flagged, hgraph.flagged]
    simp only [hadds.flagged]
  · rcases has_run h hhas with hold | ⟨_, hprop⟩
    · exact hgraph.apart name hname hold
    · cases hprop

/-- Matching modules count the same. -/
theorem stats_run : (run graph' records').stats = (run graph records).stats := by
  have hadds := run_spec h
  have hadds' := run_spec h'
  have hresolved : (run graph' records').stats.resolved = (run graph records).stats.resolved := by
    rw [hadds'.resolved, hadds.resolved, hmatched.dependencies.length_eq, List.length_map]
  have hunresolved : (run graph' records').stats.unresolved =
      (run graph records).stats.unresolved := by
    rw [hadds'.unresolved, hadds.unresolved, hmatched.missing]
  have hadded : (run graph' records').stats.edgesAdded =
      (run graph records).stats.edgesAdded := by
    -- each graph has grown by the edges that were counted
    have hbefore := hgraph.edgeCount_eq
    have hafter := (mirrors_run hgraph h h' hmatched).edgeCount_eq
    have hcounted : (run graph records).graph.edgeCount + 0 =
        graph.edgeCount + (run graph records).stats.edgesAdded := hadds.counted
    have hcounted' : (run graph' records').graph.edgeCount + 0 =
        graph'.edgeCount + (run graph' records').stats.edgesAdded := hadds'.counted
    omega
  cases hstats : (run graph records).stats
  cases hstats' : (run graph' records').stats
  rw [hstats, hstats'] at hresolved hunresolved hadded
  exact (LinkStats.mk.injEq ..).mpr ⟨hresolved, hunresolved, hadded⟩

end

end Linking

end CallFlow
