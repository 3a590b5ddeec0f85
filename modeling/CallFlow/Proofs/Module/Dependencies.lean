import CallFlow.Proofs.Module.Mirror

/-!
# Dependencies between files

Of all dependencies between two files linking notes the first one. References are noted file by
file, so that the one noted first does not depend on the order of the files.
-/

namespace CallFlow

namespace ModuleDependency

/-- The two files of a dependency. -/
def files (d : ModuleDependency) : FileId × FileId := (d.source, d.target)

theorem any_files_eq (noted : Array ModuleDependency) (d : ModuleDependency) :
    (noted.any fun e => e.source = d.source && e.target = d.target) = true ↔
      ∃ e ∈ noted, e.files = d.files := by
  simp [Array.any_eq_true, Array.mem_iff_getElem, files]

/-- A dependency is noted unless there is one between the same files. -/
theorem mem_note {noted : Array ModuleDependency} {d e : ModuleDependency} :
    e ∈ note noted d ↔ e ∈ noted ∨ e = d ∧ ∀ x ∈ noted, x.files ≠ d.files := by
  rw [note]
  split
  · next h =>
    obtain ⟨x, hx, heq⟩ := (any_files_eq noted d).1 h
    exact ⟨Or.inl, fun he => he.resolve_right fun hnew => hnew.2 x hx heq⟩
  · next h =>
    have hnew : ∀ x ∈ noted, x.files ≠ d.files := fun x hx heq =>
      h ((any_files_eq noted d).2 ⟨x, hx, heq⟩)
    rw [Array.mem_push, and_iff_left hnew]

/-- The dependencies that are noted of a list. -/
def noted (ds : List ModuleDependency) : Array ModuleDependency := ds.foldl note #[]

theorem noted_append (ds : List ModuleDependency) (d : ModuleDependency) :
    noted (ds ++ [d]) = note (noted ds) d :=
  List.foldl_append

/-- No two dependencies between the same files are noted. -/
theorem nodup_noted (ds : List ModuleDependency) : ((noted ds).toList.map files).Nodup := by
  induction ds using List.reverseRecOn with
  | nil => exact .nil
  | append_singleton ds d ih =>
    rw [noted_append, note]
    split
    · exact ih
    -- a dependency is only noted for a new pair of files
    · next h =>
      rw [Array.toList_push, List.map_append, List.nodup_append]
      refine ⟨ih, List.nodup_singleton _, ?_⟩
      rintro _ hx _ hd rfl
      obtain ⟨x, hx, hfiles⟩ := List.mem_map.1 hx
      rw [List.map_singleton, List.mem_singleton] at hd
      exact h ((any_files_eq _ d).2 ⟨x, Array.mem_toList_iff.1 hx, hfiles.trans hd⟩)

/-- A dependency is noted if it is the first between its files. -/
theorem mem_noted {ds : List ModuleDependency} {d : ModuleDependency} :
    d ∈ noted ds ↔ ds.find? (fun e => e.files = d.files) = some d := by
  induction ds using List.reverseRecOn generalizing d with
  | nil => simp [noted]
  | append_singleton ds e ih =>
    rw [noted_append, mem_note, ih, List.find?_append, List.find?_singleton]
    -- `e` is noted if nothing between its files has been
    have hnew : (∀ x ∈ noted ds, x.files ≠ e.files) ↔
        ds.find? (fun x => x.files = e.files) = none := by
      constructor
      · intro h
        cases hfound : ds.find? (fun x => x.files = e.files) with
        | none => rfl
        | some x =>
          have hx : x.files = e.files := by simpa using List.find?_some hfound
          exact absurd hx (h x (ih.2 (by rwa [hx])))
      · intro h x hx heq
        rw [ih, heq, h] at hx
        cases hx
    rw [hnew]
    constructor
    · rintro (hold | ⟨rfl, hnone⟩)
      · rw [hold, Option.some_or]
      · rw [hnone, Option.none_or, if_pos (by simp)]
    · intro h
      cases hfound : ds.find? (fun x => x.files = d.files) with
      | some x =>
        rw [hfound, Option.some_or] at h
        exact Or.inl h
      | none =>
        rw [hfound, Option.none_or] at h
        split at h
        · obtain rfl := Option.some.inj h
          exact Or.inr ⟨rfl, hfound⟩
        · cases h

theorem nodup_toList_noted (ds : List ModuleDependency) : (noted ds).toList.Nodup :=
  .of_map files (nodup_noted ds)

/-- Renaming keeps which dependencies are between the same files. -/
theorem note_renamed (ρ : Renaming) (noted : Array ModuleDependency) (d : ModuleDependency) :
    note (noted.map ρ.dependency) (ρ.dependency d) = (note noted d).map ρ.dependency := by
  have hsame : ∀ e : ModuleDependency,
      (ρ.dependency e).files = (ρ.dependency d).files ↔ e.files = d.files := fun e => by
    simp [files, Renaming.dependency, ρ.fileId_injective.eq_iff]
  have hany : ((noted.map ρ.dependency).any fun e =>
      e.source = (ρ.dependency d).source && e.target = (ρ.dependency d).target) =
        noted.any fun e => e.source = d.source && e.target = d.target := by
    rw [Bool.eq_iff_iff, any_files_eq, any_files_eq]
    simp [hsame]
  rw [note, note, hany]
  split
  · rfl
  · exact Array.map_push.symm

theorem noted_renamed (ρ : Renaming) (ds : List ModuleDependency) :
    noted (ds.map ρ.dependency) = (noted ds).map ρ.dependency := by
  induction ds using List.reverseRecOn with
  | nil => simp [noted]
  | append_singleton ds d ih =>
    rw [List.map_append, List.map_singleton, noted_append, noted_append, ih, note_renamed]

end ModuleDependency

theorem Linking.dependencies_run {graph : FlowGraph} {records : Array ModuleRecord}
    {views : List ModuleView}
    (h : List.Forall₂ (ModuleRecord.Denotes graph) records.toList views) :
    (run graph records).dependencies =
      ModuleDependency.noted (views.flatMap (ModuleView.dependencies views)) :=
  (run_spec h).noted

namespace ModuleView

variable {ρ : Renaming} {views views' : List ModuleView}

/-- The dependencies of a module have its file as their source. -/
theorem source_of_mem_dependencies {view : ModuleView} {d : ModuleDependency}
    (h : d ∈ view.dependencies views) : d.source = view.file := by
  obtain ⟨r, -, hr⟩ := List.mem_flatMap.1 h
  obtain ⟨t, -, rfl⟩ := Option.map_eq_some_iff.1 (Option.mem_toList.1 hr)
  rfl

/-- The first dependency between two files is the first one of the module of its source. -/
theorem mem_noted_dependencies (hfiles : (views.map ModuleView.file).Nodup)
    {dependencies : ModuleView → List ModuleDependency}
    (hsource : ∀ view ∈ views, ∀ d ∈ dependencies view, d.source = view.file)
    {d : ModuleDependency} :
    d ∈ ModuleDependency.noted (views.flatMap dependencies) ↔
      ∃ view ∈ views, d ∈ ModuleDependency.noted (dependencies view) := by
  rw [ModuleDependency.mem_noted, List.find?_flatMap, List.findSome?_eq_some_iff]
  simp only [ModuleDependency.mem_noted]
  constructor
  · rintro ⟨before, view, after, rfl, hfound, -⟩
    exact ⟨view, List.mem_append_right _ List.mem_cons_self, hfound⟩
  · rintro ⟨view, hview, hfound⟩
    obtain ⟨before, after, rfl⟩ := List.append_of_mem hview
    refine ⟨before, view, after, rfl, hfound, fun other hother => ?_⟩
    refine List.find?_eq_none.2 fun e he heq => ?_
    -- the other module has a file of its own
    have hother' := List.mem_append_left (view :: after) hother
    have hsame : other.file = view.file := by
      have hpair : e.files = d.files := by simpa using heq
      rw [← hsource other hother' e he, ← hsource view hview d (List.mem_of_find?_eq_some hfound)]
      exact congrArg Prod.fst hpair
    rw [List.map_append, List.nodup_append] at hfiles
    exact hfiles.2.2 _ (List.mem_map_of_mem hother) _ (List.mem_map_of_mem List.mem_cons_self) hsame

/-- **The same dependencies are noted** for modules that match. -/
theorem Matched.noted_perm (h : Matched ρ views views')
    (hfiles : (views.map ModuleView.file).Nodup) (hfiles' : (views'.map ModuleView.file).Nodup) :
    (ModuleDependency.noted (views'.flatMap (ModuleView.dependencies views'))).toList.Perm
      ((ModuleDependency.noted (views.flatMap (ModuleView.dependencies views))).toList.map
        ρ.dependency) := by
  -- the renaming takes two dependencies to different ones
  have hinjective : Function.Injective ρ.dependency := by
    rintro ⟨source, target, kind⟩ ⟨source', target', kind'⟩ heq
    obtain ⟨hsource, htarget, hkind⟩ := ModuleDependency.mk.inj heq
    exact (ModuleDependency.mk.injEq ..).mpr
      ⟨ρ.fileId_injective hsource, ρ.fileId_injective htarget, hkind⟩
  -- what one module depends on is the same in either order
  have hview : ∀ view : ModuleView,
      ModuleDependency.noted ((ρ.view view).dependencies views') =
        (ModuleDependency.noted (view.dependencies views)).map ρ.dependency := fun view => by
    rw [h.dependencies_eq, ρ.dependencies_view, ModuleDependency.noted_renamed]
  refine (List.perm_ext_iff_of_nodup (ModuleDependency.nodup_toList_noted _)
    ((ModuleDependency.nodup_toList_noted _).map hinjective)).2 fun d' => ?_
  rw [Array.mem_toList_iff, List.mem_map, mem_noted_dependencies hfiles' fun _ _ _ =>
    source_of_mem_dependencies]
  simp only [Array.mem_toList_iff, mem_noted_dependencies hfiles fun _ _ _ =>
    source_of_mem_dependencies, h.perm.mem_iff]
  constructor
  · rintro ⟨_, hmem', hd'⟩
    obtain ⟨view, hmem, rfl⟩ := List.mem_map.1 hmem'
    rw [hview] at hd'
    obtain ⟨d, hd, rfl⟩ := Array.mem_map.1 hd'
    exact ⟨d, ⟨view, hmem, hd⟩, rfl⟩
  · rintro ⟨d, ⟨view, hmem, hd⟩, rfl⟩
    refine ⟨ρ.view view, List.mem_map_of_mem hmem, ?_⟩
    rw [hview]
    exact Array.mem_map_of_mem hd

end ModuleView

end CallFlow
