import CallFlow.Analysis
import CallFlow.Proofs.FileFlow.Facts
import CallFlow.Proofs.Module.References
import CallFlow.Proofs.Registration.File

/-!
# Files, one after the other

Building the flow of a list of files appends one piece after another: what the file contributes and
its module. Two states that say the same up to a renaming, modules included, still do after the
same files, and after the same files in another order under another renaming.
-/

namespace CallFlow.FilesFlow

/-- The modules of the files by vertices. Each has a file of its own. -/
structure Views (built : FilesFlow) (views : List ModuleView) : Prop where
  denotes : List.Forall₂ (ModuleRecord.Denotes built.flow.graph) built.records.toList views
  within : ∀ view ∈ views, view.Within built.flow.extent
  files : (views.map ModuleView.file).Nodup

/-- A file appends its part to the flow and its modules, none or one, to the modules. -/
structure Adds (built : FilesFlow) (part : FlowState) (added : List ModuleView)
    (later : FilesFlow) : Prop where
  flow : built.flow.Appends part later.flow
  within : ∀ view ∈ added, view.Within part.extent
  views : ∀ views, built.Views views → later.Views (views ++ added.map built.flow.shift.view)

theorem add_of_none (built : FilesFlow) {file : SourceFile} (h : file.module? = none) :
    built.add file = { built with failures := built.failures.push file.path } := by
  rw [add, h]

/-- A file that is read is walked, and its module goes behind the others. -/
theorem add_of_some (built : FilesFlow) {file : SourceFile} {m : Syntax.Module}
    (h : file.module? = some m) :
    built.add file =
      { built with
        flow := (built.flow.addFile file.path file.lines m).2
        records := built.records.push (built.flow.addFile file.path file.lines m).1 } := by
  rw [add, h]

/-- What a file appends. -/
theorem exists_adds (file : SourceFile) :
    ∃ part added, ∀ built : FilesFlow, built.flow.Sound →
      built.Adds part added (built.add file) := by
  cases hm : file.module? with
  | none =>
    refine ⟨{}, [], fun built h => ?_⟩
    rw [add_of_none built hm]
    refine ⟨.empty h, nofun, fun views hviews => ?_⟩
    rw [List.map_nil, List.append_nil]
    exact ⟨hviews.denotes, hviews.within, hviews.files⟩
  | some m =>
    obtain ⟨view, hfile, hwithin, -, hdenotes⟩ :=
      FlowState.exists_view file.path file.lines m
    refine ⟨(FlowState.part file.path file.lines m).2, [view], fun built h => ?_⟩
    rw [add_of_some built hm]
    have happends := FlowState.appends_addFile h file.path file.lines m
    refine ⟨happends, by simpa using hwithin, fun views hviews => ⟨?_, ?_, ?_⟩⟩
    · rw [Array.toList_push]
      refine List.rel_append (hviews.denotes.imp fun _ _ hd => hd.mono fun v id hv => ?_)
        (.cons (hdenotes built.flow h) .nil)
      exact (FlowState.copies_addFile h file.path file.lines m).keeps v id hv
    · rw [List.forall_mem_append]
      refine ⟨fun v hv => (hviews.within v hv).mono ?_, ?_⟩
      · rw [happends.extent]
        exact fun k => Nat.le_add_right _ _
      · rw [happends.extent]
        exact List.forall_mem_singleton.2 hwithin.shift
    · rw [List.map_append, List.nodup_append]
      refine ⟨hviews.files, List.nodup_singleton _, ?_⟩
      rintro i hi j hj rfl
      obtain ⟨v, hv, rfl⟩ := List.mem_map.1 hi
      rw [List.map_singleton, List.map_singleton, List.mem_singleton] at hj
      -- the file of the new module has a number behind those in use
      have hlt := (hviews.within v hv).1
      rw [hj] at hlt
      exact absurd hlt (Nat.not_lt.2 (Nat.le_add_right _ _))

/-- Files bring no built-in functions. -/
theorem has_native_foldl {built : FilesFlow} (h : built.flow.Sound) (files : List SourceFile)
    {name : String} (hname : (files.foldl add built).flow.graph.Has (.native name)) :
    built.flow.graph.Has (.native name) := by
  induction files generalizing built with
  | nil => exact hname
  | cons file files ih =>
    obtain ⟨part, added, hadds⟩ := exists_adds file
    have hflow := (hadds built h).flow
    exact hflow.has_native (ih hflow.sound_later hname)

theorem views_start (flow : FlowState) : Views { flow } [] := ⟨.nil, nofun, .nil⟩

/-! ## The same files -/

/-- Two states that say the same up to a renaming, with the modules of both. -/
structure Mirrors (extra : Set String) (ρ : Renaming) (a b : FilesFlow)
    (views views' : List ModuleView) : Prop where
  flow : a.flow.Mirrors extra ρ b.flow
  views : a.Views views
  views' : b.Views views'

variable {extra : Set String} {ρ : Renaming} {a b : FilesFlow} {views views' : List ModuleView}

theorem Mirrors.start {s s' : FlowState} (h : s.Mirrors extra ρ s') :
    Mirrors extra ρ { flow := s } { flow := s' } [] [] :=
  ⟨h, views_start s, views_start s'⟩

theorem Mirrors.adds (h : Mirrors extra ρ a b views views') {part : FlowState}
    {added : List ModuleView} {a' b' : FilesFlow} (ha : a.Adds part added a')
    (hb : b.Adds part added b') :
    Mirrors extra ρ a' b' (views ++ added.map a.flow.shift.view)
      (views' ++ (added.map a.flow.shift.view).map ρ.view) where
  flow := h.flow.appends ha.flow hb.flow
  views := ha.views views h.views
  views' := by
    -- the contribution is shifted on both sides, and both shifts agree up to the renaming
    have hadded : (added.map a.flow.shift.view).map ρ.view = added.map b.flow.shift.view := by
      rw [List.map_map]
      refine List.map_congr_left fun view hview => ?_
      rw [Function.comp_apply, ← Renaming.view_trans, h.flow.shift_eq]
      exact h.flow.within.shift_agreeOn.view (ha.within view hview)
    rw [hadded]
    exact hb.views views' h.views'

/-- After the same files two states still say the same. -/
theorem Mirrors.foldl (h : Mirrors extra ρ a b views views') (files : List SourceFile) :
    ∃ added, Mirrors extra ρ (files.foldl add a) (files.foldl add b) (views ++ added)
      (views' ++ added.map ρ.view) := by
  induction files generalizing a b views views' with
  | nil => exact ⟨[], by simpa using h⟩
  | cons file files ih =>
    obtain ⟨part, added, hadds⟩ := exists_adds file
    -- what the first file adds is in front of what the others do
    obtain ⟨more, hmore⟩ := ih (h.adds (hadds a h.flow.sound) (hadds b h.flow.sound'))
    refine ⟨added.map a.flow.shift.view ++ more, ?_⟩
    rw [List.map_append, ← List.append_assoc, ← List.append_assoc]
    exact hmore

/-! ## Files in another order -/

/-- Two states say the same up to a renaming, and have the same modules up to it in some order. -/
def Reordered (a b : FilesFlow) : Prop :=
  ∃ ρ views views', Mirrors ∅ ρ a b views views' ∧ views'.Perm (views.map ρ.view)

namespace Reordered

theorem refl (h : a.flow.Sound) (hviews : a.Views views) : Reordered a a := by
  refine ⟨.refl, views, views, ⟨.refl h, hviews, hviews⟩, ?_⟩
  rw [show Renaming.refl.view = id from funext Renaming.view_refl, List.map_id]

theorem left (h : Reordered a b) : Reordered a a := by
  obtain ⟨_, _, _, hmirrors, -⟩ := h
  exact .refl hmirrors.flow.sound hmirrors.views

theorem trans {c : FilesFlow} (h : Reordered a b) (h' : Reordered b c) : Reordered a c := by
  obtain ⟨ρ, views, viewsb, hab, hperm⟩ := h
  obtain ⟨σ, viewsb', views', hbc, hperm'⟩ := h'
  -- both sides see the same modules of the state in between
  obtain rfl : viewsb = viewsb' :=
    List.right_unique_forall₂' (fun _ _ _ h h' => h.unique h') hab.views'.denotes hbc.views.denotes
  refine ⟨ρ.trans σ, views, views', ⟨hab.flow.trans hbc.flow, hab.views, hbc.views'⟩, ?_⟩
  rw [show (ρ.trans σ).view = σ.view ∘ ρ.view from funext (Renaming.view_trans ρ σ),
    ← List.map_map]
  exact hperm'.trans (hperm.map σ.view)

theorem add (h : Reordered a b) (file : SourceFile) : Reordered (a.add file) (b.add file) := by
  obtain ⟨ρ, views, views', hmirrors, hperm⟩ := h
  obtain ⟨part, added, hadds⟩ := exists_adds file
  refine ⟨ρ, _, _, hmirrors.adds (hadds a hmirrors.flow.sound) (hadds b hmirrors.flow.sound'), ?_⟩
  rw [List.map_append]
  exact hperm.append_right _

/-- Two files in either order contribute the same, with numbers that a renaming exchanges. -/
theorem swap (h : a.flow.Sound) (hviews : a.Views views) (x y : SourceFile) :
    Reordered ((a.add x).add y) ((a.add y).add x) := by
  obtain ⟨p, xs, hx⟩ := exists_adds x
  obtain ⟨q, ys, hy⟩ := exists_adds y
  have hax := hx a h
  have hay := hy a h
  have haxy := hy _ hax.flow.sound_later
  have hayx := hx _ hay.flow.sound_later
  refine ⟨_, _, _, ⟨hax.flow.swap haxy.flow hay.flow hayx.flow,
    haxy.views _ (hax.views views hviews), hayx.views _ (hay.views views hviews)⟩, ?_⟩
  -- the modules that were there stay, the others come to stand where they are in the other order
  have hbase : views.map (Renaming.swap a.flow.extent p.extent q.extent).view = views := by
    refine (List.map_congr_left fun v hv => ?_).trans (List.map_id views)
    exact (Renaming.swap_agreeOn_refl.view (hviews.within v hv)).trans (Renaming.view_refl v)
  have hfirst : (xs.map a.flow.shift.view).map
      (Renaming.swap a.flow.extent p.extent q.extent).view = xs.map (a.add y).flow.shift.view := by
    rw [List.map_map]
    refine List.map_congr_left fun v hv => ?_
    rw [Function.comp_apply, ← Renaming.view_trans, FlowState.shift, FlowState.shift,
      hay.flow.extent]
    exact Renaming.shift_swap_agreeOn_first.view (hax.within v hv)
  have hsecond : (ys.map (a.add x).flow.shift.view).map
      (Renaming.swap a.flow.extent p.extent q.extent).view = ys.map a.flow.shift.view := by
    rw [List.map_map]
    refine List.map_congr_left fun v hv => ?_
    rw [Function.comp_apply, ← Renaming.view_trans, FlowState.shift, FlowState.shift,
      hax.flow.extent]
    exact Renaming.shift_swap_agreeOn_second.view (hay.within v hv)
  rw [List.map_append, List.map_append, hbase, hfirst, hsecond, List.append_assoc,
    List.append_assoc]
  exact List.perm_append_comm.append_left views

theorem foldl_same (h : Reordered a b) (files : List SourceFile) :
    Reordered (files.foldl FilesFlow.add a) (files.foldl FilesFlow.add b) := by
  induction files generalizing a b with
  | nil => exact h
  | cons file files ih => exact ih (h.add file)

/-- **The order of files.** After the same files in another order two states still say the same. -/
theorem foldl {files files' : List SourceFile} (hperm : files.Perm files') (h : Reordered a b) :
    Reordered (files.foldl FilesFlow.add a) (files'.foldl FilesFlow.add b) := by
  -- a reordering is made of exchanges of neighbours
  induction hperm generalizing a b with
  | nil => exact h
  | cons file _ ih => exact ih (h.add file)
  | swap x y files =>
    have hadd := (h.add x).add y
    obtain ⟨_, _, _, hmirrors, -⟩ := h
    -- first exchange the two on the left, then add them to both
    exact ((swap hmirrors.flow.sound hmirrors.views y x).trans hadd).foldl_same files
  | trans _ _ ih ih' => exact (ih h.left).trans (ih' h)

end Reordered

end CallFlow.FilesFlow
