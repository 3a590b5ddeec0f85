import CallFlow.Proofs.Analysis.Phases

/-!
# Built-in functions do not disturb

An analysis with built-in functions and one without differ in the numbers of all vertices, and the
former has properties from the start that the latter may get from a file. Since nothing flows into
a built-in function, both find the same callees among the functions that are written, in the same
number of rounds. The callees that are found besides are built in.
-/

namespace CallFlow

/-- The function is written in a file. -/
def Callee.isFunction : Callee → Bool
  | .function _ => true
  | .native _ => false

/-- Functions that are written, the one before the other. -/
inductive Callee.Precedes : Callee → Callee → Prop
  | intro {f g : FunctionId} (h : f.index < g.index) : Precedes (.function f) (.function g)

theorem Callee.Precedes.asymm {a b : Callee} (h : a.Precedes b) : ¬ b.Precedes a := by
  intro h'
  cases h with
  | intro hlt =>
    cases h' with
    | intro hlt' => exact Nat.lt_asymm hlt hlt'

namespace CallGraph

variable {program : Program} {graph : FlowGraph}

/-- Functions that are written are listed in the order of their numbers. -/
theorem pairwise_filter_callees (horder : graph.FunctionsInOrder) (c : CallId) :
    (((extract program graph).callees c).toList.filter Callee.isFunction).Pairwise
      Callee.Precedes := by
  refine ((pairwise_callees_extract program graph c).filter _).imp_of_mem fun {a b} ha hb hab => ?_
  obtain ⟨i, j, hi, hj, hlt⟩ := hab
  cases a with
  | native name => cases (List.mem_filter.1 ha).2
  | function f =>
    cases b with
    | native name => cases (List.mem_filter.1 hb).2
    | function g =>
      -- the callees are in the order of their vertices, and these are in the order of the functions
      refine .intro (Nat.lt_of_not_le fun hle => ?_)
      rcases Nat.lt_or_eq_of_le hle with hless | heq
      · exact Nat.lt_asymm hlt (horder g f j i hj hi hless)
      · obtain rfl : g = f := congrArg FunctionId.mk heq
        rw [Option.some.inj (hi.symm.trans hj)] at hlt
        exact Nat.lt_irrefl _ hlt

end CallGraph

/-- A renaming that does nothing leaves the program. -/
theorem Program.Renamed.eq {p p' : Program} (h : p.Renamed .refl p') : p' = p := by
  have hfiles : p'.files = p.files := Array.ext_getElem? fun i => h.file? ⟨i⟩
  -- a renaming that renames nothing leaves every entry
  have hfunctions : p'.functions = p.functions := Array.ext_getElem? fun i => by
    refine (h.function? ⟨i⟩).trans ?_
    rw [show Renaming.refl.function = id from funext Renaming.function_refl, Option.map_id]
    rfl
  have hcalls : p'.calls = p.calls := Array.ext_getElem? fun i => by
    refine (h.call? ⟨i⟩).trans ?_
    rw [show Renaming.refl.site = id from funext Renaming.site_refl, Option.map_id]
    rfl
  cases p
  cases p'
  exact (Program.mk.injEq ..).mpr ⟨hfiles, hfunctions, hcalls⟩

namespace FlowGraph.Mirrors

variable {extra : Set String} {ρ : Renaming} {G G' : FlowGraph}

/-- What an extra built-in function flows into is what its property flows into. -/
theorem flows_native_iff (h : Mirrors extra ρ G G') {name : String} (hname : name ∈ extra)
    {c : CallId} :
    Flows G'.edgeSet (.native name) (.callee c) ↔
      Flows G'.edgeSet (.prop (Builtin.property name)) (.callee c) := by
  have hlink : Builtin.link name ∈ G'.edgeSet := (h.edges _).2 (Or.inr ⟨name, hname, rfl⟩)
  refine ⟨fun hflow => ?_, .head ⟨rfl, hlink⟩⟩
  rcases Relation.ReflTransGen.cases_head hflow with heq | ⟨w, ⟨-, hedge⟩, hrest⟩
  · cases heq
  · -- the only edge out of it leads to its property
    rcases (h.edges _).1 hedge with ⟨⟨a, b⟩, hab, heq⟩ | ⟨other, -, heq⟩
    · obtain rfl := ρ.vertex_eq_native.1 (congrArg Prod.fst heq)
      exact absurd (has_of_mem_edgeSet hab).1 (h.apart name hname)
    · obtain rfl := Vertex.native.inj (congrArg Prod.fst heq)
      obtain rfl : Vertex.prop (Builtin.property other) = w := congrArg Prod.snd heq
      exact hrest

end FlowGraph.Mirrors

namespace FilesFlow

variable {extra : Set String} {a b : FilesFlow} {views : List ModuleView}

/-- A built-in function that is there at the end was there when the files had been built. -/
theorem has_native_final {built : FilesFlow} (h : built.flow.Sound) (hviews : built.Views views)
    {name : String} (hname : built.final.1.Has (.native name)) :
    built.flow.graph.Has (.native name) := by
  rcases has_final h hviews hname with hold | ⟨_, h⟩ | ⟨_, h⟩ | ⟨_, _, h⟩
  · exact hold
  all_goals cases h

/-- Without built-in functions all callees are written. -/
theorem isFunction_of_mem_callees {built : FilesFlow} (h : built.flow.Sound)
    (hviews : built.Views views) (hnone : ∀ name, ¬ built.flow.graph.Has (.native name))
    {c : CallId} {callee : Callee} (hcallee : callee ∈ built.calls.callees c) :
    callee.isFunction = true := by
  cases callee with
  | function f => rfl
  | native name =>
    have hflow := (CallGraph.mem_callees_extract (calleesRegistered_final h hviews)).1 hcallee
    exact absurd (has_native_final h hviews (FlowGraph.has_of_flows_ne hflow nofun)) (hnone name)

namespace Mirrors

variable (h : Mirrors extra .refl a b views (views.map Renaming.refl.view))
include h

/-- A call has the same callees among the functions that are written, in the same order. -/
theorem filter_callees (hnone : ∀ name, ¬ a.flow.graph.Has (.native name)) (c : CallId) :
    (b.calls.callees c).toList.filter Callee.isFunction = (a.calls.callees c).toList := by
  have hfinal := (h.final (.refl .refl views)).2
  have hmem : ∀ callee : Callee, callee.isFunction = true →
      (callee ∈ b.calls.callees c ↔ callee ∈ a.calls.callees c) := fun callee hcallee => by
    cases callee with
    | native name => cases hcallee
    | function f =>
      have hfunction : ∀ name ∈ extra, Callee.function f ≠ .native name := fun _ _ => nofun
      exact CallGraph.callee_mem_callees_iff hfinal h.flow.program
        (calleesRegistered_final h.flow.sound h.views) hfunction c
  have hperm : ((b.calls.callees c).toList.filter Callee.isFunction).Perm
      ((a.calls.callees c).toList.filter Callee.isFunction) := by
    refine (List.perm_ext_iff_of_nodup ((CallGraph.nodup_callees_extract _ _ c).filter _)
      ((CallGraph.nodup_callees_extract _ _ c).filter _)).2 fun callee => ?_
    rw [List.mem_filter, List.mem_filter, Array.mem_toList_iff, Array.mem_toList_iff]
    exact and_congr_left (hmem callee)
  -- both lists are ascending
  have hsame := hperm.eq_of_pairwise (fun _ _ _ _ hxy hyx => absurd hyx hxy.asymm)
    (CallGraph.pairwise_filter_callees (functionsInOrder_final h.flow.sound' h.views') c)
    (CallGraph.pairwise_filter_callees (functionsInOrder_final h.flow.sound h.views) c)
  refine hsame.trans (List.filter_eq_self.2 fun callee hcallee => ?_)
  exact isFunction_of_mem_callees h.flow.sound h.views hnone (Array.mem_toList_iff.1 hcallee)

/-- A built-in function is a callee of the calls into which its property flows. -/
theorem native_mem_callees_iff
    (hextra : ∀ name, b.flow.graph.Has (.native name) → name ∈ extra) (c : CallId)
    (name : String) :
    .native name ∈ b.calls.callees c ↔
      name ∈ extra ∧ Flows b.final.1.edgeSet (.prop (Builtin.property name)) (.callee c) := by
  have hfinal := (h.final (.refl .refl views)).2
  have hcallees : .native name ∈ b.calls.callees c ↔
      Flows b.final.1.edgeSet (.native name) (.callee c) :=
    CallGraph.mem_callees_extract (calleesRegistered_final h.flow.sound' h.views')
  rw [hcallees]
  constructor
  · intro hflow
    -- a vertex of a built-in function is there only if it has been seeded
    have hname := hextra name <| has_native_final h.flow.sound' h.views'
      (FlowGraph.has_of_flows_ne hflow nofun)
    exact ⟨hname, (hfinal.flows_native_iff hname).1 hflow⟩
  · rintro ⟨hname, hflow⟩
    exact (hfinal.flows_native_iff hname).2 hflow

end Mirrors

end FilesFlow

namespace Analysis

theorem mem_builtins_of_has {natives : Bool} {files : List SourceFile} {name : String}
    (h : (built natives files).flow.graph.Has (.native name)) : name ∈ builtins natives :=
  has_native_seeded (FilesFlow.has_native_foldl (sound_seeded _) files h)

/-- After the same files two states say the same but for the built-in functions. -/
theorem mirrors_built (files : List SourceFile) :
    ∃ views, FilesFlow.Mirrors (builtins true) .refl (built false files) (built true files) views
      (views.map Renaming.refl.view) := by
  obtain ⟨views, h⟩ := (FilesFlow.Mirrors.start mirrors_seeded).foldl files
  exact ⟨views, h⟩

/-- **Built-in functions do not disturb.** With built-in functions an analysis has the same program
and gives every call the same functions of the program in the same order as without. Propagation
and linking count the same. All other callees are built in, and a built-in function is a callee of
the calls into which its property flows. -/
theorem run_natives (strategy : Strategy) (files : List SourceFile) :
    let on := run { strategy, natives := true } files
    let off := run { strategy, natives := false } files
    on.flow.program = off.flow.program ∧
    (∀ c, (on.calls.callees c).toList.filter Callee.isFunction = (off.calls.callees c).toList) ∧
    on.stats.propagation = off.stats.propagation ∧ on.stats.links = off.stats.links ∧
    ∀ c name, .native name ∈ on.calls.callees c ↔
      name ∈ Builtin.names ∧
        Flows on.flow.graph.edgeSet (.prop (Builtin.property name)) (.callee c) := by
  obtain ⟨views, h⟩ := mirrors_built files
  have hmatched := ModuleView.Matched.refl .refl views
  -- the run without has no vertex of a built-in function
  have hnone : ∀ name, ¬ (built false files).flow.graph.Has (.native name) := fun name hname =>
    Bool.false_ne_true (mem_builtins.1 (mem_builtins_of_has hname)).1
  have hnatives := h.native_mem_callees_iff fun _ => mem_builtins_of_has
  refine ⟨?_, fun c => ?_, ?_, ?_, fun c name => ?_⟩
  · rw [program_run, program_run]
    exact h.flow.program.eq
  · rw [calls_run, calls_run]
    exact h.filter_callees hnone c
  -- both graphs are closed after the same number of rounds
  · rw [propagation_run, propagation_run]
    exact (h.final hmatched).1
  · rw [links_run, links_run]
    exact (h.links hmatched).2
  · rw [calls_run, graph_run, hnatives, mem_builtins]
    simp only [true_and]

end Analysis

end CallFlow
