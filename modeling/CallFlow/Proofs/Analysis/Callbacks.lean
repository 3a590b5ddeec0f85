import CallFlow.Proofs.Analysis.Arguments
import CallFlow.Proofs.Flow.Census

/-!
# The census of an analysis

The census counts edges of a graph that all phases extend. Each call is that of one expression, and
the functions that get into its slots are the callbacks among the arguments of this expression: the
walk over the call puts them there, and nothing that is done before or afterwards leads into a slot.
So the census can be read off the syntax, and once the files are built it is always the same.
-/

namespace CallFlow

open Syntax

/-! ## Slots in the graph and in the syntax -/

namespace FlowState

variable {s t : FlowState} {c : CallId} {slot : ℕ}

/-- A callback is in its slot when the call has been walked. -/
theorem CallOf.mem_callbackSet {file : WalkedFile} {place : Place} {e : Expr}
    (h : t.CallOf file place e c) (hslot : e.PassesCallback slot) :
    (c, slot) ∈ t.graph.callbackSet := by
  obtain ⟨shape, a, hshape, ⟨i, ha, rfl⟩, hcallback⟩ := hslot
  obtain ⟨-, before, -, hlater, hedges⟩ := h.fills hshape i a ha
  obtain ⟨id, f, hid, hf⟩ := Walk.exists_function_of_isCallback hcallback .value place before
  obtain ⟨v, hv, hedge⟩ := hedges id hid
  obtain rfl := FlowGraph.find?_inj (hlater.vertices _ _ hf) hv
  refine ⟨?_, f, hedge⟩
  exact (Expr.first_pos hshape).trans_le (Nat.le_add_right _ _)

/-- The call is that of this expression, and only its callbacks are functions in slots. -/
structure CallWritten (known : WalkedFile → Prop) (s : FlowState) (c : CallId) (site : CallSite)
    (e : Expr) : Prop where
  origin : ∃ file, known file ∧ ∃ place shape, e.callShape? = some shape ∧
    site.Reads file shape ∧ s.CallOf file place e c
  callbacks : ∀ slot, (c, slot) ∈ s.graph.callbackSet → e.PassesCallback slot

variable {known known' : WalkedFile → Prop} {site : CallSite} {e : Expr}

/-- A slot has a callback of the expression in it or none at all. -/
theorem CallWritten.mem_callbackSet (h : s.CallWritten known c site e) :
    (c, slot) ∈ s.graph.callbackSet ↔ e.PassesCallback slot := by
  obtain ⟨file, -, place, shape, -, -, hof⟩ := h.origin
  exact ⟨h.callbacks slot, hof.mem_callbackSet⟩

/-- What a call is written as stays known, as long as no callback is added to its slots. -/
theorem CallWritten.later (h : s.CallWritten known c site e) (ht : s.Later t)
    (hknown : ∀ file, known file → known' file)
    (hslots : ∀ slot, (c, slot) ∈ t.graph.callbackSet → (c, slot) ∈ s.graph.callbackSet) :
    t.CallWritten known' c site e := by
  obtain ⟨file, hfile, place, shape, hshape, hreads, hof⟩ := h.origin
  exact ⟨⟨file, hknown file hfile, place, shape, hshape, hreads, hof.later ht⟩,
    fun slot hslot => h.callbacks slot (hslots slot hslot)⟩

/-- The slots of calls, as they are written, with a callback in them. -/
def writtenSlots (s : FlowState) (written : CallId → Expr) : Set (CallId × ℕ) :=
  { x | (∃ site, s.program.call? x.1 = some site) ∧ (written x.1).PassesCallback x.2 }

end FlowState

/-! ## What each step does to slots -/

namespace History

variable {h : History}

/-- The step walks a file. -/
def Step.IsFile : Step → Prop
  | .build (.file _ _ _) => True
  | .build .seed | .build (.link _) | .round => False

/-- Nothing but a file registers anything. -/
theorem exists_withGraph {s : Step} (hs : ¬ s.IsFile) :
    ∃ graph, h.step s = h.withGraph graph := by
  cases s with
  | round => exact ⟨_, rfl⟩
  | build what =>
    cases what with
    | file _ _ _ => exact absurd trivial hs
    | seed | link _ => exact ⟨_, rfl⟩

/-- Nothing but a file leads anything into a slot. -/
theorem callbackSet_step (hvalid : h.Valid) {s : Step} (hs : ¬ s.IsFile) :
    (h.step s).flow.graph.callbackSet = h.flow.graph.callbackSet := by
  ext ⟨c, slot⟩
  refine and_congr_right fun hslot => exists_congr fun f =>
    ⟨fun hedge => ?_, fun hedge => (hvalid.later_step s).edges hedge⟩
  -- rounds add edges of propagation, seeding adds built-in functions, and linking connects modules:
  -- no such edge leads from a function into an argument slot
  cases s with
  | round =>
    have hextends := Propagation.extends_round h.flow.program h.flow.graph
    exact (hextends.newEdges _ _ hedge).resolve_right nofun
  | build what =>
    cases what with
    | file _ _ _ => exact absurd trivial hs
    | seed =>
      rw [step, History.build, graph_withGraph] at hedge
      refine (((Builtin.seed_spec h.flow.graph).2.1 _).1 hedge).resolve_right ?_
      rintro ⟨name, -, heq⟩
      cases heq
    | link numbers =>
      refine (edges_link hvalid numbers hedge).resolve_right ?_
      rintro ⟨-, htarget | ⟨_, heq, -⟩ | ⟨_, heq⟩⟩
      · exact absurd htarget hslot.ne'
      · cases heq
      · cases heq

/-- A file leaves the slots of earlier calls alone. -/
theorem callbackSet_file (hvalid : h.Valid) (path : Path) (lines : LineTable) (m : Module)
    {c : CallId} {slot : ℕ} {site : CallSite} (hc : h.flow.program.call? c = some site)
    (hslot : (c, slot) ∈ (h.build (.file path lines m)).flow.graph.callbackSet) :
    (c, slot) ∈ h.flow.graph.callbackSet := by
  obtain ⟨hpos, f, hedge⟩ := hslot
  have hgrows := FlowState.grows_addFile hvalid.closed path lines m
  rcases hgrows.slots (Nat.ne_of_gt hpos) hedge with hold | hpassing | ⟨hfresh, -⟩
  · exact ⟨hpos, f, hold⟩
  · exact hpassing.elim
  · cases hc.symm.trans hfresh

/-- A call that a file brings gets its callbacks from its own expression. -/
theorem exists_callWritten_file (hvalid : h.Valid) (path : Path) (lines : LineTable) (m : Module)
    {c : CallId} {site : CallSite} (hfresh : h.flow.program.call? c = none)
    (hc : (h.build (.file path lines m)).flow.program.call? c = some site) :
    ∃ e, (h.build (.file path lines m)).flow.CallWritten
      (· ∈ (h.build (.file path lines m)).files) c site e := by
  have hgrows := FlowState.grows_addFile hvalid.closed path lines m
  -- the call is new, so the walk over the file has registered it
  obtain ⟨-, place, e, shape, hshape, hreads, hof, hslots⟩ :=
    (hgrows.calls hc).resolve_left fun hold => Option.some_ne_none site (hold.symm.trans hfresh)
  refine ⟨e, ⟨h.flow.next lines m, List.mem_append_right _ (List.mem_singleton_self _), place,
    shape, hshape, hreads, hof⟩, fun slot ⟨hpos, f, hedge⟩ => ?_⟩
  rcases hslots _ slot (Nat.ne_of_gt hpos) hedge with hold | hpassing | ⟨-, a, ha, hcallback⟩
  · -- the graph had no vertices of calls that were not there yet
    obtain ⟨old, hold, -⟩ := hvalid.wellFormed.vertices _ (FlowGraph.has_of_mem_edgeSet hold).2
    cases hold.symm.trans hfresh
  · exact hpassing.elim
  · exact ⟨shape, a, hshape, ha, hcallback ⟨f, rfl⟩⟩

/-- Whatever else is done to a call that is written leaves it so. -/
theorem callWritten_step (hvalid : h.Valid) {s : Step} (hs : ¬ s.IsFile) {c : CallId}
    {site : CallSite} (hwritten : h.flow.program.call? c = some site →
      ∃ e, h.flow.CallWritten (· ∈ h.files) c site e)
    (hc : (h.step s).flow.program.call? c = some site) :
    ∃ e, (h.step s).flow.CallWritten (· ∈ (h.step s).files) c site e := by
  obtain ⟨graph, heq⟩ := exists_withGraph (h := h) hs
  have hlater := hvalid.later_step s
  have hslots := callbackSet_step hvalid hs
  rw [heq] at hlater hslots hc ⊢
  obtain ⟨e, he⟩ := hwritten hc
  exact ⟨e, he.later hlater (fun _ => id) fun slot => (Set.ext_iff.1 hslots (c, slot)).1⟩

/-- **The functions in the slots of a call are its callbacks**, whatever has been done. -/
theorem exists_callWritten (steps : List Step) :
    ∀ c site, (after steps).flow.program.call? c = some site →
      ∃ e, (after steps).flow.CallWritten (· ∈ (after steps).files) c site e := by
  refine after_induction (motive := fun h => ∀ c site, h.flow.program.call? c = some site →
    ∃ e, h.flow.CallWritten (· ∈ h.files) c site e) nofun fun s _ h hvalid hwritten c site hc => ?_
  have hlater := hvalid.later_step s
  -- only a file adds calls, and it leaves the slots of older ones alone
  match s with
  | .build (.file path lines m) =>
    cases hold : h.flow.program.call? c with
    -- the call is one of the file
    | none => exact exists_callWritten_file hvalid path lines m hold hc
    -- the call was there, and its number keeps its entry
    | some old =>
      obtain rfl := Option.some.inj ((hlater.calls c old hold).symm.trans hc)
      obtain ⟨e, he⟩ := hwritten c old hold
      exact ⟨e, he.later hlater (fun file => List.mem_append_left _)
        fun slot => callbackSet_file hvalid path lines m hold⟩
  | .build .seed | .build (.link _) | .round =>
    exact callWritten_step hvalid id (hwritten c site) hc

/-- What files have left in the slots stays there. -/
theorem callbackSet_after (steps later : List Step) (hlater : ∀ s ∈ later, ¬ s.IsFile) :
    (after (steps ++ later)).flow.graph.callbackSet = (after steps).flow.graph.callbackSet := by
  induction later using List.reverseRecOn with
  | nil => rw [List.append_nil]
  | append_singleton later s ih =>
    rw [List.forall_mem_append] at hlater
    -- step by step from the end
    have hstep := callbackSet_step (valid_after (steps ++ later))
      (hlater.2 s (List.mem_singleton_self s))
    rw [← List.append_assoc, after_append]
    exact hstep.trans (ih hlater.1)

/-- **The census reads off the syntax, and is stable.** Whatever has been done, each call is that of
one expression, and the functions in its slots are the callbacks of this expression. The census
counts them and the calls that have any. It stays the same under all that may be done but to walk
more files. -/
theorem census_after (steps : List Step) :
    let t := (after steps).flow
    ∃ written : CallId → Expr,
      (∀ c site, t.program.call? c = some site →
        t.CallWritten (· ∈ (after steps).files) c site (written c)) ∧
      t.graph.callbackSet = t.writtenSlots written ∧
      ∀ later : List Step, (∀ s ∈ later, ¬ s.IsFile) →
        CallbackStats.ofGraph (after (steps ++ later)).flow.graph =
          ⟨(t.writtenSlots written).ncard, (Prod.fst '' t.writtenSlots written).ncard⟩ := by
  intro t
  have hexists : ∀ c, ∃ e, ∀ site, t.program.call? c = some site →
      t.CallWritten (· ∈ (after steps).files) c site e := by
    intro c
    cases hc : t.program.call? c with
    | none => exact ⟨.literal, nofun⟩
    | some site =>
      obtain ⟨e, he⟩ := exists_callWritten steps c site hc
      refine ⟨e, ?_⟩
      rintro _ ⟨⟩
      exact he
  choose written hwritten using hexists
  have hslots : t.graph.callbackSet = t.writtenSlots written := by
    ext ⟨c, slot⟩
    constructor
    · intro hslot
      -- the slot is a vertex, so that the call is one of the program
      obtain ⟨f, hedge⟩ := hslot.2
      have hhas := (FlowGraph.has_of_mem_edgeSet hedge).2
      obtain ⟨site, hc, -⟩ := (valid_after steps).wellFormed.vertices _ hhas
      exact ⟨⟨site, hc⟩, (hwritten c site hc).callbacks slot hslot⟩
    · rintro ⟨⟨site, hc⟩, hcallback⟩
      exact (hwritten c site hc).mem_callbackSet.2 hcallback
  refine ⟨written, hwritten, hslots, fun later hlater => ?_⟩
  rw [CallbackStats.ofGraph_eq, callbackSet_after steps later hlater, ← hslots]

/-- What has been built is linked, and then some rounds are run. -/
theorem graph_rounds {steps : List Step} {built : FilesFlow}
    (hflow : (after steps).flow = built.flow) (hrecords : (after steps).records = built.records)
    (n : ℕ) :
    let linked : List Step := [.build (.link (List.range (after steps).records.size))]
    (after (steps ++ (linked ++ List.replicate n .round))).flow.graph =
      (Propagation.rounds built.flow.program n built.links.graph).1 := by
  intro linked
  rw [after_append, List.foldl_append, foldl_round, List.foldl_cons, List.foldl_nil, step,
    build_link_range hflow hrecords, ← hflow]
  rfl

/-- Files are walked for sources only. -/
theorem exists_walked {sources : List SourceFile} {whats : List Build}
    (hbuilds : ∀ path lines m, .file path lines m ∈ whats → .file path lines m ∈ builds sources)
    {file : WalkedFile} (hfile : file ∈ (after (whats.map .build)).files) :
    ∃ source ∈ sources, source.Walked (after (whats.map .build)).flow.program file := by
  obtain ⟨path, hstep, hpath⟩ := files_after (whats.map .build) file hfile
  obtain ⟨what, hwhat, heq⟩ := List.mem_map.1 hstep
  rw [Step.build.inj heq] at hwhat
  obtain ⟨source, hsource, hm, hlines, rfl⟩ := exists_source (hbuilds _ _ _ hwhat)
  exact ⟨source, hsource, hm, hlines, hpath⟩

end History

namespace Analysis

/-- **The census of callbacks is that of the sources.** Each call is that of one expression of one
of the sources. When all files are built, when they are linked, after any number of rounds and in
the end the census is the number of arguments of these expressions that are callbacks, each in its
slot, and the number of calls that have any. -/
theorem census_exact (options : AnalysisOptions) (sources : List SourceFile) :
    let built := built options.natives sources
    ∃ written : CallId → Expr,
      (∀ c site, built.flow.program.call? c = some site →
        ∃ source ∈ sources, ∃ file place shape, source.Walked built.flow.program file ∧
          (written c).callShape? = some shape ∧ site.Reads file shape ∧
            built.flow.CallOf file place (written c) c) ∧
      let slots := built.flow.writtenSlots written
      let census : CallbackStats := ⟨slots.ncard, (Prod.fst '' slots).ncard⟩
      slots.Finite ∧
      CallbackStats.ofGraph built.flow.graph = census ∧
      CallbackStats.ofGraph built.links.graph = census ∧
      (∀ n, CallbackStats.ofGraph
        (Propagation.rounds built.flow.program n built.links.graph).1 = census) ∧
      (run options sources).stats.callbacks = census := by
  intro built
  obtain ⟨whats, hbuilds, hflow, hrecords⟩ :=
    History.exists_after_eq_built options.natives sources
  obtain ⟨written, hwritten, hslots, hcensus⟩ := History.census_after (whats.map .build)
  rw [hflow] at hwritten hslots
  simp only [hflow] at hcensus
  have hstart := hcensus [] nofun
  rw [List.append_nil, hflow] at hstart
  -- the census after any number of rounds is that after none
  have hrounds : ∀ n, CallbackStats.ofGraph
      (Propagation.rounds built.flow.program n built.links.graph).1 =
        ⟨(built.flow.writtenSlots written).ncard,
          (Prod.fst '' built.flow.writtenSlots written).ncard⟩ := by
    intro n
    rw [← History.graph_rounds hflow hrecords n]
    exact hcensus _ (List.forall_mem_append.2
      ⟨List.forall_mem_singleton.2 id, fun s hs => List.eq_of_mem_replicate hs ▸ id⟩)
  refine ⟨written, fun c site hc => ?_, ?_, hstart, hrounds 0, hrounds, ?_⟩
  · obtain ⟨file, hfile, place, shape, hshape, hreads, hof⟩ := (hwritten c site hc).origin
    obtain ⟨source, hsource, hwalked⟩ := History.exists_walked hbuilds hfile
    exact ⟨source, hsource, file, place, shape, hflow ▸ hwalked, hshape, hreads, hof⟩
  · exact hslots ▸ CallbackStats.finite_callbackSet built.flow.graph
  · obtain ⟨n, hrun⟩ := Propagation.exists_run_eq built.flow.program built.links.graph
    have hfinal : built.final.1 = (Propagation.rounds built.flow.program n built.links.graph).1 :=
      congrArg Prod.fst hrun
    rw [run_eq, ← hrounds n, ← hfinal]

/-- A function by its name is no callback; a class is one if it has a constructor. -/
example :
    let source :=
      "on(x => x, (y = function () \x7b\x7d), f); g(class \x7b constructor() \x7b\x7d \x7d)"
    (run { natives := false } [.ofText ⟨"a.js"⟩ source]).stats.callbacks = ⟨3, 2⟩ := by
  decide +kernel

end Analysis

end CallFlow
