import CallFlow.CallGraph.Endpoint
import CallFlow.Proofs.CallGraph.Exactness
import CallFlow.Proofs.FileFlow.Facts
import CallFlow.Proofs.Propagation.Mirror

/-!
# Call graphs under a renaming

The call graphs extracted from mirrored graphs have the same edges up to the renaming, and the
edges of both can be shown and look the same.
-/

namespace CallFlow

/-! ## Extraction -/

namespace Renaming

/-- What can be called comes from what can be called. -/
theorem vertex_eq_vertex (ρ : Renaming) {v : Vertex} {callee' : Callee} :
    ρ.vertex v = callee'.vertex ↔ ∃ callee, v = callee.vertex ∧ ρ.callee callee = callee' := by
  constructor
  · cases callee' with
    | function f' =>
      intro h
      obtain ⟨f, rfl, rfl⟩ := ρ.vertex_eq_func.1 h
      exact ⟨.function f, rfl, rfl⟩
    | native name =>
      intro h
      obtain rfl := ρ.vertex_eq_native.1 h
      exact ⟨.native name, rfl, rfl⟩
  · rintro ⟨callee, rfl, rfl⟩
    exact (ρ.vertex_callee callee).symm

end Renaming

namespace CallGraph

variable {extra : Set String} {ρ : Renaming} {p p' : Program} {G G' : FlowGraph}

/-- A call has the same callees, but for the extra built-in functions. -/
theorem callee_mem_callees_iff (h : G.Mirrors extra ρ G') (hp : p.Renamed ρ p')
    (hreg : CalleesRegistered p G) {callee : Callee}
    (hcallee : ∀ name ∈ extra, callee ≠ .native name) (c : CallId) :
    ρ.callee callee ∈ (extract p' G').callees (ρ.callId c) ↔ callee ∈ (extract p G).callees c := by
  rw [mem_callees_extract (h.calleesRegistered hp hreg), mem_callees_extract hreg,
    ρ.vertex_callee, h.flows_callee_iff fun name hname heq => hcallee name hname ?_]
  cases callee with
  | function f => cases heq
  | native _ => exact congrArg Callee.native (Vertex.native.inj heq)

/-- The program has the call of an edge, and the graph has its callee. -/
theorem known_of_mem_edges (hreg : CalleesRegistered p G) {e : CallId × Callee}
    (he : e ∈ (extract p G).edges) : (∃ site, p.call? e.1 = some site) ∧ G.Has e.2.vertex := by
  simp only [edges_extract, List.mem_flatMap, List.mem_map, Round.mem_callIds,
    Array.mem_toList_iff] at he
  obtain ⟨c, hsite, callee, hcallee, rfl⟩ := he
  exact ⟨hsite, FlowGraph.has_of_flows_ne ((mem_callees_extract hreg).1 hcallee)
    (Callee.vertex_ne_callee callee c)⟩

section

variable (h : G.Mirrors ∅ ρ G') (hp : p.Renamed ρ p') (hreg : CalleesRegistered p G)
include h hp hreg

/-- All callees come from callees. -/
theorem mem_callees_iff (c : CallId) (callee' : Callee) :
    callee' ∈ (extract p' G').callees (ρ.callId c) ↔
      ∃ callee ∈ (extract p G).callees c, ρ.callee callee = callee' := by
  constructor
  · intro hmem
    have hflow := (mem_callees_extract (h.calleesRegistered hp hreg)).1 hmem
    have hhas := FlowGraph.has_of_flows_ne hflow (Callee.vertex_ne_callee callee' _)
    -- the callee has a vertex, hence it is the renaming of one
    obtain ⟨v, -, heq⟩ := ((h.vertices _).1 hhas).resolve_right fun ⟨_, hname, _⟩ => hname
    obtain ⟨callee, -, rfl⟩ := ρ.vertex_eq_vertex.1 heq
    exact ⟨callee, (callee_mem_callees_iff h hp hreg (fun _ hname => hname.elim) c).1 hmem, rfl⟩
  · rintro ⟨callee, hmem, rfl⟩
    exact (callee_mem_callees_iff h hp hreg (fun _ hname => hname.elim) c).2 hmem

/-- A call is resolved in both graphs or in neither. -/
theorem isEmpty_callees (c : CallId) :
    ((extract p' G').callees (ρ.callId c)).isEmpty = ((extract p G).callees c).isEmpty := by
  rw [Bool.eq_iff_iff, Array.isEmpty_iff, Array.isEmpty_iff, Array.eq_empty_iff_forall_not_mem,
    Array.eq_empty_iff_forall_not_mem]
  refine ⟨fun hnone callee hmem => ?_, fun hnone callee' hmem => ?_⟩
  · exact hnone _ ((mem_callees_iff h hp hreg c _).2 ⟨callee, hmem, rfl⟩)
  · obtain ⟨callee, hcallee, -⟩ := (mem_callees_iff h hp hreg c callee').1 hmem
    exact hnone callee hcallee

theorem length_unresolvedCalls :
    (extract p' G').unresolvedCalls.length = (extract p G).unresolvedCalls.length := by
  rw [unresolvedCalls_extract, unresolvedCalls_extract, ← List.countP_eq_length_filter,
    ← List.countP_eq_length_filter, hp.callIds_perm.countP_eq, List.countP_map]
  exact List.countP_congr fun c _ => by
    rw [Function.comp_apply, isEmpty_callees h hp hreg c]

/-- **The edges are the same** up to the renaming. -/
theorem edges_perm :
    (extract p' G').edges.Perm
      ((extract p G).edges.map fun e => (ρ.callId e.1, ρ.callee e.2)) := by
  -- the renaming takes two edges to different ones
  have hinjective : Function.Injective fun e : CallId × Callee => (ρ.callId e.1, ρ.callee e.2) :=
    fun _ _ heq => Prod.ext (ρ.callId_injective (congrArg Prod.fst heq))
      (ρ.callee_injective (congrArg Prod.snd heq))
  refine (List.perm_ext_iff_of_nodup (nodup_edges_extract p' G')
    ((nodup_edges_extract p G).map hinjective)).2 fun ⟨c', callee'⟩ => ?_
  simp only [edges_extract, List.mem_map, List.mem_flatMap, hp.callIds_perm.mem_iff,
    Array.mem_toList_iff, Prod.mk.injEq]
  constructor
  · rintro ⟨_, ⟨c, hc, rfl⟩, k', hk', rfl, rfl⟩
    obtain ⟨callee, hcallee, rfl⟩ := (mem_callees_iff h hp hreg c k').1 hk'
    exact ⟨(c, callee), ⟨c, hc, callee, hcallee, rfl⟩, rfl, rfl⟩
  · rintro ⟨_, ⟨c, hc, callee, hcallee, rfl⟩, rfl, rfl⟩
    exact ⟨_, ⟨c, hc, rfl⟩, _, (mem_callees_iff h hp hreg c _).2 ⟨callee, hcallee, rfl⟩, rfl, rfl⟩

end

end CallGraph

/-! ## Showing edges -/

section

variable {ρ : Renaming} {p p' : Program}

/-- A call is shown by its file and the function around it, and a renaming keeps what is shown of
them. -/
theorem Endpoint.ofCall?_renamed (hp : p.Renamed ρ p') (c : CallId) :
    Endpoint.ofCall? p' (ρ.callId c) = Endpoint.ofCall? p c := by
  have hlabel : ∀ f, (p'.function? (ρ.functionId f)).map Program.label =
      (p.function? f).map Program.label := fun f => by
    rw [hp.function?, Option.map_map]
    rfl
  unfold Endpoint.ofCall? Program.enclosingName?
  rw [hp.call?]
  cases p.call? c with
  | none => rfl
  | some site =>
    obtain ⟨kind, argCount, enclosing, file, location⟩ := site
    cases enclosing with
    | none => simp [Renaming.site, hp.file?]
    | some f => simp [Renaming.site, hp.file?, hlabel]

/-- A function is shown by its name, its file and its place, which a renaming keeps. -/
theorem Endpoint.ofCallee?_renamed (hp : p.Renamed ρ p') (callee : Callee) :
    Endpoint.ofCallee? p' (ρ.callee callee) = Endpoint.ofCallee? p callee := by
  cases callee with
  | native name => rfl
  | function f =>
    unfold Endpoint.ofCallee? Renaming.callee
    dsimp only
    rw [hp.function?]
    cases p.function? f with
    | none => rfl
    | some function => simp [Renaming.function, hp.file?, Program.label]

theorem Endpoint.ofVertex_callee (program : Program) (callee : Callee) :
    Endpoint.ofVertex program callee.vertex =
      EndpointError.require (Endpoint.ofCallee? program callee) := by
  cases callee <;> rfl

theorem CallEdge.of_renamed (hp : p.Renamed ρ p') (c : CallId) (callee : Callee) :
    CallEdge.of p' (ρ.callId c) (ρ.callee callee) = CallEdge.of p c callee := by
  have hcall : Endpoint.ofVertex p' (.callee (ρ.callId c)) = Endpoint.ofVertex p (.callee c) :=
    congrArg EndpointError.require (Endpoint.ofCall?_renamed hp c)
  rw [CallEdge.of, CallEdge.of, hcall, Endpoint.ofVertex_callee, Endpoint.ofVertex_callee,
    Endpoint.ofCallee?_renamed hp]

end

/-- A call and a callee can be shown if their files are known, and the function around the call. -/
theorem CallEdge.exists_of {program : Program} {c : CallId} {site : CallSite} {callee : Callee}
    (hsite : program.call? c = some site) (hpath : ∃ path, program.file? site.file = some path)
    (henclosing : ∀ f ∈ site.enclosing, ∃ function, program.function? f = some function)
    (hcallee : ∀ f, callee = .function f → ∃ function, program.function? f = some function ∧
      ∃ path, program.file? function.file = some path) :
    ∃ edge, CallEdge.of program c callee = .ok edge := by
  -- the call with its file and the function around it
  have hsource : ∃ source, Endpoint.ofCall? program c = some source := by
    obtain ⟨path, hpath⟩ := hpath
    have hname : ∃ name, program.enclosingName? c = some name := by
      rw [Program.enclosingName?, hsite, Option.bind_some]
      cases h : site.enclosing with
      | none => exact ⟨_, rfl⟩
      | some f =>
        obtain ⟨function, hf⟩ := henclosing f h
        exact ⟨_, congrArg (Option.map Program.label) hf⟩
    obtain ⟨name, hname⟩ := hname
    simp [Endpoint.ofCall?, hsite, hname, hpath]
  -- the callee with its file, if it is written
  have htarget : ∃ target, Endpoint.ofCallee? program callee = some target := by
    cases callee with
    | native name => exact ⟨_, rfl⟩
    | function f =>
      obtain ⟨function, hf, path, hpath⟩ := hcallee f rfl
      simp [Endpoint.ofCallee?, hf, hpath]
  obtain ⟨source, hsource⟩ := hsource
  obtain ⟨target, htarget⟩ := htarget
  have hcall : Endpoint.ofVertex program (.callee c) = .ok source :=
    congrArg EndpointError.require hsource
  refine ⟨⟨source, target⟩, ?_⟩
  rw [CallEdge.of, Endpoint.ofVertex_callee, hcall, htarget]
  rfl

namespace FlowState.Sound

variable {s : FlowState}

theorem exists_function (h : s.Sound) {f : FunctionId} (hf : f.index < s.extent .function) :
    ∃ function, s.program.function? f = some function ∧ function.Within s.extent :=
  ⟨_, Array.getElem?_eq_getElem hf, h.functions _ (Array.getElem_mem hf)⟩

theorem exists_call (h : s.Sound) {c : CallId} (hc : c.index < s.extent .call) :
    ∃ site, s.program.call? c = some site ∧ site.Within s.extent :=
  ⟨_, Array.getElem?_eq_getElem hc, h.calls _ (Array.getElem_mem hc)⟩

/-- **Calls and callees can be shown.** -/
theorem exists_edge (h : s.Sound) {c : CallId} {callee : Callee}
    (hc : (Vertex.callee c).Within s.extent) (hcallee : callee.vertex.Within s.extent) :
    ∃ edge, CallEdge.of s.program c callee = .ok edge := by
  obtain ⟨site, hsite, hfile, henclosing⟩ := h.exists_call hc
  refine CallEdge.exists_of hsite ⟨_, Array.getElem?_eq_getElem hfile⟩
    (fun f hf => (h.exists_function (henclosing f hf)).imp fun _ => And.left) ?_
  rintro f rfl
  obtain ⟨function, hf, hfile, -⟩ := h.exists_function hcallee
  exact ⟨function, hf, _, Array.getElem?_eq_getElem hfile⟩

end FlowState.Sound

namespace CallGraph

/-- What an action gives for the entries of a list, if it fails for none of them. -/
theorem mapM_eq_filterMap {α β ε : Type} {f : α → Except ε β} {as : List α}
    (h : ∀ a ∈ as, ∃ b, f a = .ok b) : as.mapM f = .ok (as.filterMap fun a => (f a).toOption) := by
  induction as with
  | nil => rfl
  | cons a as ih =>
    obtain ⟨b, hb⟩ := h a List.mem_cons_self
    rw [List.mapM_cons, hb, ih fun a' ha' => h a' (List.mem_cons_of_mem a ha'),
      List.filterMap_cons_some (b := b) (by rw [hb]; rfl)]
    rfl

/-- What an action gives for the entries of a list, one after the other, if it fails for none. -/
theorem exists_mapM {α β ε : Type} {f : α → Except ε β} {as : List α}
    (h : ∀ a ∈ as, ∃ b, f a = .ok b) :
    ∃ bs, as.mapM f = .ok bs ∧ List.Forall₂ (fun a b => f a = .ok b) as bs := by
  induction as with
  | nil => exact ⟨[], rfl, .nil⟩
  | cons a as ih =>
    obtain ⟨hhead, hrest⟩ := List.forall_mem_cons.1 h
    obtain ⟨b, hb⟩ := hhead
    obtain ⟨bs, hbs, hgiven⟩ := ih hrest
    refine ⟨b :: bs, ?_, .cons hb hgiven⟩
    rw [List.mapM_cons, hb, hbs]
    rfl

/-- **Rendered edges are the same**, in some order. -/
theorem render_perm {ρ : Renaming} {p p' : Program} {calls calls' : CallGraph}
    (hp : p.Renamed ρ p')
    (hedges : calls'.edges.Perm (calls.edges.map fun e => (ρ.callId e.1, ρ.callee e.2)))
    (hshown : ∀ e ∈ calls.edges, ∃ edge, CallEdge.of p e.1 e.2 = .ok edge) :
    ∃ shown shown', calls.render p = .ok shown ∧ calls'.render p' = .ok shown' ∧
      shown'.Perm shown := by
  have hshown' : ∀ e' ∈ calls'.edges, ∃ edge, CallEdge.of p' e'.1 e'.2 = .ok edge := by
    intro e' he'
    obtain ⟨e, he, rfl⟩ := List.mem_map.1 (hedges.mem_iff.1 he')
    -- an edge that can be shown can be shown renamed
    rw [CallEdge.of_renamed hp]
    exact hshown e he
  refine ⟨_, _, mapM_eq_filterMap hshown, mapM_eq_filterMap hshown', ?_⟩
  refine (hedges.filterMap _).trans (.of_eq ?_)
  rw [List.filterMap_map]
  exact List.filterMap_congr fun e _ =>
    congrArg Except.toOption (CallEdge.of_renamed hp e.1 e.2)

end CallGraph

end CallFlow
