import CallFlow.Proofs.Flow.Paths
import Mathlib.Data.List.Nodup

/-!
# The condensation of a flow graph

The search for components is a loop of steps inside a loop over the vertices. `Search.Loops` and
`Search.Searches` are these loops without a bound, and `searches_searchAll` says that they end,
after one step for each vertex and one for each edge. With what `Condenses` says of the result
this gives the condensation of the graph that a snapshot is taken of,
`FlowGraph.condensation_exact`.
-/

namespace CallFlow

namespace Condensation

variable {n : Nat} {adjacency : Nat → List Nat}

/-! ## The loops -/

namespace Search

/-- The inner loop: as long as a frame is open there is one step more, so many in all. -/
inductive Loops (adjacency : Nat → List Nat) : Nat → Search → Search → Prop
  | done {s : Search} (h : s.frames = []) : Loops adjacency 0 s s
  | step {k : Nat} {s t : Search} (h : s.frames ≠ [])
    (rest : Loops adjacency k (s.step adjacency) t) : Loops adjacency (k + 1) s t

/-- The outer loop: from every root in turn that has not been met. -/
inductive Searches (adjacency : Nat → List Nat) : List Nat → Nat → Search → Search → Prop
  | done {s : Search} : Searches adjacency [] 0 s s
  | met {root k : Nat} {roots : List Nat} {s t : Search} (h : s.isMet root = true)
    (rest : Searches adjacency roots k s t) : Searches adjacency (root :: roots) k s t
  | new {root k m : Nat} {roots : List Nat} {s t u : Search} (h : s.isMet root = false)
    (loop : Loops adjacency k (s.enter adjacency root) t)
    (rest : Searches adjacency roots m t u) : Searches adjacency (root :: roots) (k + m) s u

variable {s : Search}

/-- A run is the inner loop, which takes the steps that are used up. -/
theorem loops_run (hadj : ∀ v, ∀ w ∈ adjacency v, w < n) (fuel : Nat) (s : Search)
    (hs : s.Sound n adjacency noneDue) (hfuel : s.remaining n adjacency ≤ fuel) :
    ∃ k, Loops adjacency k s (run adjacency fuel s) ∧
      k + (run adjacency fuel s).remaining n adjacency = s.remaining n adjacency := by
  induction fuel generalizing s with
  | zero => exact ⟨0, .done (run_idle hadj 0 s hs hfuel).1.frames_eq, Nat.zero_add _⟩
  | succ fuel ih =>
    rw [run]
    split
    · next hf => exact ⟨0, .done hf, Nat.zero_add _⟩
    · next f below hf =>
      have hne : s.frames ≠ [] := by simp [hf]
      have hstep := remaining_step hadj hs hne
      obtain ⟨k, hloop, hsteps⟩ := ih (s.step adjacency) (hs.step hadj) (by omega)
      exact ⟨k + 1, .step hne hloop, by omega⟩

/-- The search from one vertex after the other is a run of the loops. -/
theorem searches_foldl (hadj : ∀ v, ∀ w ∈ adjacency v, w < n) (roots : List Nat)
    (hroots : ∀ v ∈ roots, v < n) (s : Search) (hs : s.Idle n adjacency) :
    ∃ k, Searches adjacency roots k s (roots.foldl (visit adjacency (stepBound n adjacency)) s) ∧
      k + (roots.foldl (visit adjacency (stepBound n adjacency)) s).remaining n adjacency
        = s.remaining n adjacency := by
  induction roots generalizing s with
  | nil => exact ⟨0, .done, Nat.zero_add _⟩
  | cons root roots ih =>
    have hroot : root < n := hroots root List.mem_cons_self
    obtain ⟨m, hrest, hsteps⟩ := ih (fun v hv => hroots v (List.mem_cons_of_mem _ hv)) _
      (visit_idle hadj hs hroot).1
    rw [List.foldl_cons]
    cases hmet : s.isMet root with
    -- the root has been met before, and no step is taken
    | true =>
      rw [visit, if_pos hmet] at hrest hsteps ⊢
      exact ⟨m, .met hmet hrest, hsteps⟩
    -- the root is entered, and the inner loop runs until no frame is left
    | false =>
      have hnew : s.orderOf root = none := by
        simpa [isMet, orderOf, Option.isSome_iff_ne_none] using hmet
      have henter := hs.sound.enter hroot hnew (fun _ _ hdue => hdue.elim) (by simp [hs.frames_eq])
      have hremaining : (s.enter adjacency root).remaining n adjacency = s.remaining n adjacency :=
        remaining_enter hs.sound.order_size hroot hnew
      obtain ⟨k, hloop, hused⟩ := loops_run hadj (stepBound n adjacency) _ henter
        (hremaining.le.trans (remaining_le_stepBound hs.frames_eq))
      rw [visit, if_neg (by simp [hmet])] at hrest hsteps ⊢
      exact ⟨k + m, .new hmet hloop hrest, by omega⟩

/-- All vertices and edges are left to do. -/
theorem remaining_start (n : Nat) (adjacency : Nat → List Nat) :
    (start n).remaining n adjacency = stepBound n adjacency := by
  have hcost : ∀ v, (start n).cost adjacency v = 1 + (adjacency v).length := by
    intro v
    have hnew : (start n).orderOf v = none := by
      show (Array.replicate n none).getD v none = none
      rw [Array.getD_eq_getD_getElem?, Array.getElem?_replicate]
      split <;> rfl
    rw [cost, if_pos hnew]
  simp only [remaining, hcost, stepBound_eq]
  exact Nat.add_zero _

/-- **The search ends.** Each vertex takes one step, and so does each edge. -/
theorem searches_searchAll (hadj : ∀ v, ∀ w ∈ adjacency v, w < n) :
    Searches adjacency (List.range n) (stepBound n adjacency) (start n)
      (searchAll n adjacency) := by
  obtain ⟨k, hsearch, hsteps⟩ := searches_foldl hadj (List.range n)
    (fun v hv => List.mem_range.1 hv) (start n) (start_idle n adjacency)
  obtain ⟨hidle, hmet⟩ := searchAll_idle hadj
  -- every vertex has been met, so nothing is left
  have hnothing : (searchAll n adjacency).remaining n adjacency = 0 := by
    rw [remaining, hidle.frames_eq, List.map_nil, List.sum_nil, Nat.add_zero]
    refine Finset.sum_eq_zero fun v hv => ?_
    rw [cost, if_neg (hmet v (Finset.mem_range.1 hv))]
  have hall : k = stepBound n adjacency := by
    rw [← remaining_start, ← hsteps]
    show k = k + (searchAll n adjacency).remaining n adjacency
    rw [hnothing, Nat.add_zero]
  exact hall ▸ hsearch

/-- The search leaves each vertex with the component that the condensation has for it. -/
theorem component_searchAll (hadj : ∀ v, ∀ w ∈ adjacency v, w < n) :
    (searchAll n adjacency).component = (ofAdjacency n adjacency).component.map some := by
  have hsize := (searchAll_idle hadj).1.sound.component_size
  refine Array.ext (by simp [ofAdjacency]) fun v hv _ => ?_
  obtain ⟨i, hi⟩ := exists_componentOf hadj (hsize ▸ hv)
  have hget : (searchAll n adjacency).component[v] = some i := by
    simpa [componentOf, Array.getD_eq_getD_getElem?, hv] using hi
  simp [ofAdjacency, hget]

end Search

/-! ## Lists of successors -/

/-- Inserting keeps a list ascending. -/
theorem pairwise_insertAscending {l : List Nat} (h : l.Pairwise (· < ·)) (k : Nat) :
    (insertAscending k l).Pairwise (· < ·) := by
  induction l with
  | nil => exact List.pairwise_singleton _ _
  | cons m rest ih =>
    obtain ⟨hm, hrest⟩ := List.pairwise_cons.1 h
    rw [insertAscending]
    split
    · next hkm =>
      exact List.pairwise_cons.2 ⟨List.forall_mem_cons.2 ⟨hkm, fun j hj => hkm.trans (hm j hj)⟩, h⟩
    · split
      · exact h
      · next hmk hne =>
        refine List.pairwise_cons.2 ⟨fun j hj => ?_, ih hrest⟩
        rcases mem_insertAscending.1 hj with rfl | hj
        · omega
        · exact hm j hj

/-- A table with one list of successors for each of so many components, all ascending. -/
structure Ascending (size : Nat) (successors : Array (List Nat)) : Prop where
  size_eq : successors.size = size
  pairwise : ∀ i, (successors.getD i []).Pairwise (· < ·)

/-- The lists stay ascending with a further successor. -/
theorem Ascending.modify {size : Nat} {successors : Array (List Nat)}
    (h : Ascending size successors) (source target : Nat) :
    Ascending size (successors.modify source (insertAscending target)) where
  size_eq := Array.size_modify.trans h.size_eq
  pairwise i := by
    have hi := h.pairwise i
    rw [Array.getD_eq_getD_getElem?] at hi ⊢
    rw [Array.getElem?_modify]
    split
    · cases hget : successors[i]? with
      | none => exact List.Pairwise.nil
      | some l =>
        rw [hget] at hi
        exact pairwise_insertAscending hi target
    · exact hi

/-- They do with the successors of a vertex. -/
theorem Ascending.addSuccessors {size : Nat} {successors : Array (List Nat)}
    (h : Ascending size successors) (adjacency : Nat → List Nat) (component : Array Nat) (v : Nat) :
    Ascending size (addSuccessors adjacency component successors v) := by
  unfold Condensation.addSuccessors
  dsimp only
  generalize adjacency v = targets
  induction targets generalizing successors with
  | nil => exact h
  | cons w rest ih =>
    rw [List.foldl_cons]
    refine ih ?_
    split
    · exact h
    · exact h.modify _ _

/-- So the lists of successors are ascending. -/
theorem ascending_successors (n : Nat) (adjacency : Nat → List Nat) :
    Ascending (ofAdjacency n adjacency).members.size (ofAdjacency n adjacency).successors := by
  have hfold : ∀ (component : Array Nat) (vertices : List Nat) (size : Nat)
      (successors : Array (List Nat)), Ascending size successors →
      Ascending size (vertices.foldl (addSuccessors adjacency component) successors) := by
    intro component vertices size
    induction vertices with
    | nil => exact fun _ h => h
    | cons v rest ih => exact fun _ h => ih _ (h.addSuccessors adjacency component v)
  refine hfold _ _ _ _ ⟨Array.size_replicate, fun i => ?_⟩
  rw [Array.getD_eq_getD_getElem?, Array.getElem?_replicate]
  split <;> exact List.Pairwise.nil

/-! ## What the condensation of a graph is like -/

namespace Condenses

variable {c : Condensation} (hc : c.Condenses n adjacency)
include hc

/-- Successors have smaller numbers. -/
theorem lt_of_mem_successors {i j : Nat} (h : j ∈ c.successors.getD i []) : j < i := by
  obtain ⟨hne, v, hv, rfl, w, hw, rfl⟩ := (hc.mem_successors i j).1 h
  exact lt_of_le_of_ne (hc.componentOf_le v hv w hw) hne

/-- What one component leads to by one or more edges has a smaller number. -/
theorem lt_of_transGen {i j : Nat}
    (h : Relation.TransGen (fun i j => j ∈ c.successors.getD i []) i j) : j < i := by
  induction h with
  | single hij => exact hc.lt_of_mem_successors hij
  | tail _ hjk ih => exact (hc.lt_of_mem_successors hjk).trans ih

/-- Each vertex is listed once. -/
theorem perm_flatten_members : c.members.toList.flatten.Perm (List.range n) := by
  have hget : ∀ i (hi : i < c.members.toList.length),
      c.members.toList[i] = c.members.getD i [] := by
    intro i hi
    rw [Array.length_toList] at hi
    simp [Array.getD_eq_getD_getElem?, hi]
  -- no vertex is in two components
  have hnodup : c.members.toList.flatten.Nodup := by
    refine List.nodup_flatten.2 ⟨fun l hl => ?_, List.pairwise_iff_getElem.2 ?_⟩
    · obtain ⟨i, hi, rfl⟩ := List.getElem_of_mem hl
      exact hget i hi ▸ hc.members_nodup i
    · intro i j hi hj hij v hvi hvj
      rw [hget] at hvi hvj
      exact hij.ne (((hc.mem_members i v).1 hvi).2.2.symm.trans ((hc.mem_members j v).1 hvj).2.2)
  refine (List.perm_ext_iff_of_nodup hnodup List.nodup_range).2 fun v => ?_
  rw [List.mem_flatten, List.mem_range]
  constructor
  · rintro ⟨l, hl, hv⟩
    obtain ⟨i, hi, rfl⟩ := List.getElem_of_mem hl
    exact ((hc.mem_members i v).1 (hget i hi ▸ hv)).1
  · intro hv
    have hlt := hc.componentOf_lt v hv
    have hmem := (hc.mem_members _ v).2 ⟨hv, hlt, rfl⟩
    rw [← hget _ (by rwa [Array.length_toList])] at hmem
    exact ⟨_, List.getElem_mem _, hmem⟩

end Condenses

end Condensation

/-! ## The condensation of a flow graph -/

namespace FlowGraph

/-- **The search computes the condensation.** For every graph, whatever is followed:
* the loops end, with nothing left on the stack and a component for each vertex, after one step
  for each vertex and one for each edge that is followed;
* all that is looked up is there: edges lead to vertices, each vertex has a component, and each
  component has a list of members and one of successors;
* two vertices share a component iff each reaches the other;
* the members of a component are the vertices in it, and each vertex is listed once;
* an edge between two components leads to the smaller number, so no component leads to itself;
* the successors of a component are those that an edge leads to from there, each listed once. -/
theorem condensation_exact (graph : FlowGraph) (follows : Vertex → Bool) :
    let n := graph.vertexCount
    let adjacency := graph.followed follows
    let c := (graph.reachability follows).condensation
    (∃ last, Condensation.Search.Searches adjacency (List.range n)
        (n + ((List.range n).flatMap adjacency).length) (.start n) last ∧
      last.frames = [] ∧ last.stack = [] ∧
      last.component = c.component.map some ∧ last.members = c.members) ∧
    (c.component.size = n ∧ c.successors.size = c.members.size ∧
      (∀ v, ∀ w ∈ adjacency v, w < n) ∧ ∀ v < n, c.componentOf v < c.members.size) ∧
    (∀ u v : VertexId, u.index < n → v.index < n →
      (c.componentOf u.index = c.componentOf v.index ↔
        graph.Path follows u v ∧ graph.Path follows v u)) ∧
    (c.members.toList.flatten.Perm (List.range n) ∧
      ∀ i v, v ∈ c.members.getD i [] ↔ v < n ∧ i < c.members.size ∧ c.componentOf v = i) ∧
    (∀ u v : VertexId, graph.Step follows u v → c.componentOf u.index ≠ c.componentOf v.index →
      c.componentOf v.index < c.componentOf u.index) ∧
    (∀ i, ¬Relation.TransGen (fun i j => j ∈ c.successors.getD i []) i i) ∧
    ∀ i, (c.successors.getD i []).Pairwise (· < ·) ∧
      ∀ j, j ∈ c.successors.getD i [] ↔ j ≠ i ∧ ∃ u v : VertexId, graph.Step follows u v ∧
        c.componentOf u.index = i ∧ c.componentOf v.index = j := by
  intro n adjacency c
  have hadj : ∀ v, ∀ w ∈ adjacency v, w < n := graph.followed_lt follows
  have hc : c.Condenses n adjacency := Condensation.condenses_ofAdjacency hadj
  have hascending : Condensation.Ascending c.members.size c.successors :=
    Condensation.ascending_successors n adjacency
  obtain ⟨hidle, -⟩ := Condensation.Search.searchAll_idle hadj
  refine ⟨⟨_, Condensation.Search.searches_searchAll hadj, hidle.frames_eq,
      List.eq_nil_iff_forall_not_mem.2 hidle.not_mem_stack,
      Condensation.Search.component_searchAll hadj, rfl⟩,
    ⟨hc.component_size, hascending.size_eq, hadj, hc.componentOf_lt⟩, ?shared,
    ⟨hc.perm_flatten_members, hc.mem_members⟩, ?down, fun i h => (hc.lt_of_transGen h).false,
    fun i => ⟨hascending.pairwise i, fun j => ?successors⟩⟩
  -- paths of the graph are those along the numbers
  case shared =>
    intro u v hu hv
    rw [hc.componentOf_eq_iff _ hu _ hv, reaches_followed, reaches_followed]
  -- an edge does not lead upwards, and here not within a component either
  case down =>
    intro u v huv hne
    have hle := hc.componentOf_le _ (graph.lt_of_hasEdge huv.1).1 _ (mem_followed.2 huv)
    exact lt_of_le_of_ne hle (Ne.symm hne)
  case successors =>
    rw [hc.mem_successors]
    refine and_congr_right fun _ => ⟨?_, ?_⟩
    · rintro ⟨u, hu, hi, v, huv, hj⟩
      exact ⟨⟨u⟩, ⟨v⟩, mem_followed.1 huv, hi, hj⟩
    · rintro ⟨u, v, huv, hi, hj⟩
      exact ⟨u.index, (graph.lt_of_hasEdge huv.1).1, hi, v.index, mem_followed.2 huv, hj⟩

end FlowGraph

end CallFlow
