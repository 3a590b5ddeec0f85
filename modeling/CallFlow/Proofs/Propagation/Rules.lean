import CallFlow.Flow.Propagation
import CallFlow.Proofs.Flow.Edges
import Mathlib.Order.Bounds.Basic

/-!
# The rules of propagation

Two closure conditions on sets of edges. Both say that a function which flows into the callee of
a call exchanges values with that call. `FullClosed` asks for all of the edges along which it
does; `DemandClosed` only for those into a vertex that leads to a callee itself.

The difference between them is invisible to callees. From a set that has every edge which some
callee wants, `unwanted` makes one that is closed under the full rules, and no more flows into a
callee in it than before.
-/

namespace CallFlow

/-- The edges along which a call of the program and a function that it invokes exchange values:
from the result of the function to that of the call, and from the receiver and the arguments to
the parameters that they have. -/
inductive Transfer (program : Program) (f : FunctionId) (c : CallId) : Vertex → Vertex → Prop
  | result {function : Function} {site : CallSite} (hf : program.function? f = some function)
      (hc : program.call? c = some site) : Transfer program f c (.ret f) (.res c)
  | argument {function : Function} {site : CallSite} {slot : Nat}
      (hf : program.function? f = some function) (hc : program.call? c = some site)
      (hslot : slot ≤ min function.paramCount site.argCount) :
      Transfer program f c (.arg c slot) (.param f slot)

/-- What flows along the edges of `E` to the callee of some call. -/
def Wanted (E : Set (Vertex × Vertex)) (v : Vertex) : Prop :=
  ∃ c, Flows E v (.callee c)

/-- The vertices that may be flagged: the results of calls and the parameters of functions. -/
inductive Markable (program : Program) : Vertex → Prop
  | res {c : CallId} {site : CallSite} (hc : program.call? c = some site) :
      Markable program (.res c)
  | param {f : FunctionId} {function : Function} {slot : Nat}
      (hf : program.function? f = some function) (hslot : slot ≤ function.paramCount) :
      Markable program (.param f slot)

/-- Every callee in the graph is that of a call of the program. -/
def CalleesRegistered (program : Program) (graph : FlowGraph) : Prop :=
  ∀ c, graph.Has (.callee c) → ∃ site, program.call? c = some site

/-- Closed under the exchange of values between a call and all functions that it may invoke. -/
def FullClosed (program : Program) (E : Set (Vertex × Vertex)) : Prop :=
  ∀ f c a b, Flows E (.func f) (.callee c) → Transfer program f c a b → (a, b) ∈ E

/-- Closed under that exchange where its target is a vertex of the graph that leads to a callee. -/
def DemandClosed (program : Program) (graph : FlowGraph) (E : Set (Vertex × Vertex)) : Prop :=
  ∀ f c a b, Flows E (.func f) (.callee c) → Transfer program f c a b → graph.Has b →
    Wanted E b → (a, b) ∈ E

/-- The least set of edges with those of the graph that is closed under the full rules. -/
def exhaustive (program : Program) (graph : FlowGraph) : Set (Vertex × Vertex) :=
  ⋂₀ { E | graph.edgeSet ⊆ E ∧ FullClosed program E }

section

variable {program : Program} {f : FunctionId} {c : CallId} {a b : Vertex}
  {E E' : Set (Vertex × Vertex)}

/-- The edges of `Transfer`, in the order in which a round tries to add them. -/
def transfers (program : Program) (f : FunctionId) (c : CallId) : List (Vertex × Vertex) :=
  match program.function? f, program.call? c with
  | some function, some site =>
    (.ret f, .res c) :: (List.range (min function.paramCount site.argCount + 1)).map fun slot =>
      (.arg c slot, .param f slot)
  | _, _ => []

/-- The list has the result and one edge for each slot that both have. -/
theorem mem_transfers : (a, b) ∈ transfers program f c ↔ Transfer program f c a b := by
  rw [transfers]
  split
  · next function site hf hc =>
    simp only [List.mem_cons, List.mem_map, List.mem_range, Prod.mk.injEq]
    constructor
    · rintro (⟨rfl, rfl⟩ | ⟨slot, hslot, rfl, rfl⟩)
      · exact .result hf hc
      · exact .argument hf hc (by omega)
    · intro h
      cases h with
      | result _ _ => exact Or.inl ⟨rfl, rfl⟩
      | @argument function' site' slot hf' hc' hslot =>
        obtain rfl := Option.some.inj (hf.symm.trans hf')
        obtain rfl := Option.some.inj (hc.symm.trans hc')
        exact Or.inr ⟨slot, by omega, rfl, rfl⟩
  -- without a function or a call there is nothing to exchange
  · next hnone =>
    refine ⟨fun h => absurd h List.not_mem_nil, fun h => ?_⟩
    cases h with
    | result hf hc | argument hf hc _ => exact absurd hc (hnone _ _ hf)

theorem Transfer.markable (h : Transfer program f c a b) : Markable program b := by
  cases h with
  | result _ hc => exact .res hc
  | argument hf _ hslot => exact .param hf (hslot.trans (Nat.min_le_left _ _))

/-- Results and parameters are never sources of the edges that a transfer adds. -/
theorem Markable.ne_source (h : Transfer program f c a b) {v : Vertex} (hv : Markable program v) :
    v ≠ a := by
  cases h <;> cases hv <;> simp

theorem Transfer.ne (h : Transfer program f c a b) : a ≠ b :=
  (h.markable.ne_source h).symm

theorem Wanted.mono (h : E ⊆ E') {v : Vertex} (hv : Wanted E v) : Wanted E' v :=
  hv.imp fun _ => Flows.mono h

theorem Wanted.has {graph : FlowGraph} {v : Vertex} (hv : Markable program v)
    (h : Wanted graph.edgeSet v) : graph.Has v := by
  obtain ⟨c, hc⟩ := h
  have hne : v ≠ .callee c := by cases hv <;> simp
  exact FlowGraph.has_of_flows_ne hc hne

/-- The exhaustive edges are the least closed set. -/
theorem exhaustive_isLeast (program : Program) (graph : FlowGraph) :
    IsLeast { E | graph.edgeSet ⊆ E ∧ FullClosed program E } (exhaustive program graph) := by
  refine ⟨⟨Set.subset_sInter fun E hE => hE.1, fun f c a b hflow htransfer => ?_⟩,
    fun E hE => Set.sInter_subset_of_mem hE⟩
  -- what flows in the intersection flows in every closed set
  refine Set.mem_sInter.2 fun E hE => hE.2 f c a b ?_ htransfer
  exact hflow.mono (Set.sInter_subset_of_mem hE)

/-! ## Edges that nobody wants -/

/-- The edges of `E` and all edges into vertices that lead to no callee. -/
def unwanted (E : Set (Vertex × Vertex)) : Set (Vertex × Vertex) :=
  { e | Wanted E e.2 → e ∈ E }

theorem subset_unwanted : E ⊆ unwanted E := fun _ he _ => he

/-- Unwanted edges carry nothing into a callee. The induction goes backwards from the callee: the
rest of the path shows that the target of its first edge is wanted. -/
theorem flows_of_unwanted {v : Vertex} (h : Flows (unwanted E) v (.callee c)) :
    Flows E v (.callee c) := by
  induction h using Relation.ReflTransGen.head_induction_on with
  | refl => exact .refl
  | head hstep _ ih => exact .head ⟨hstep.1, hstep.2 ⟨c, ih⟩⟩ ih

/-- A set that has all transfers which are wanted is fully closed up to unwanted edges. -/
theorem fullClosed_unwanted (h : ∀ f c a b, Flows E (.func f) (.callee c) →
    Transfer program f c a b → Wanted E b → (a, b) ∈ E) : FullClosed program (unwanted E) := by
  intro f c a b hflow htransfer hwanted
  exact h f c a b (flows_of_unwanted hflow) htransfer hwanted

/-- **Unwanted edges are not missed.** A set between the graph and its exhaustive edges that has
all wanted transfers has the same flow into callees as the exhaustive edges. -/
theorem flows_exhaustive_iff {graph : FlowGraph} (hgraph : graph.edgeSet ⊆ E)
    (hE : E ⊆ exhaustive program graph)
    (h : ∀ f c a b, Flows E (.func f) (.callee c) → Transfer program f c a b → Wanted E b →
      (a, b) ∈ E) {v : Vertex} :
    Flows (exhaustive program graph) v (.callee c) ↔ Flows E v (.callee c) := by
  refine ⟨fun hflow => flows_of_unwanted (hflow.mono ?_), fun hflow => hflow.mono hE⟩
  exact (exhaustive_isLeast program graph).2
    ⟨hgraph.trans subset_unwanted, fullClosed_unwanted h⟩

end

/-! ## A function that calls its parameter

The smallest program in which a call depends on propagation: `apply` calls its parameter, and the
top level passes `passed` to it. -/

namespace Example

/-- A function that calls its first parameter. -/
def apply : FunctionId := ⟨0⟩
/-- The function that is passed to it. -/
def passed : FunctionId := ⟨1⟩

/-- The call of `apply`. -/
def outer : CallId := ⟨0⟩

/-- The call of the parameter of `apply`. -/
def inner : CallId := ⟨1⟩

/-- The two functions and the two calls. -/
def program : Program where
  functions := #[⟨some "apply", 1, ⟨0⟩, default, none, false⟩,
    ⟨some "passed", 0, ⟨0⟩, default, none, false⟩]
  calls := #[⟨.call, 1, none, ⟨0⟩, default⟩, ⟨.call, 0, some apply, ⟨0⟩, default⟩]

/-- What the walk over the program finds. -/
def graph : FlowGraph :=
  (((FlowGraph.empty.connect (.func apply) (.callee outer)).2.connect
    (.func passed) (.arg outer 1)).2.connect (.param apply 1) (.callee inner)).2

/-- The parameter is called inside, and the call outside passes the function. -/
theorem edgeSet_graph : graph.edgeSet =
    {(.param apply 1, .callee inner), (.func passed, .arg outer 1),
      (.func apply, .callee outer)} := by
  simp [graph, FlowGraph.edgeSet_connect]

/-- Both calls are in the program. -/
theorem calleesRegistered : CalleesRegistered program graph := by
  intro c hc
  simp only [graph, FlowGraph.has_connect, FlowGraph.not_has_empty, Vertex.callee.injEq,
    reduceCtorEq, false_or, or_false] at hc
  rcases hc with rfl | rfl
  · exact ⟨_, rfl⟩
  · exact ⟨_, rfl⟩

theorem not_flagged (v : Vertex) : ¬ graph.Flagged v := by
  rw [graph, FlowGraph.flagged_connect, FlowGraph.flagged_connect, FlowGraph.flagged_connect]
  exact fun h => FlowGraph.not_has_empty v h.has

/-- A graph of the same program in which the argument has no vertex. -/
def unfilled : FlowGraph :=
  ((FlowGraph.empty.connect (.func apply) (.callee outer)).2.connect
    (.param apply 1) (.callee inner)).2

/-- They are with fewer edges as well. -/
theorem calleesRegistered_unfilled : CalleesRegistered program unfilled := by
  intro c hc
  simp only [unfilled, FlowGraph.has_connect, FlowGraph.not_has_empty, Vertex.callee.injEq,
    reduceCtorEq, false_or] at hc
  rcases hc with rfl | rfl
  · exact ⟨_, rfl⟩
  · exact ⟨_, rfl⟩

/-- The call of `apply` passes its argument to the parameter. -/
theorem transfer : Transfer program apply outer (.arg outer 1) (.param apply 1) :=
  .argument rfl rfl (by decide)

end Example

end CallFlow
