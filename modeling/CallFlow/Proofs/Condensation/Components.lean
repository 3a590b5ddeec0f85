import CallFlow.Proofs.Condensation.DepthFirst

/-!
# The components of a graph

What the condensation of a graph on `0 … n - 1` says about the graph: each vertex is in one
component, two vertices share a component if they reach each other, an edge never leads to a
greater component, and one component is a successor of another if an edge leads to it from there.
Hence reachability among vertices is reachability among their components.
-/

namespace CallFlow.Condensation

/-! ## The successors of a component -/

/-- Inserting adds the one number. -/
theorem mem_insertAscending {k j : Nat} {l : List Nat} :
    j ∈ insertAscending k l ↔ j = k ∨ j ∈ l := by
  induction l with
  | nil => simp [insertAscending]
  | cons m rest ih =>
    rw [insertAscending]
    split
    · simp
    · split
      · next h => simp [h]
      · rw [List.mem_cons, ih, List.mem_cons, or_left_comm]

/-- Modifying an entry leaves the others. -/
theorem getD_modify {α : Type} (xs : Array α) (i j : Nat) (f : α → α) (d : α) (hi : i < xs.size) :
    (xs.modify i f).getD j d = if j = i then f (xs.getD j d) else xs.getD j d := by
  simp only [Array.getD_eq_getD_getElem?, Array.getElem?_modify]
  by_cases hij : i = j
  · subst hij
    simp [hi]
  · simp [hij, Ne.symm hij]

/-- Among the successors of all components one is new. -/
theorem mem_modify_insertAscending {successors : Array (List Nat)} {source : Nat}
    (hsource : source < successors.size) (target i j : Nat) :
    j ∈ (successors.modify source (insertAscending target)).getD i [] ↔
      j ∈ successors.getD i [] ∨ source = i ∧ target = j := by
  rw [getD_modify _ _ _ _ _ hsource]
  by_cases hi : i = source
  · rw [if_pos hi, mem_insertAscending, or_comm]
    simp [hi, eq_comm]
  · rw [if_neg hi]
    simp [Ne.symm hi]

/-- One vertex gives its component the components that its edges lead out to. -/
theorem addSuccessors_spec (adjacency : Nat → List Nat) (component : Array Nat)
    (successors : Array (List Nat)) (v : Nat) (hv : component.getD v 0 < successors.size) :
    (addSuccessors adjacency component successors v).size = successors.size ∧
      ∀ i j, j ∈ (addSuccessors adjacency component successors v).getD i [] ↔
        j ∈ successors.getD i [] ∨
          j ≠ i ∧ component.getD v 0 = i ∧ ∃ w ∈ adjacency v, component.getD w 0 = j := by
  unfold addSuccessors
  dsimp only
  generalize component.getD v 0 = source at hv ⊢
  -- by induction on the edges that are left, over all tables
  generalize adjacency v = targets
  induction targets generalizing successors with
  | nil => simp
  | cons w rest ih =>
    rw [List.foldl_cons]
    set target := component.getD w 0
    set added := if target = source then successors
      else successors.modify source (insertAscending target) with hadded
    have hsize : added.size = successors.size := by
      rw [hadded]
      split
      · rfl
      · exact Array.size_modify
    have hmem : ∀ i j, j ∈ added.getD i [] ↔
        j ∈ successors.getD i [] ∨ j ≠ i ∧ source = i ∧ target = j := by
      intro i j
      rw [hadded]
      split
      · next h =>
        -- an edge within the component adds nothing
        refine ⟨Or.inl, fun h' => h'.resolve_right ?_⟩
        rintro ⟨hji, rfl, rfl⟩
        exact hji h
      · next h =>
        rw [mem_modify_insertAscending hv]
        refine or_congr_right ⟨?_, And.right⟩
        rintro ⟨rfl, rfl⟩
        exact ⟨h, rfl, rfl⟩
    obtain ⟨hsize', hmem'⟩ := ih added (hsize ▸ hv)
    refine ⟨hsize'.trans hsize, fun i j => ?_⟩
    rw [hmem', hmem, List.exists_mem_cons_iff, or_assoc, ← and_or_left, ← and_or_left]

/-- The vertices add the successors of their components, one vertex after the other. -/
theorem foldl_addSuccessors_spec (adjacency : Nat → List Nat) (component : Array Nat)
    (vertices : List Nat) (successors : Array (List Nat))
    (hlt : ∀ v ∈ vertices, component.getD v 0 < successors.size) (i j : Nat) :
    j ∈ (vertices.foldl (addSuccessors adjacency component) successors).getD i [] ↔
      j ∈ successors.getD i [] ∨ j ≠ i ∧ ∃ v ∈ vertices, component.getD v 0 = i ∧
        ∃ w ∈ adjacency v, component.getD w 0 = j := by
  induction vertices generalizing successors with
  | nil => simp
  | cons v rest ih =>
    obtain ⟨hsize, hmem⟩ :=
      addSuccessors_spec adjacency component successors v (hlt v List.mem_cons_self)
    rw [List.foldl_cons, ih _ (fun u hu => by
      rw [hsize]; exact hlt u (List.mem_cons_of_mem _ hu)), hmem]
    constructor
    -- from the first vertex or from one of the rest
    · rintro ((h | ⟨hji, h⟩) | ⟨hji, u, hu, h⟩)
      · exact Or.inl h
      · exact Or.inr ⟨hji, v, List.mem_cons_self, h⟩
      · exact Or.inr ⟨hji, u, List.mem_cons_of_mem _ hu, h⟩
    · rintro (h | ⟨hji, u, hu, h⟩)
      · exact Or.inl (Or.inl h)
      · rcases List.mem_cons.1 hu with rfl | hu
        · exact Or.inl (Or.inr ⟨hji, h⟩)
        · exact Or.inr ⟨hji, u, hu, h⟩

/-! ## What the components say about the graph -/

/-- The component of a vertex. -/
def componentOf (c : Condensation) (v : Nat) : Nat := c.component.getD v 0

/-- A component leads to another by zero or more edges between components. -/
abbrev Leads (c : Condensation) : Nat → Nat → Prop :=
  Relation.ReflTransGen fun i j => j ∈ c.successors.getD i []

/-- `c` is the condensation of the graph on `0 … n - 1` with these edges. -/
structure Condenses (c : Condensation) (n : Nat) (adjacency : Nat → List Nat) : Prop where
  component_size : c.component.size = n
  componentOf_lt : ∀ v < n, c.componentOf v < c.members.size
  componentOf_eq_iff : ∀ v < n, ∀ w < n, c.componentOf v = c.componentOf w ↔
    Reaches adjacency v w ∧ Reaches adjacency w v
  /-- No edge leads upwards. -/
  componentOf_le : ∀ v < n, ∀ w ∈ adjacency v, c.componentOf w ≤ c.componentOf v
  mem_members : ∀ i v, v ∈ c.members.getD i [] ↔ v < n ∧ i < c.members.size ∧ c.componentOf v = i
  members_nodup : ∀ i, (c.members.getD i []).Nodup
  mem_successors : ∀ i j, j ∈ c.successors.getD i [] ↔
    j ≠ i ∧ ∃ v < n, c.componentOf v = i ∧ ∃ w ∈ adjacency v, c.componentOf w = j

variable {n : Nat} {adjacency : Nat → List Nat}

/-- Components that a closed vertex reaches are not greater than its own. -/
theorem Search.Sound.componentOf_le_of_reaches {s : Search}
    (hs : s.Sound n adjacency Search.noneDue) {v w i : Nat} (hv : s.componentOf v = some i)
    (hvw : Reaches adjacency v w) : ∃ j, j ≤ i ∧ s.componentOf w = some j := by
  induction hvw with
  | refl => exact ⟨i, le_rfl, hv⟩
  | tail _ hedge ih =>
    obtain ⟨j, hji, hj⟩ := ih
    obtain ⟨k, hkj, hk⟩ := hs.closed _ j hj _ hedge
    exact ⟨k, hkj.trans hji, hk⟩

/-- Where no frame is open, nothing is on the stack. -/
theorem Search.Idle.not_mem_stack {s : Search} (hs : s.Idle n adjacency) (v : Nat) :
    v ∉ s.stack := by
  intro hv
  obtain ⟨f, hf, -⟩ := hs.sound.covered v hv
  rw [hs.frames_eq] at hf
  exact absurd hf List.not_mem_nil

/-- After the search the components are those that the search has closed. -/
theorem componentOf_ofAdjacency {v i : Nat} (hv : (searchAll n adjacency).componentOf v = some i) :
    (ofAdjacency n adjacency).componentOf v = i := by
  show ((searchAll n adjacency).component.map (·.getD 0)).getD v 0 = i
  rw [Search.componentOf, Array.getD_eq_getD_getElem?] at hv
  rw [Array.getD_eq_getD_getElem?, Array.getElem?_map]
  cases h : (searchAll n adjacency).component[v]? with
  | none =>
    rw [h] at hv
    cases hv
  | some k =>
    rw [h] at hv
    obtain rfl : k = some i := hv
    rfl

/-- The search closes every vertex. -/
theorem exists_componentOf (hadj : ∀ v, ∀ w ∈ adjacency v, w < n) {v : Nat} (hv : v < n) :
    ∃ i, (searchAll n adjacency).componentOf v = some i := by
  obtain ⟨hidle, hmet⟩ := Search.searchAll_idle hadj
  have hclosed := ((hidle.sound.met_iff v).1 (hmet v hv)).resolve_left (hidle.not_mem_stack v)
  exact Option.ne_none_iff_exists'.1 hclosed

theorem componentOf_ofAdjacency_lt (hadj : ∀ v, ∀ w ∈ adjacency v, w < n) {v : Nat} (hv : v < n) :
    (ofAdjacency n adjacency).componentOf v < (searchAll n adjacency).members.size := by
  obtain ⟨i, hi⟩ := exists_componentOf hadj hv
  rw [componentOf_ofAdjacency hi]
  exact (Search.searchAll_idle hadj).1.sound.lt_of_componentOf hi

/-- One component is a successor of another if an edge leads to it from there. -/
theorem mem_successors_ofAdjacency (hadj : ∀ v, ∀ w ∈ adjacency v, w < n) (i j : Nat) :
    j ∈ (ofAdjacency n adjacency).successors.getD i [] ↔ j ≠ i ∧ ∃ v < n,
      (ofAdjacency n adjacency).componentOf v = i ∧
        ∃ w ∈ adjacency v, (ofAdjacency n adjacency).componentOf w = j := by
  have hbound : ∀ v ∈ List.range n, (ofAdjacency n adjacency).component.getD v 0 <
      (Array.replicate (searchAll n adjacency).members.size ([] : List Nat)).size := by
    intro v hv
    rw [Array.size_replicate]
    exact componentOf_ofAdjacency_lt hadj (List.mem_range.1 hv)
  have hfold := foldl_addSuccessors_spec adjacency (ofAdjacency n adjacency).component
    (List.range n) _ hbound i j
  -- no component has a successor before the first vertex
  have hempty : j ∉ (Array.replicate (searchAll n adjacency).members.size
      ([] : List Nat)).getD i [] := by
    rw [Array.getD_eq_getD_getElem?, Array.getElem?_replicate]
    split <;> simp
  refine hfold.trans ?_
  simp only [hempty, false_or, List.mem_range]
  rfl

/-- **The search finds the strongly connected components.** -/
theorem condenses_ofAdjacency (hadj : ∀ v, ∀ w ∈ adjacency v, w < n) :
    (ofAdjacency n adjacency).Condenses n adjacency := by
  have hs := (Search.searchAll_idle hadj).1.sound
  refine
    { component_size := ?size
      componentOf_lt := fun v hv => componentOf_ofAdjacency_lt hadj hv
      componentOf_eq_iff := ?eqIff
      componentOf_le := ?le
      mem_members := ?members
      members_nodup := hs.members_nodup
      mem_successors := mem_successors_ofAdjacency hadj }
  case size =>
    show ((searchAll n adjacency).component.map (·.getD 0)).size = n
    rw [Array.size_map, hs.component_size]
  case eqIff =>
    intro v hv w hw
    obtain ⟨i, hi⟩ := exists_componentOf hadj hv
    obtain ⟨j, hj⟩ := exists_componentOf hadj hw
    rw [componentOf_ofAdjacency hi, componentOf_ofAdjacency hj]
    constructor
    -- the members of a component reach each other
    · rintro rfl
      exact ⟨hs.connected v w i hi hj, hs.connected w v i hj hi⟩
    · -- neither component is greater than the other
      rintro ⟨hvw, hwv⟩
      obtain ⟨j', hle, hj'⟩ := hs.componentOf_le_of_reaches hi hvw
      obtain ⟨i', hle', hi'⟩ := hs.componentOf_le_of_reaches hj hwv
      obtain rfl : j = j' := Option.some.inj (hj.symm.trans hj')
      obtain rfl : i = i' := Option.some.inj (hi.symm.trans hi')
      omega
  case le =>
    -- components are closed before those that lead to them, hence in ascending order
    intro v hv w hw
    obtain ⟨i, hi⟩ := exists_componentOf hadj hv
    obtain ⟨j, hle, hj⟩ := hs.closed v i hi w hw
    rw [componentOf_ofAdjacency hi, componentOf_ofAdjacency hj]
    exact hle
  case members =>
    intro i v
    show v ∈ (searchAll n adjacency).members.getD i [] ↔ _
    rw [hs.mem_members]
    constructor
    · intro h
      have hmet : (searchAll n adjacency).orderOf v ≠ none :=
        (hs.met_iff v).2 (Or.inr (by simp [h]))
      exact ⟨hs.lt_of_met hmet, hs.lt_of_componentOf h, componentOf_ofAdjacency h⟩
    · rintro ⟨hv, -, h⟩
      obtain ⟨j, hj⟩ := exists_componentOf hadj hv
      rw [hj, ← h, componentOf_ofAdjacency hj]

namespace Condenses

variable {c : Condensation} (hc : c.Condenses n adjacency)
include hc

theorem componentOf_eq_of_reaches {v w : Nat} (hv : v < n) (hw : w < n)
    (h : c.componentOf v = c.componentOf w) : Reaches adjacency v w :=
  ((hc.componentOf_eq_iff v hv w hw).1 h).1

/-- Successors are components. -/
theorem successors_lt (hadj : ∀ v, ∀ w ∈ adjacency v, w < n) {i j : Nat}
    (h : j ∈ c.successors.getD i []) : j < c.members.size := by
  obtain ⟨-, v, -, -, w, hw, rfl⟩ := (hc.mem_successors i j).1 h
  exact hc.componentOf_lt w (hadj v w hw)

/-- **Vertices reach what their components lead to.** -/
theorem reaches_iff_leads (hadj : ∀ v, ∀ w ∈ adjacency v, w < n) {v w : Nat} (hv : v < n)
    (hw : w < n) : Reaches adjacency v w ↔ c.Leads (c.componentOf v) (c.componentOf w) := by
  constructor
  · intro h
    clear hw
    induction h with
    | refl => exact .refl
    | @tail x y hvx hxy ih =>
      by_cases hsame : c.componentOf y = c.componentOf x
      · rw [hsame]
        exact ih
      · have hx : x < n := by
          rcases Relation.ReflTransGen.cases_tail hvx with rfl | ⟨u, -, hu⟩
          · exact hv
          · exact hadj u x hu
        exact ih.tail ((hc.mem_successors _ _).2 ⟨hsame, x, hx, rfl, y, hxy, rfl⟩)
  · intro h
    generalize hk : c.componentOf w = k at h
    -- within a component every vertex reaches the one that the next edge leaves from
    induction h generalizing w with
    | refl => exact hc.componentOf_eq_of_reaches hv hw hk.symm
    | @tail i j _ hij ih =>
      obtain ⟨-, x, hx, hxi, y, hxy, hyj⟩ := (hc.mem_successors i j).1 hij
      have hy : y < n := hadj x y hxy
      exact ((ih hx hxi).tail hxy).trans
        (hc.componentOf_eq_of_reaches hy hw (hyj.trans hk.symm))

end Condenses

end CallFlow.Condensation
