import CallFlow.Flow.Condensation
import Mathlib.Algebra.BigOperators.Group.Finset.Basic
import Mathlib.Logic.Relation

/-!
# The invariant of the depth-first search

`Search.Sound` says what holds between two steps of the search for components: how the flags,
the stack and the frames fit together, that every edge looked at leads to a vertex that was met,
that closed components are connected and lead to closed components of smaller number only, and
what `low` promises for the vertices on the stack.

Only the number of a vertex, its `low`, its flag and its component are looked up, so the arrays
are hidden behind four functions.
-/

namespace CallFlow.Condensation

/-- A vertex is reached by zero or more edges. -/
abbrev Reaches (adjacency : Nat → List Nat) : Nat → Nat → Prop :=
  Relation.ReflTransGen fun v w => w ∈ adjacency v

namespace Search

/-! ## What is looked up -/

/-- When a vertex was met, if it was. -/
def orderOf (s : Search) (v : Nat) : Option Nat := s.order.getD v none

/-- When a vertex was met. -/
def time (s : Search) (v : Nat) : Nat := (s.orderOf v).getD 0

/-- The smallest time that is known to be reached from a vertex on the stack. -/
def lowOf (s : Search) (v : Nat) : Nat := s.low.getD v 0

/-- Whether the search takes a vertex to be on the stack. -/
def flagOf (s : Search) (v : Nat) : Bool := s.onStack.getD v false

/-- The component of a vertex, once it is closed. -/
def componentOf (s : Search) (v : Nat) : Option Nat := s.component.getD v none

/-- The vertices whose search is under way. -/
def active (s : Search) : List Nat := s.frames.map Frame.vertex

/-- An edge has been looked at unless it is pending in a frame. -/
def Looked (adjacency : Nat → List Nat) (s : Search) (v w : Nat) : Prop :=
  w ∈ adjacency v ∧ ∀ f ∈ s.frames, f.vertex = v → w ∉ f.pending

/-- Writing an entry leaves the others. -/
theorem getD_setIfInBounds {α : Type} (xs : Array α) (i j : Nat) (a d : α) (hi : i < xs.size) :
    (xs.setIfInBounds i a).getD j d = if j = i then a else xs.getD j d := by
  simp only [Array.getD_eq_getD_getElem?, Array.getElem?_setIfInBounds]
  by_cases hij : i = j
  · subst hij
    simp [hi]
  · simp [hij, Ne.symm hij]

/-- Writing one value at many places. -/
theorem getD_foldl_setIfInBounds {α : Type} (vertices : List Nat) (xs : Array α) (a d : α) (j : Nat)
    (hlt : ∀ v ∈ vertices, v < xs.size) :
    (vertices.foldl (fun xs v => xs.setIfInBounds v a) xs).getD j d
      = if j ∈ vertices then a else xs.getD j d := by
  induction vertices generalizing xs with
  | nil => simp
  | cons v rest ih =>
    rw [List.foldl_cons, ih _ (fun w hw => by simpa using hlt w (List.mem_cons_of_mem v hw)),
      getD_setIfInBounds _ _ _ _ _ (hlt v List.mem_cons_self)]
    by_cases hj : j ∈ rest
    · simp [hj]
    · simp [hj]

theorem size_foldl_setIfInBounds {α : Type} (vertices : List Nat) (xs : Array α) (a : α) :
    (vertices.foldl (fun xs v => xs.setIfInBounds v a) xs).size = xs.size := by
  induction vertices generalizing xs with
  | nil => rfl
  | cons v rest ih => rw [List.foldl_cons, ih, Array.size_setIfInBounds]

/-! ## The invariant -/

/-- The state between two steps. Of the edges in `due`, which are being looked at, nothing is
said yet. -/
structure Sound (n : Nat) (adjacency : Nat → List Nat) (due : Nat → Nat → Prop) (s : Search) :
    Prop where
  order_size : s.order.size = n
  low_size : s.low.size = n
  onStack_size : s.onStack.size = n
  component_size : s.component.size = n
  flag_iff : ∀ v, s.flagOf v = true ↔ v ∈ s.stack
  met_iff : ∀ v, s.orderOf v ≠ none ↔ v ∈ s.stack ∨ s.componentOf v ≠ none
  open_of_mem : ∀ v ∈ s.stack, s.componentOf v = none
  time_lt : ∀ v ∈ s.stack, s.time v < s.met
  sorted : s.stack.Pairwise fun v w => s.time w < s.time v
  active_sublist : s.active.Sublist s.stack
  pending_subset : ∀ f ∈ s.frames, ∀ w ∈ f.pending, w ∈ adjacency f.vertex
  looked_met : ∀ v w, s.orderOf v ≠ none → s.Looked adjacency v w → ¬due v w →
    s.orderOf w ≠ none
  /-- Closed components lead to closed components that are not greater. -/
  closed : ∀ v i, s.componentOf v = some i → ∀ w ∈ adjacency v,
    ∃ j, j ≤ i ∧ s.componentOf w = some j
  mem_members : ∀ i v, v ∈ s.members.getD i [] ↔ s.componentOf v = some i
  members_nodup : ∀ i, (s.members.getD i []).Nodup
  connected : ∀ v w i, s.componentOf v = some i → s.componentOf w = some i →
    Reaches adjacency v w
  low_le : ∀ v ∈ s.stack, s.lowOf v ≤ s.time v
  low_reached : ∀ v ∈ s.stack, ∃ w ∈ s.stack, s.time w = s.lowOf v ∧ Reaches adjacency v w
  /-- A vertex whose search has ended stays open only if it reaches an older one. -/
  low_lt : ∀ v ∈ s.stack, v ∉ s.active → s.lowOf v < s.time v
  active_reaches : ∀ f ∈ s.frames, ∀ v ∈ s.stack, s.time f.vertex ≤ s.time v →
    Reaches adjacency f.vertex v
  /-- An edge that leads below an active vertex is accounted for by an active vertex above. -/
  low_bound : ∀ f ∈ s.frames, ∀ v ∈ s.stack, s.time f.vertex ≤ s.time v →
    ∀ w ∈ s.stack, s.Looked adjacency v w → ¬due v w →
    ∃ g ∈ s.frames, s.time f.vertex ≤ s.time g.vertex ∧ s.lowOf g.vertex ≤ s.time w
  covered : ∀ v ∈ s.stack, ∃ f ∈ s.frames, s.time f.vertex ≤ s.time v

/-- No edge is being looked at. -/
def noneDue : Nat → Nat → Prop := fun _ _ => False

namespace Sound

variable {n : Nat} {adjacency : Nat → List Nat} {due : Nat → Nat → Prop} {s : Search}

theorem mem_stack_of_active (hs : s.Sound n adjacency due) {f : Frame} (hf : f ∈ s.frames) :
    f.vertex ∈ s.stack :=
  hs.active_sublist.subset (List.mem_map_of_mem hf)

theorem met_of_mem (hs : s.Sound n adjacency due) {v : Nat} (hv : v ∈ s.stack) :
    s.orderOf v ≠ none :=
  (hs.met_iff v).2 (Or.inl hv)

/-- What was met lies within the arrays. -/
theorem lt_of_met (hs : s.Sound n adjacency due) {v : Nat} (hv : s.orderOf v ≠ none) : v < n := by
  by_contra hge
  apply hv
  have hout : s.order[v]? = none := Array.getElem?_eq_none (by rw [hs.order_size]; omega)
  simp [orderOf, hout]

/-- The frame on top is the youngest. -/
theorem time_lt_top (hs : s.Sound n adjacency due) {f : Frame} {below : List Frame}
    (hf : s.frames = f :: below) {g : Frame} (hg : g ∈ below) :
    s.time g.vertex < s.time f.vertex := by
  have hpairs := hs.sorted.sublist hs.active_sublist
  rw [active, hf, List.map_cons, List.pairwise_cons] at hpairs
  exact hpairs.1 g.vertex (List.mem_map_of_mem hg)

/-- The frame on top has the vertex that was met last. -/
theorem time_le_top (hs : s.Sound n adjacency due) {f : Frame} {below : List Frame}
    (hf : s.frames = f :: below) {g : Frame} (hg : g ∈ s.frames) :
    s.time g.vertex ≤ s.time f.vertex := by
  rw [hf] at hg
  rcases List.mem_cons.1 hg with rfl | hg
  · exact le_rfl
  · exact (hs.time_lt_top hf hg).le

/-- Every active vertex reaches the one on top. -/
theorem reaches_top (hs : s.Sound n adjacency due) {f : Frame} {below : List Frame}
    (hf : s.frames = f :: below) {g : Frame} (hg : g ∈ s.frames) :
    Reaches adjacency g.vertex f.vertex :=
  hs.active_reaches g hg f.vertex (hs.mem_stack_of_active (by rw [hf]; exact List.mem_cons_self))
    (hs.time_le_top hf hg)

/-- A vertex that was never met is in no component. -/
theorem componentOf_of_not_met (hs : s.Sound n adjacency due) {v : Nat}
    (hv : s.orderOf v = none) : s.componentOf v = none := by
  by_contra hne
  exact (hs.met_iff v).2 (Or.inr hne) hv

/-- A component that has a vertex has a list of members. -/
theorem lt_of_componentOf (hs : s.Sound n adjacency due) {v i : Nat}
    (hv : s.componentOf v = some i) : i < s.members.size := by
  by_contra hge
  have hmem := (hs.mem_members i v).2 hv
  rw [Array.getD_eq_getD_getElem?, Array.getElem?_eq_none (by omega)] at hmem
  simp at hmem

theorem not_mem_of_not_met (hs : s.Sound n adjacency due) {v : Nat}
    (hv : s.orderOf v = none) : v ∉ s.stack :=
  fun hmem => hs.met_of_mem hmem hv

end Sound

/-! ## Meeting a vertex -/

section Enter

variable {n : Nat} {adjacency : Nat → List Nat} {s : Search} {w : Nat}

theorem orderOf_enter (s : Search) (adjacency : Nat → List Nat) {w : Nat}
    (hw : w < s.order.size) (v : Nat) :
    (s.enter adjacency w).orderOf v = if v = w then some s.met else s.orderOf v :=
  getD_setIfInBounds _ _ _ _ _ hw

theorem time_enter (s : Search) (adjacency : Nat → List Nat) {w : Nat}
    (hw : w < s.order.size) (v : Nat) :
    (s.enter adjacency w).time v = if v = w then s.met else s.time v := by
  rw [time, orderOf_enter s adjacency hw]
  split <;> rfl

/-- No edge of the new vertex has been looked at, so that its `low` is its own time. -/
theorem lowOf_enter (s : Search) (adjacency : Nat → List Nat) {w : Nat}
    (hw : w < s.low.size) (v : Nat) :
    (s.enter adjacency w).lowOf v = if v = w then s.met else s.lowOf v :=
  getD_setIfInBounds _ _ _ _ _ hw

theorem flagOf_enter (s : Search) (adjacency : Nat → List Nat) {w : Nat}
    (hw : w < s.onStack.size) (v : Nat) :
    (s.enter adjacency w).flagOf v = if v = w then true else s.flagOf v :=
  getD_setIfInBounds _ _ _ _ _ hw

/-- A vertex that was just met has all its edges pending. -/
theorem looked_enter {v x : Nat} (h : (s.enter adjacency w).Looked adjacency v x) :
    v ≠ w ∧ s.Looked adjacency v x := by
  refine ⟨?_, h.1, fun f hf => h.2 f (List.mem_cons_of_mem _ hf)⟩
  rintro rfl
  exact h.2 ⟨v, adjacency v⟩ List.mem_cons_self rfl h.1

/-- A vertex that is about to be met. All edges that are due lead to it. -/
structure Meeting (n : Nat) (adjacency : Nat → List Nat) (due : Nat → Nat → Prop) (s : Search)
    (w : Nat) : Prop where
  sound : s.Sound n adjacency due
  lt : w < n
  not_met : s.orderOf w = none
  due_eq : ∀ v x, due v x → x = w
  reached : ∀ f ∈ s.frames, Reaches adjacency f.vertex w

namespace Meeting

variable {due : Nat → Nat → Prop} (hm : Meeting n adjacency due s w)

include hm

theorem ne_of_mem {v : Nat} (hv : v ∈ s.stack) : v ≠ w := by
  rintro rfl
  exact hm.sound.not_mem_of_not_met hm.not_met hv

theorem time_of_mem {v : Nat} (hv : v ∈ s.stack) : (s.enter adjacency w).time v = s.time v := by
  rw [time_enter s adjacency (hm.sound.order_size.symm ▸ hm.lt), if_neg (hm.ne_of_mem hv)]

theorem lowOf_of_mem {v : Nat} (hv : v ∈ s.stack) :
    (s.enter adjacency w).lowOf v = s.lowOf v := by
  rw [lowOf_enter s adjacency (hm.sound.low_size.symm ▸ hm.lt), if_neg (hm.ne_of_mem hv)]

theorem time_self : (s.enter adjacency w).time w = s.met := by
  rw [time_enter s adjacency (hm.sound.order_size.symm ▸ hm.lt), if_pos rfl]

theorem lowOf_self : (s.enter adjacency w).lowOf w = s.met := by
  rw [lowOf_enter s adjacency (hm.sound.low_size.symm ▸ hm.lt), if_pos rfl]

theorem time_of_frame {f : Frame} (hf : f ∈ s.frames) :
    (s.enter adjacency w).time f.vertex = s.time f.vertex :=
  hm.time_of_mem (hm.sound.mem_stack_of_active hf)

/-- Only the new vertex is as young as itself. -/
theorem eq_of_met_le {v : Nat} (hv : v ∈ (s.enter adjacency w).stack)
    (hle : s.met ≤ (s.enter adjacency w).time v) : v = w := by
  rcases List.mem_cons.1 hv with rfl | hv
  · rfl
  · rw [hm.time_of_mem hv] at hle
    have := hm.sound.time_lt v hv
    omega

/-- The frames reach the new vertex too, which is younger than all others. -/
theorem active_reaches : ∀ f ∈ (s.enter adjacency w).frames, ∀ v ∈ (s.enter adjacency w).stack,
    (s.enter adjacency w).time f.vertex ≤ (s.enter adjacency w).time v →
      Reaches adjacency f.vertex v := by
  intro f hf v hv hle
  rcases List.mem_cons.1 hf with rfl | hold
  · rw [hm.time_self] at hle
    rw [hm.eq_of_met_le hv hle]
  · rcases List.mem_cons.1 hv with rfl | hv
    · exact hm.reached f hold
    · rw [hm.time_of_frame hold, hm.time_of_mem hv] at hle
      exact hm.sound.active_reaches f hold v hv hle

/-- The bounds stay as they are: the new vertex only adds edges that lead to it. -/
theorem low_bound : ∀ f ∈ (s.enter adjacency w).frames, ∀ v ∈ (s.enter adjacency w).stack,
    (s.enter adjacency w).time f.vertex ≤ (s.enter adjacency w).time v →
      ∀ x ∈ (s.enter adjacency w).stack, (s.enter adjacency w).Looked adjacency v x →
        ∃ g ∈ (s.enter adjacency w).frames,
          (s.enter adjacency w).time f.vertex ≤ (s.enter adjacency w).time g.vertex ∧
            (s.enter adjacency w).lowOf g.vertex ≤ (s.enter adjacency w).time x := by
  intro f hf v hv hle x hx hl
  obtain ⟨hvw, hl⟩ := looked_enter hl
  -- nothing on the stack is younger than the new frame but its own vertex
  rcases List.mem_cons.1 hf with rfl | hold
  · rw [hm.time_self] at hle
    exact absurd (hm.eq_of_met_le hv hle) hvw
  have hv := (List.mem_cons.1 hv).resolve_left hvw
  rw [hm.time_of_frame hold, hm.time_of_mem hv] at hle
  have hfs := hm.sound.mem_stack_of_active hold
  rcases List.mem_cons.1 hx with rfl | hx
  · -- the edge leads to the new vertex, which is younger than all others
    refine ⟨f, List.mem_cons_of_mem _ hold, le_rfl, ?_⟩
    rw [hm.lowOf_of_mem hfs, hm.time_self]
    exact (hm.sound.low_le _ hfs).trans (hm.sound.time_lt _ hfs).le
  · obtain ⟨g, hg, hfg, hgx⟩ := hm.sound.low_bound f hold v hv hle x hx hl
      fun h => hm.ne_of_mem hx (hm.due_eq v x h)
    refine ⟨g, List.mem_cons_of_mem _ hg, ?_, ?_⟩
    · rwa [hm.time_of_frame hold, hm.time_of_frame hg]
    · rwa [hm.lowOf_of_mem (hm.sound.mem_stack_of_active hg), hm.time_of_mem hx]

end Meeting

/-- Meeting a vertex settles the edges that are due, if all of them lead to it. -/
theorem Sound.enter {due : Nat → Nat → Prop} (hs : s.Sound n adjacency due) (hw : w < n)
    (hnew : s.orderOf w = none) (hdue : ∀ v x, due v x → x = w)
    (hfrom : ∀ f ∈ s.frames, Reaches adjacency f.vertex w) :
    (s.enter adjacency w).Sound n adjacency noneDue := by
  have hm : Meeting n adjacency due s w := ⟨hs, hw, hnew, hdue, hfrom⟩
  have horder := orderOf_enter s adjacency (hs.order_size.symm ▸ hw)
  have hflag := flagOf_enter s adjacency (hs.onStack_size.symm ▸ hw)
  have hmem : ∀ v, v ∈ (s.enter adjacency w).stack ↔ v = w ∨ v ∈ s.stack :=
    fun v => List.mem_cons
  refine
    { order_size := by simpa [Search.enter] using hs.order_size
      low_size := by simpa [Search.enter] using hs.low_size
      onStack_size := by simpa [Search.enter] using hs.onStack_size
      component_size := hs.component_size
      flag_iff := ?flag
      met_iff := ?met
      open_of_mem := ?opened
      time_lt := ?time
      sorted := ?sorted
      active_sublist := hs.active_sublist.cons_cons w
      pending_subset := ?pending
      looked_met := ?looked
      closed := hs.closed
      mem_members := hs.mem_members
      members_nodup := hs.members_nodup
      connected := hs.connected
      low_le := ?lowLe
      low_reached := ?lowReached
      low_lt := ?lowLt
      active_reaches := hm.active_reaches
      low_bound := fun f hf v hv hle x hx hl _ => hm.low_bound f hf v hv hle x hx hl
      covered := ?covered }
  case flag =>
    intro v
    rw [hflag, hmem, ← hs.flag_iff]
    split
    · next h => simp [h]
    · next h => simp [h]
  case met =>
    intro v
    rw [horder, hmem]
    split
    · next h => simp [h]
    · next h => rw [hs.met_iff]; simp [h]; rfl
  case opened =>
    intro v hv
    rcases (hmem v).1 hv with rfl | hv
    · exact hs.componentOf_of_not_met hnew
    · exact hs.open_of_mem v hv
  case time =>
    intro v hv
    show _ < s.met + 1
    rcases (hmem v).1 hv with rfl | hv
    · rw [hm.time_self]
      omega
    · rw [hm.time_of_mem hv]
      have := hs.time_lt v hv
      omega
  case sorted =>
    refine List.pairwise_cons.2 ⟨fun v hv => ?_, ?_⟩
    · rw [hm.time_self, hm.time_of_mem hv]
      exact hs.time_lt v hv
    · refine hs.sorted.imp_of_mem fun {a b} ha hb hlt => ?_
      rw [hm.time_of_mem ha, hm.time_of_mem hb]
      exact hlt
  case pending =>
    intro f hf x hx
    rcases List.mem_cons.1 hf with rfl | hf
    · exact hx
    · exact hs.pending_subset f hf x hx
  case looked =>
    intro v x hv hl _
    obtain ⟨hvw, hl⟩ := looked_enter hl
    rw [horder, if_neg hvw] at hv
    rw [horder]
    split
    · simp
    · next hxw => exact hs.looked_met v x hv hl fun h => hxw (hdue v x h)
  case lowLe =>
    intro v hv
    rcases (hmem v).1 hv with rfl | hv
    · rw [hm.lowOf_self, hm.time_self]
    · rw [hm.lowOf_of_mem hv, hm.time_of_mem hv]
      exact hs.low_le v hv
  case lowReached =>
    intro v hv
    rcases (hmem v).1 hv with rfl | hv
    · exact ⟨v, List.mem_cons_self, by rw [hm.lowOf_self, hm.time_self], .refl⟩
    · obtain ⟨x, hx, hxt, hr⟩ := hs.low_reached v hv
      exact ⟨x, (hmem x).2 (Or.inr hx), by rw [hm.time_of_mem hx, hm.lowOf_of_mem hv, hxt], hr⟩
  -- the new vertex has a frame, and the others keep their values
  case lowLt =>
    intro v hv hact
    have hact : v ≠ w ∧ v ∉ s.active := by simpa [active, Search.enter] using hact
    have hv := ((hmem v).1 hv).resolve_left hact.1
    rw [hm.lowOf_of_mem hv, hm.time_of_mem hv]
    exact hs.low_lt v hv hact.2
  -- the frame of the new vertex covers the vertex itself
  case covered =>
    intro v hv
    rcases (hmem v).1 hv with rfl | hv
    · exact ⟨⟨v, adjacency v⟩, List.mem_cons_self, le_rfl⟩
    · obtain ⟨f, hf, hle⟩ := hs.covered v hv
      exact ⟨f, List.mem_cons_of_mem _ hf, by rwa [hm.time_of_frame hf, hm.time_of_mem hv]⟩

end Enter

/-! ## Looking at an edge -/

section Look

variable {n : Nat} {adjacency : Nat → List Nat} {s : Search} {v w : Nat}

/-- The edge `v → w` and no other. -/
def oneDue (v w : Nat) : Nat → Nat → Prop := fun x y => x = v ∧ y = w

/-- Taking an edge off the frame on top makes that edge due. -/
theorem Sound.look {pending : List Nat} {below : List Frame} (hs : s.Sound n adjacency noneDue)
    (hf : s.frames = ⟨v, w :: pending⟩ :: below) :
    ({ s with frames := ⟨v, pending⟩ :: below } : Search).Sound n adjacency (oneDue v w) := by
  have hactive : ({ s with frames := ⟨v, pending⟩ :: below } : Search).active = s.active := by
    simp [active, hf]
  -- the frames stand for the same vertices as before
  have hold : ∀ f ∈ (⟨v, pending⟩ : Frame) :: below, ∃ g ∈ s.frames, g.vertex = f.vertex := by
    intro f hmem
    rcases List.mem_cons.1 hmem with rfl | hmem
    · exact ⟨⟨v, w :: pending⟩, hf ▸ List.mem_cons_self, rfl⟩
    · exact ⟨f, hf ▸ List.mem_cons_of_mem _ hmem, rfl⟩
  have hnew : ∀ g ∈ s.frames, ∃ f ∈ (⟨v, pending⟩ : Frame) :: below, f.vertex = g.vertex := by
    intro g hmem
    rw [hf] at hmem
    rcases List.mem_cons.1 hmem with rfl | hmem
    · exact ⟨_, List.mem_cons_self, rfl⟩
    · exact ⟨g, List.mem_cons_of_mem _ hmem, rfl⟩
  have hlooked : ∀ x y, ({ s with frames := ⟨v, pending⟩ :: below } : Search).Looked adjacency x y →
      ¬oneDue v w x y → s.Looked adjacency x y := by
    intro x y hl hdue
    refine ⟨hl.1, fun g hg hgx => ?_⟩
    rw [hf] at hg
    rcases List.mem_cons.1 hg with rfl | hg
    · have hne : y ≠ w := fun hyw => hdue ⟨hgx.symm, hyw⟩
      simpa [hne] using hl.2 ⟨v, pending⟩ List.mem_cons_self hgx
    · exact hl.2 g (List.mem_cons_of_mem _ hg) hgx
  refine { hs with
    active_sublist := hactive ▸ hs.active_sublist
    pending_subset := ?pending
    looked_met := fun x y hx hl hdue => hs.looked_met x y hx (hlooked x y hl hdue) id
    low_lt := fun x hx hact => hs.low_lt x hx (hactive ▸ hact)
    active_reaches := ?reaches
    low_bound := ?bound
    covered := ?covered }
  case pending =>
    intro f hmem x hx
    rcases List.mem_cons.1 hmem with rfl | hmem
    · exact hs.pending_subset ⟨v, w :: pending⟩ (hf ▸ List.mem_cons_self) x
        (List.mem_cons_of_mem _ hx)
    · exact hs.pending_subset f (hf ▸ List.mem_cons_of_mem _ hmem) x hx
  case reaches =>
    intro f hmem x hx hle
    obtain ⟨g, hg, hgf⟩ := hold f hmem
    rw [← hgf] at hle ⊢
    exact hs.active_reaches g hg x hx hle
  case bound =>
    intro f hmem x hx hle y hy hl hdue
    obtain ⟨f', hf', hff⟩ := hold f hmem
    rw [← hff] at hle ⊢
    obtain ⟨g, hg, hfg, hgy⟩ := hs.low_bound f' hf' x hx hle y hy (hlooked x y hl hdue) id
    obtain ⟨g', hg', hgg⟩ := hnew g hg
    rw [← hgg] at hfg hgy
    exact ⟨g', hg', hfg, hgy⟩
  case covered =>
    intro x hx
    obtain ⟨g, hg, hle⟩ := hs.covered x hx
    obtain ⟨f, hmem, hfg⟩ := hnew g hg
    exact ⟨f, hmem, hfg ▸ hle⟩

theorem lowOf_lower (hv : v < s.low.size) (bound x : Nat) :
    (s.lower v bound).lowOf x = if x = v then min (s.lowOf v) bound else s.lowOf x :=
  getD_setIfInBounds _ _ _ _ _ hv

theorem lowOf_lower_le (hv : v < s.low.size) (bound x : Nat) :
    (s.lower v bound).lowOf x ≤ s.lowOf x := by
  rw [lowOf_lower hv]
  split
  · next h => subst h; exact Nat.min_le_left _ _
  · exact le_rfl

/-- An edge to an open vertex is settled by lowering its source. -/
theorem Sound.lower {f : Frame} {below : List Frame} (hs : s.Sound n adjacency (oneDue v w))
    (hf : s.frames = f :: below) (hv : f.vertex = v) (hedge : w ∈ adjacency v)
    (hw : w ∈ s.stack) :
    (s.lower v (s.time w)).Sound n adjacency noneDue := by
  have hfmem : f ∈ s.frames := hf ▸ List.mem_cons_self
  have hvs : v ∈ s.stack := hv ▸ hs.mem_stack_of_active hfmem
  have hsize : v < s.low.size := hs.low_size ▸ hs.lt_of_met (hs.met_of_mem hvs)
  have hlow := lowOf_lower (s := s) hsize (s.time w)
  have hle := lowOf_lower_le (s := s) hsize (s.time w)
  refine { hs with
    low_size := by simpa [Search.lower] using hs.low_size
    looked_met := ?looked
    low_le := fun x hx => (hle x).trans (hs.low_le x hx)
    low_reached := ?reached
    low_lt := fun x hx hact => (hle x).trans_lt (hs.low_lt x hx hact)
    low_bound := ?bound }
  -- the edge that was due leads to a vertex on the stack, which has been met
  case looked =>
    intro x y hx hl _
    by_cases hdue : oneDue v w x y
    · rw [hdue.2]
      exact hs.met_of_mem hw
    · exact hs.looked_met x y hx hl hdue
  case reached =>
    intro x hx
    by_cases hxv : x = v
    · subst hxv
      rw [hlow, if_pos rfl]
      rcases Nat.le_total (s.lowOf x) (s.time w) with h | h
      · rw [Nat.min_eq_left h]
        exact hs.low_reached x hx
      -- the time is that of the end of the edge
      · rw [Nat.min_eq_right h]
        exact ⟨w, hw, rfl, .single hedge⟩
    · rw [hlow, if_neg hxv]
      exact hs.low_reached x hx
  case bound =>
    intro g hg x hx hgx y hy hl _
    by_cases hdue : oneDue v w x y
    -- the frame on top has just been lowered to the end of the edge
    · obtain ⟨rfl, rfl⟩ := hdue
      refine ⟨f, hfmem, hs.time_le_top hf hg, ?_⟩
      rw [hv, hlow, if_pos rfl]
      exact Nat.min_le_right _ _
    · obtain ⟨q, hq, hgq, hqy⟩ := hs.low_bound g hg x hx hgx y hy hl hdue
      exact ⟨q, hq, hgq, (hle _).trans hqy⟩

/-- An edge to a closed vertex needs nothing. -/
theorem Sound.skip (hs : s.Sound n adjacency (oneDue v w)) (hmet : s.orderOf w ≠ none)
    (hw : w ∉ s.stack) : s.Sound n adjacency noneDue := by
  refine { hs with
    looked_met := ?looked
    low_bound := ?bound }
  case looked =>
    intro x y hx hl _
    by_cases hdue : oneDue v w x y
    · rw [hdue.2]
      exact hmet
    · exact hs.looked_met x y hx hl hdue
  case bound =>
    intro g hg x hx hgx y hy hl _
    by_cases hdue : oneDue v w x y
    -- the bound speaks of edges within the stack, and this one leaves it
    · exact absurd (hdue.2 ▸ hy) hw
    · exact hs.low_bound g hg x hx hgx y hy hl hdue

end Look

/-! ## Ending the search of a vertex -/

section Leave

variable {n : Nat} {adjacency : Nat → List Nat} {s : Search} {v : Nat} {below : List Frame}

/-- Once nothing is pending in the frame on top, the frame hides no edge. -/
theorem looked_pop (hf : s.frames = ⟨v, []⟩ :: below) (low : Array Nat) {x y : Nat}
    (hl : ({ s with frames := below, low := low } : Search).Looked adjacency x y) :
    s.Looked adjacency x y := by
  refine ⟨hl.1, fun g hg hgx => ?_⟩
  rw [hf] at hg
  rcases List.mem_cons.1 hg with rfl | hg
  · simp
  · exact hl.2 g hg hgx

/-- A vertex that reaches an older open one stays open. Its `low` counts for the vertex below. -/
theorem Sound.retreat (hs : s.Sound n adjacency noneDue) (hf : s.frames = ⟨v, []⟩ :: below)
    (hlt : s.lowOf v < s.time v) :
    ∃ p rest, below = p :: rest ∧
      (({ s with frames := below } : Search).lower p.vertex (s.lowOf v)).Sound n adjacency
        noneDue := by
  have htop : (⟨v, []⟩ : Frame) ∈ s.frames := hf ▸ List.mem_cons_self
  have hvs : v ∈ s.stack := hs.mem_stack_of_active htop
  have hin : ∀ f ∈ below, f ∈ s.frames := fun f h => hf ▸ List.mem_cons_of_mem _ h
  have hcase : ∀ f ∈ s.frames, f = ⟨v, []⟩ ∨ f ∈ below := fun f h => List.mem_cons.1 (hf ▸ h)
  obtain ⟨p, rest, hbelow⟩ : ∃ p rest, below = p :: rest := by
    obtain ⟨y, hy, hyt, -⟩ := hs.low_reached v hvs
    obtain ⟨f, hfm, hle⟩ := hs.covered y hy
    rcases hcase f hfm with rfl | hfb
    · simp only at hle
      omega
    · exact List.exists_cons_of_ne_nil (List.ne_nil_of_mem hfb)
  have hp : p ∈ below := hbelow ▸ List.mem_cons_self
  have hpv : s.time p.vertex < s.time v := hs.time_lt_top hf hp
  have hps : p.vertex ∈ s.stack := hs.mem_stack_of_active (hin p hp)
  -- `p` is the youngest below the top
  have hyoung : ∀ f ∈ below, s.time f.vertex ≤ s.time p.vertex := by
    have hpairs := hs.sorted.sublist hs.active_sublist
    rw [active, hf, List.map_cons, hbelow, List.map_cons] at hpairs
    intro f hfb
    rcases List.mem_cons.1 (hbelow ▸ hfb) with rfl | hfr
    · exact le_rfl
    · exact ((List.pairwise_cons.1 (List.pairwise_cons.1 hpairs).2).1 _
        (List.mem_map_of_mem hfr)).le
  have hsize : p.vertex < ({ s with frames := below } : Search).low.size :=
    hs.low_size ▸ hs.lt_of_met (hs.met_of_mem hps)
  have hlow : ∀ x, (({ s with frames := below } : Search).lower p.vertex (s.lowOf v)).lowOf x
      = if x = p.vertex then min (s.lowOf p.vertex) (s.lowOf v) else s.lowOf x :=
    lowOf_lower hsize (s.lowOf v)
  have hle : ∀ x, (({ s with frames := below } : Search).lower p.vertex (s.lowOf v)).lowOf x
      ≤ s.lowOf x := lowOf_lower_le hsize (s.lowOf v)
  refine ⟨p, rest, hbelow, { hs with
    low_size := by simpa [Search.lower] using hs.low_size
    active_sublist := ?active
    pending_subset := fun f hfm => hs.pending_subset f (hin f hfm)
    looked_met := fun x y hx hl hdue => hs.looked_met x y hx (looked_pop hf _ hl) hdue
    low_le := fun x hx => (hle x).trans (hs.low_le x hx)
    low_reached := ?reached
    low_lt := ?lowLt
    active_reaches := fun f hfm => hs.active_reaches f (hin f hfm)
    low_bound := ?bound
    covered := ?covered }⟩
  case active =>
    have hsub : (below.map Frame.vertex).Sublist s.active := by
      rw [active, hf]
      exact List.sublist_cons_self _ _
    exact hsub.trans hs.active_sublist
  case reached =>
    intro x hx
    by_cases hxp : x = p.vertex
    · subst hxp
      rw [hlow, if_pos rfl]
      rcases Nat.le_total (s.lowOf p.vertex) (s.lowOf v) with h | h
      · rw [Nat.min_eq_left h]
        exact hs.low_reached _ hx
      · rw [Nat.min_eq_right h]
        obtain ⟨y, hy, hyt, hr⟩ := hs.low_reached v hvs
        exact ⟨y, hy, hyt, (hs.reaches_top hf (hin p hp)).trans hr⟩
    · rw [hlow, if_neg hxp]
      exact hs.low_reached x hx
  case lowLt =>
    intro x hx hact
    refine (hle x).trans_lt ?_
    by_cases hxv : x = v
    · exact hxv ▸ hlt
    · refine hs.low_lt x hx ?_
      rw [active, hf, List.map_cons, List.mem_cons, not_or]
      exact ⟨hxv, hact⟩
  case bound =>
    intro f hfm x hx hfx y hy hl hdue
    obtain ⟨g, hg, hfg, hgy⟩ := hs.low_bound f (hin f hfm) x hx hfx y hy (looked_pop hf _ hl) hdue
    rcases hcase g hg with rfl | hgb
    · -- what the top accounted for, the vertex below accounts for now
      refine ⟨p, hp, hyoung f hfm, ?_⟩
      rw [hlow, if_pos rfl]
      exact (Nat.min_le_right _ _).trans hgy
    · exact ⟨g, hgb, hfg, (hle _).trans hgy⟩
  case covered =>
    intro x hx
    obtain ⟨f, hfm, hfx⟩ := hs.covered x hx
    rcases hcase f hfm with rfl | hfb
    · exact ⟨p, hp, hpv.le.trans hfx⟩
    · exact ⟨f, hfb, hfx⟩

/-! ### Closing a component -/

/-- The stack is cut behind the vertex. -/
theorem splitStack_append {top rest : List Nat} (hv : v ∉ top) :
    splitStack v (top ++ v :: rest) = (top ++ [v], rest) := by
  induction top with
  | nil => simp [splitStack]
  | cons w top ih =>
    rw [List.mem_cons, not_or] at hv
    simp [splitStack, Ne.symm hv.1, ih hv.2]

/-- The frames below the vertex are on the stack below it. -/
theorem sublist_of_cons_sublist_append {l top rest : List Nat} (hv : v ∉ top)
    (h : (v :: l).Sublist (top ++ v :: rest)) : l.Sublist rest := by
  induction top with
  | nil => exact List.cons_sublist_cons.1 h
  | cons w top ih =>
    rw [List.mem_cons, not_or] at hv
    refine ih hv.2 ?_
    rw [List.cons_append] at h
    cases h with
    | cons _ h => exact h
    | cons_cons _ h => exact absurd rfl hv.1

/-- The part of the stack down to a vertex whose search has ended without reaching below it. -/
structure Closing (n : Nat) (adjacency : Nat → List Nat) (s : Search) (v : Nat)
    (below : List Frame) (top rest : List Nat) : Prop where
  sound : s.Sound n adjacency noneDue
  frames_eq : s.frames = ⟨v, []⟩ :: below
  root : s.lowOf v = s.time v
  stack_eq : s.stack = top ++ v :: rest

namespace Closing

variable {top rest : List Nat} (hc : Closing n adjacency s v below top rest)

include hc

theorem mem_stack_iff (x : Nat) : x ∈ s.stack ↔ x ∈ top ++ [v] ∨ x ∈ rest := by
  rw [hc.stack_eq]
  simp [or_assoc]

theorem not_mem_top : v ∉ top := by
  have hpairs := hc.stack_eq ▸ hc.sound.sorted
  intro hv
  have := (List.pairwise_append.1 hpairs).2.2 v hv v List.mem_cons_self
  omega

/-- What is closed was met no earlier than `v`; what stays open was met before. -/
theorem time_of_mem {x : Nat} (hx : x ∈ top ++ [v]) : s.time v ≤ s.time x := by
  have hpairs := hc.stack_eq ▸ hc.sound.sorted
  rcases List.mem_append.1 hx with hx | hx
  · exact ((List.pairwise_append.1 hpairs).2.2 x hx v List.mem_cons_self).le
  · rw [List.mem_singleton.1 hx]

theorem time_of_mem_rest {x : Nat} (hx : x ∈ rest) : s.time x < s.time v := by
  have hpairs := hc.stack_eq ▸ hc.sound.sorted
  exact (List.pairwise_cons.1 (List.pairwise_append.1 hpairs).2.1).1 x hx

theorem mem_of_time_le {x : Nat} (hx : x ∈ s.stack) (hle : s.time v ≤ s.time x) :
    x ∈ top ++ [v] := by
  rcases (hc.mem_stack_iff x).1 hx with h | h
  · exact h
  · have := hc.time_of_mem_rest h
    omega

/-- The edges out of the closing part stay in it or lead to closed components. -/
theorem edge {x y : Nat} (hx : x ∈ top ++ [v]) (hxy : y ∈ adjacency x) :
    y ∈ top ++ [v] ∨ s.componentOf y ≠ none := by
  have hs := hc.sound
  have htop : (⟨v, []⟩ : Frame) ∈ s.frames := hc.frames_eq ▸ List.mem_cons_self
  have hxs : x ∈ s.stack := (hc.mem_stack_iff x).2 (Or.inl hx)
  -- of the active vertices only `v` is that young, and nothing is pending in its frame
  have hframe : ∀ f ∈ s.frames, s.time v ≤ s.time f.vertex → f = ⟨v, []⟩ := by
    intro f hf hle
    rcases List.mem_cons.1 (hc.frames_eq ▸ hf) with h | h
    · exact h
    · have := hs.time_lt_top hc.frames_eq h
      simp only at this
      omega
  have hlooked : s.Looked adjacency x y := by
    refine ⟨hxy, fun f hf hfx => ?_⟩
    rw [hframe f hf (hfx ▸ hc.time_of_mem hx)]
    simp
  have hmet := hs.looked_met x y (hs.met_of_mem hxs) hlooked id
  rcases (hs.met_iff y).1 hmet with hy | hy
  · obtain ⟨g, hg, hvg, hgy⟩ :=
      hs.low_bound _ htop x hxs (hc.time_of_mem hx) y hy hlooked id
    rw [hframe g hg hvg] at hgy
    exact Or.inl (hc.mem_of_time_le hy (hc.root ▸ hgy))
  · exact Or.inr hy

/-- From the part that is closed a way stays there or leads into a component. -/
theorem reached {x y : Nat} (hx : x ∈ top ++ [v]) (hxy : Reaches adjacency x y) :
    y ∈ top ++ [v] ∨ s.componentOf y ≠ none := by
  induction hxy with
  | refl => exact Or.inl hx
  | tail _ hedge ih =>
    rcases ih with h | h
    · exact hc.edge h hedge
    · obtain ⟨i, hi⟩ := Option.ne_none_iff_exists'.1 h
      obtain ⟨j, -, hj⟩ := hc.sound.closed _ i hi _ hedge
      exact Or.inr (by simp [hj])

/-- The root reaches all of the part, for they were met while its frame was there. -/
theorem reaches_of_mem {x : Nat} (hx : x ∈ top ++ [v]) : Reaches adjacency v x :=
  hc.sound.active_reaches ⟨v, []⟩ (hc.frames_eq ▸ List.mem_cons_self) x
    ((hc.mem_stack_iff x).2 (Or.inl hx)) (hc.time_of_mem hx)

/-- Every closing vertex leads back to `v`: by its `low` it reaches an older one first. -/
theorem reaches_root {x : Nat} (hx : x ∈ top ++ [v]) : Reaches adjacency x v := by
  have hs := hc.sound
  generalize htime : s.time x = t
  -- by induction on the time: `low` leads to an older vertex until the root is reached
  induction t using Nat.strong_induction_on generalizing x with
  | _ t ih =>
    have hxs : x ∈ s.stack := (hc.mem_stack_iff x).2 (Or.inl hx)
    by_cases hxv : x = v
    · rw [hxv]
    -- no frame but that of the root is young enough
    have hidle : x ∉ s.active := by
      rw [active, hc.frames_eq, List.map_cons, List.mem_cons, not_or]
      refine ⟨hxv, fun hmem => ?_⟩
      obtain ⟨f, hf, rfl⟩ := List.mem_map.1 hmem
      have := hs.time_lt_top hc.frames_eq hf
      have := hc.time_of_mem hx
      simp only at *
      omega
    obtain ⟨y, hy, hyt, hr⟩ := hs.low_reached x hxs
    have hlt := hs.low_lt x hxs hidle
    rcases hc.reached hx hr with hym | hym
    · exact hr.trans (ih (s.time y) (by omega) hym rfl)
    -- the way stays on the stack
    · exact absurd (hs.open_of_mem y hy) hym

theorem lt_of_mem {x : Nat} (hx : x ∈ top ++ [v]) : x < n :=
  hc.sound.lt_of_met (hc.sound.met_of_mem ((hc.mem_stack_iff x).2 (Or.inl hx)))

theorem open_of_mem {x : Nat} (hx : x ∈ top ++ [v]) : s.componentOf x = none :=
  hc.sound.open_of_mem x ((hc.mem_stack_iff x).2 (Or.inl hx))

theorem not_mem_of_mem_rest {x : Nat} (hx : x ∈ rest) : x ∉ top ++ [v] := by
  intro hmem
  have := hc.time_of_mem_rest hx
  have := hc.time_of_mem hmem
  omega

/-! What closing changes, whatever array of `low` it is given. -/

variable (low : Array Nat)

theorem splitStack_stack : splitStack v s.stack = (top ++ [v], rest) := by
  rw [hc.stack_eq, splitStack_append hc.not_mem_top]

theorem stack_close : (({ s with frames := below, low := low } : Search).close v).stack = rest := by
  simp [Search.close, hc.splitStack_stack]

theorem members_close : (({ s with frames := below, low := low } : Search).close v).members
    = s.members.push (top ++ [v]) := by
  simp [Search.close, hc.splitStack_stack]

theorem componentOf_close (x : Nat) :
    (({ s with frames := below, low := low } : Search).close v).componentOf x
      = if x ∈ top ++ [v] then some s.members.size else s.componentOf x := by
  simp only [Search.close, hc.splitStack_stack, componentOf]
  exact getD_foldl_setIfInBounds _ _ _ _ _
    fun y hy => hc.sound.component_size.symm ▸ hc.lt_of_mem hy

theorem flagOf_close (x : Nat) :
    (({ s with frames := below, low := low } : Search).close v).flagOf x
      = if x ∈ top ++ [v] then false else s.flagOf x := by
  simp only [Search.close, hc.splitStack_stack, flagOf]
  exact getD_foldl_setIfInBounds _ _ _ _ _
    fun y hy => hc.sound.onStack_size.symm ▸ hc.lt_of_mem hy

/-- The new component leads to itself and to older ones. -/
theorem closed_close {x i : Nat}
    (hx : (({ s with frames := below, low := low } : Search).close v).componentOf x = some i)
    {y : Nat} (hxy : y ∈ adjacency x) :
    ∃ j, j ≤ i ∧
      (({ s with frames := below, low := low } : Search).close v).componentOf y = some j := by
  rw [hc.componentOf_close] at hx ⊢
  by_cases hxm : x ∈ top ++ [v]
  -- an edge out of the new component stays there or leads to one that was closed before
  · rw [if_pos hxm] at hx
    obtain rfl := Option.some.inj hx
    by_cases hym : y ∈ top ++ [v]
    · exact ⟨_, le_rfl, if_pos hym⟩
    · obtain ⟨j, hj⟩ := Option.ne_none_iff_exists'.1 ((hc.edge hxm hxy).resolve_left hym)
      exact ⟨j, (hc.sound.lt_of_componentOf hj).le, by rw [if_neg hym, hj]⟩
  -- older components do not lead into the new one
  · rw [if_neg hxm] at hx
    obtain ⟨j, hji, hj⟩ := hc.sound.closed x i hx y hxy
    have hym : y ∉ top ++ [v] := fun hmem => by simp [hc.open_of_mem hmem] at hj
    exact ⟨j, hji, by rw [if_neg hym, hj]⟩

/-- The new component is connected through its root. -/
theorem connected_close {x y i : Nat}
    (hx : (({ s with frames := below, low := low } : Search).close v).componentOf x = some i)
    (hy : (({ s with frames := below, low := low } : Search).close v).componentOf y = some i) :
    Reaches adjacency x y := by
  rw [hc.componentOf_close] at hx hy
  -- no old component has the new number
  have hfresh : ∀ z, s.componentOf z ≠ some s.members.size :=
    fun z hz => Nat.lt_irrefl _ (hc.sound.lt_of_componentOf hz)
  by_cases hxm : x ∈ top ++ [v]
  · by_cases hym : y ∈ top ++ [v]
    · exact (hc.reaches_root hxm).trans (hc.reaches_of_mem hym)
    · rw [if_pos hxm] at hx
      rw [if_neg hym, ← hx] at hy
      exact absurd hy (hfresh y)
  · rw [if_neg hxm] at hx
    by_cases hym : y ∈ top ++ [v]
    · rw [if_pos hym] at hy
      rw [← hy] at hx
      exact absurd hx (hfresh x)
    · rw [if_neg hym] at hy
      exact hc.sound.connected x y i hx hy

/-- The lists of members say what the components say. -/
theorem mem_members_close (i x : Nat) :
    x ∈ (({ s with frames := below, low := low } : Search).close v).members.getD i [] ↔
      (({ s with frames := below, low := low } : Search).close v).componentOf x = some i := by
  rw [hc.members_close, hc.componentOf_close, Array.getD_eq_getD_getElem?, Array.getElem?_push]
  -- the new component has the next number
  by_cases hi : i = s.members.size
  · subst hi
    have hfresh : s.componentOf x ≠ some s.members.size :=
      fun hx => Nat.lt_irrefl _ (hc.sound.lt_of_componentOf hx)
    by_cases hx : x ∈ top ++ [v]
    · simp [hx]
    · simpa [hx] using hfresh
  · rw [if_neg hi, ← Array.getD_eq_getD_getElem?, hc.sound.mem_members]
    by_cases hx : x ∈ top ++ [v]
    · rw [if_pos hx, hc.open_of_mem hx]
      simp [Ne.symm hi]
    · rw [if_neg hx]

/-- No component has a member twice. -/
theorem members_nodup_close (i : Nat) :
    ((({ s with frames := below, low := low } : Search).close v).members.getD i []).Nodup := by
  rw [hc.members_close, Array.getD_eq_getD_getElem?, Array.getElem?_push]
  split
  · have hpairs : s.stack.Nodup := hc.sound.sorted.imp fun hlt heq => by rw [heq] at hlt; omega
    rw [hc.stack_eq] at hpairs
    refine hpairs.sublist ?_
    exact List.Sublist.append_left (by simp) top
  · rw [← Array.getD_eq_getD_getElem?]
    exact hc.sound.members_nodup i

variable {low}

/-- Closing the part makes it a component of its own and leaves the rest of the stack open. -/
theorem close (hsize : low.size = n) (hlow : ∀ x, low.getD x 0 = s.lowOf x) :
    (({ s with frames := below, low := low } : Search).close v).Sound n adjacency noneDue := by
  have hs := hc.sound
  have hstack := hc.stack_close low
  have hrest : ∀ x ∈ rest, x ∈ s.stack := fun x hx => (hc.mem_stack_iff x).2 (Or.inr hx)
  have hin : ∀ f ∈ below, f ∈ s.frames := fun f h => hc.frames_eq ▸ List.mem_cons_of_mem _ h
  have hcase : ∀ f ∈ s.frames, f = ⟨v, []⟩ ∨ f ∈ below :=
    fun f h => List.mem_cons.1 (hc.frames_eq ▸ h)
  have hlooked : ∀ x y, (({ s with frames := below, low := low } : Search).close v).Looked
      adjacency x y → s.Looked adjacency x y :=
    fun x y hl => looked_pop hc.frames_eq low hl
  refine
    { order_size := hs.order_size
      low_size := hsize
      onStack_size := ?flagSize
      component_size := ?compSize
      flag_iff := ?flag
      met_iff := ?met
      open_of_mem := ?opened
      time_lt := fun x hx => hs.time_lt x (hrest x (hstack ▸ hx))
      sorted := ?sorted
      active_sublist := ?active
      pending_subset := fun f hf => hs.pending_subset f (hin f hf)
      looked_met := fun x y hx hl hdue => hs.looked_met x y hx (hlooked x y hl) hdue
      closed := fun x i hx y hxy => hc.closed_close low hx hxy
      mem_members := hc.mem_members_close low
      members_nodup := hc.members_nodup_close low
      connected := fun x y i hx hy => hc.connected_close low hx hy
      low_le := fun x hx => (hlow x).le.trans (hs.low_le x (hrest x (hstack ▸ hx)))
      low_reached := ?lowReached
      low_lt := ?lowLt
      active_reaches := fun f hf x hx => hs.active_reaches f (hin f hf) x (hrest x (hstack ▸ hx))
      low_bound := ?bound
      covered := ?covered }
  case flagSize =>
    simp only [Search.close, size_foldl_setIfInBounds]
    exact hs.onStack_size
  case compSize =>
    simp only [Search.close, size_foldl_setIfInBounds]
    exact hs.component_size
  case flag =>
    intro x
    rw [hc.flagOf_close, hstack]
    split
    · next h => simpa using fun hx => hc.not_mem_of_mem_rest hx h
    · next h => rw [hs.flag_iff, hc.mem_stack_iff]; simp [h]
  case met =>
    intro x
    rw [hc.componentOf_close, hstack]
    show s.orderOf x ≠ none ↔ _
    rw [hs.met_iff, hc.mem_stack_iff]
    split
    · next h => simp [h]
    · next h => simp [h]
  case opened =>
    intro x hx
    rw [hstack] at hx
    rw [hc.componentOf_close, if_neg (hc.not_mem_of_mem_rest hx)]
    exact hs.open_of_mem x (hrest x hx)
  case sorted =>
    rw [hstack]
    have hpairs := hc.stack_eq ▸ hs.sorted
    exact (List.pairwise_cons.1 (List.pairwise_append.1 hpairs).2.1).2
  case active =>
    rw [hstack]
    refine sublist_of_cons_sublist_append hc.not_mem_top ?_
    have hsub := hs.active_sublist
    rw [active, hc.frames_eq, hc.stack_eq] at hsub
    exact hsub
  case lowReached =>
    intro x hx
    rw [hstack] at hx ⊢
    obtain ⟨y, hy, hyt, hr⟩ := hs.low_reached x (hrest x hx)
    -- `y` is no younger than `x`, so it is not closed either
    have hyr : y ∈ rest := by
      refine ((hc.mem_stack_iff y).1 hy).resolve_left fun hmem => ?_
      have := hc.time_of_mem hmem
      have := hc.time_of_mem_rest hx
      have := hs.low_le x (hrest x hx)
      omega
    exact ⟨y, hyr, hyt.trans (hlow x).symm, hr⟩
  case lowLt =>
    intro x hx hact
    rw [hstack] at hx
    refine (hlow x).le.trans_lt (hs.low_lt x (hrest x hx) ?_)
    rw [active, hc.frames_eq, List.map_cons, List.mem_cons, not_or]
    refine ⟨fun hxv => ?_, hact⟩
    have := hc.time_of_mem_rest hx
    rw [hxv] at this
    exact Nat.lt_irrefl _ this
  case bound =>
    intro f hf x hx hfx y hy hl hdue
    rw [hstack] at hx hy
    obtain ⟨g, hg, hfg, hgy⟩ :=
      hs.low_bound f (hin f hf) x (hrest x hx) hfx y (hrest y hy) (hlooked x y hl) hdue
    rcases hcase g hg with rfl | hgb
    · -- `v` reaches no older vertex, so it accounts for no edge that ends in the rest
      have := hc.time_of_mem_rest hy
      have := hc.root
      simp only at hgy
      omega
    · exact ⟨g, hgb, hfg, (hlow _).le.trans hgy⟩
  case covered =>
    intro x hx
    rw [hstack] at hx
    obtain ⟨f, hf, hfx⟩ := hs.covered x (hrest x hx)
    rcases hcase f hf with rfl | hfb
    · have := hc.time_of_mem_rest hx
      simp only at hfx
      omega
    · exact ⟨f, hfb, hfx⟩

end Closing

end Leave

end Search

end CallFlow.Condensation
