import CallFlow.Proofs.Condensation.Search
import Mathlib.Algebra.Order.BigOperators.Group.Finset
import Mathlib.Algebra.Ring.Nat

/-!
# The run of the depth-first search

Every step of the search keeps its invariant and uses up a part of what is left to do, so the
number of steps allowed is never exhausted before the frames are. After the search from every
vertex, every vertex is in a component.
-/

namespace CallFlow.Condensation

namespace Search

variable {n : Nat} {adjacency : Nat → List Nat} {s : Search}

/-! ## One step -/

/-- Ending a vertex keeps the invariant, whether it closes a component or not. -/
theorem Sound.leave {v : Nat} {below : List Frame} (hs : s.Sound n adjacency noneDue)
    (hf : s.frames = ⟨v, []⟩ :: below) :
    (({ s with frames := below } : Search).leave v).Sound n adjacency noneDue := by
  have hvs : v ∈ s.stack := hs.mem_stack_of_active (f := ⟨v, []⟩) (hf ▸ List.mem_cons_self)
  obtain ⟨t, ht⟩ := Option.ne_none_iff_exists'.1 (hs.met_of_mem hvs)
  have htime : s.time v = t := by simp [time, ht]
  by_cases hroot : s.lowOf v = s.time v
  · obtain ⟨top, rest, hstack⟩ := List.append_of_mem hvs
    have hc : Closing n adjacency s v below top rest := ⟨hs, hf, hroot, hstack⟩
    have hleave : some (s.low.getD v 0) = s.order.getD v none := by
      show some (s.lowOf v) = s.orderOf v
      rw [ht, hroot, htime]
    cases hb : below with
    | nil =>
      simp only [Search.leave]
      rw [if_pos hleave, ← hb]
      exact hc.close hs.low_size fun _ => rfl
    | cons p rest' =>
      have hp : p ∈ below := hb ▸ List.mem_cons_self
      have hps : p.vertex ∈ s.stack :=
        hs.mem_stack_of_active (hf ▸ List.mem_cons_of_mem _ hp)
      have hsize : p.vertex < s.low.size := hs.low_size ▸ hs.lt_of_met (hs.met_of_mem hps)
      simp only [Search.leave]
      split
      case isFalse h => exact absurd hleave h
      rw [← hb]
      have hlowered : (s.lower p.vertex (s.lowOf v)).low.size = n := by
        simpa [Search.lower] using hs.low_size
      refine hc.close hlowered fun x => ?_
      -- the vertex below is older than `v`, so its `low` is less already
      have hlow := lowOf_lower (s := s) hsize (s.lowOf v) x
      have hle := hs.low_le p.vertex hps
      have hlt := hs.time_lt_top hf hp
      simp only at hlt
      show (s.lower p.vertex (s.lowOf v)).lowOf x = s.lowOf x
      rw [hlow]
      split
      · next hx => rw [hx, Nat.min_eq_left (by omega)]
      · rfl
  · have hlt : s.lowOf v < s.time v := lt_of_le_of_ne (hs.low_le v hvs) hroot
    obtain ⟨p, rest, rfl, hsound⟩ := hs.retreat hf hlt
    have hleave : ¬some (s.low.getD v 0) = s.order.getD v none := by
      show ¬some (s.lowOf v) = s.orderOf v
      rw [ht, ← htime]
      simpa using hroot
    simp only [Search.leave]
    split
    · next h => exact absurd h hleave
    · exact hsound

/-- **A step keeps the invariant.** -/
theorem Sound.step (hadj : ∀ v, ∀ w ∈ adjacency v, w < n) (hs : s.Sound n adjacency noneDue) :
    (s.step adjacency).Sound n adjacency noneDue := by
  unfold Search.step
  split
  · exact hs
  -- nothing is left to look at, so the frame is left
  · next v below hf => exact hs.leave hf
  · next v w pending below hf =>
    have hedge : w ∈ adjacency v :=
      hs.pending_subset ⟨v, w :: pending⟩ (hf ▸ List.mem_cons_self) w List.mem_cons_self
    have hlook := hs.look hf
    dsimp only
    split
    -- a new vertex is entered, and the edge that led there is due until it has been
    · next hnew =>
      refine hlook.enter (hadj v w hedge) hnew (fun _ _ hdue => hdue.2) fun f hfm => ?_
      exact (hlook.reaches_top rfl hfm).tail hedge
    · next t hold =>
      have hmet : s.orderOf w ≠ none := by simp [orderOf, hold]
      split
      -- the edge leads back into the stack
      · next hflag =>
        have hw : w ∈ s.stack := (hs.flag_iff w).1 hflag
        have htime : s.time w = t := by simp [time, orderOf, hold]
        exact htime ▸ hlook.lower rfl rfl hedge hw
      -- the edge leads to a component that has been closed
      · next hflag =>
        exact hlook.skip hmet fun hw => hflag ((hs.flag_iff w).2 hw)

theorem leave_order (s : Search) (v : Nat) : (s.leave v).order = s.order := by
  unfold Search.leave
  cases s.frames <;> (simp only; split <;> rfl)

theorem leave_frames (s : Search) (v : Nat) : (s.leave v).frames = s.frames := by
  unfold Search.leave
  cases h : s.frames <;> (simp only; split <;> simp [Search.close, Search.lower, h])

/-- A vertex that was met stays so. -/
theorem met_step (hadj : ∀ v, ∀ w ∈ adjacency v, w < n) (hs : s.Sound n adjacency noneDue) {v : Nat}
    (hv : s.orderOf v ≠ none) : (s.step adjacency).orderOf v ≠ none := by
  unfold Search.step
  split
  · exact hv
  · rw [orderOf, leave_order]
    exact hv
  · next u w pending below hf =>
    have hedge : w ∈ adjacency u :=
      hs.pending_subset ⟨u, w :: pending⟩ (hf ▸ List.mem_cons_self) w List.mem_cons_self
    dsimp only
    split
    -- the vertex that is entered is met too
    · rw [orderOf_enter _ adjacency (hs.order_size.symm ▸ hadj u w hedge)]
      split
      · simp
      · exact hv
    · split <;> exact hv

/-! ## What is left to do -/

/-- The steps that a vertex takes which has not been met. -/
def cost (adjacency : Nat → List Nat) (s : Search) (v : Nat) : Nat :=
  if s.orderOf v = none then 1 + (adjacency v).length else 0

/-- The steps that are left until no frame is and no vertex is unmet. -/
def remaining (n : Nat) (adjacency : Nat → List Nat) (s : Search) : Nat :=
  ∑ v ∈ Finset.range n, s.cost adjacency v + (s.frames.map fun f => 1 + f.pending.length).sum

/-- Meeting a vertex moves its steps from the vertices to the frames. -/
theorem remaining_enter (hsize : s.order.size = n) {w : Nat} (hw : w < n)
    (hnew : s.orderOf w = none) :
    (s.enter adjacency w).remaining n adjacency = s.remaining n adjacency := by
  have hmem : w ∈ Finset.range n := Finset.mem_range.2 hw
  have hcost : ∀ v, (s.enter adjacency w).cost adjacency v
      = if v = w then 0 else s.cost adjacency v := by
    intro v
    rw [cost, orderOf_enter s adjacency (hsize.symm ▸ hw)]
    by_cases hvw : v = w
    · simp [hvw]
    · simp [hvw, cost]
  have hsum : ∑ v ∈ Finset.range n, (s.enter adjacency w).cost adjacency v
      = ∑ v ∈ (Finset.range n).erase w, s.cost adjacency v := by
    rw [← Finset.add_sum_erase _ _ hmem, hcost, if_pos rfl, Nat.zero_add]
    exact Finset.sum_congr rfl fun v hv => by rw [hcost, if_neg (Finset.ne_of_mem_erase hv)]
  -- the new frame has as many steps pending as the vertex had
  have hold : s.cost adjacency w = 1 + (adjacency w).length := by rw [cost, if_pos hnew]
  rw [remaining, remaining, hsum, ← Finset.add_sum_erase _ _ hmem, hold]
  simp only [Search.enter, List.map_cons, List.sum_cons]
  omega

/-- As long as no vertex is met, only the frames count. -/
theorem remaining_of_order_eq (n : Nat) (adjacency : Nat → List Nat) {s s' : Search}
    (h : s'.order = s.order) :
    s'.remaining n adjacency + (s.frames.map fun f => 1 + f.pending.length).sum
      = s.remaining n adjacency + (s'.frames.map fun f => 1 + f.pending.length).sum := by
  have hcost : ∀ v, s'.cost adjacency v = s.cost adjacency v := fun v => by
    rw [cost, cost, orderOf, orderOf, h]
  simp only [remaining, hcost]
  omega

/-- **Every step uses one up.** -/
theorem remaining_step (hadj : ∀ v, ∀ w ∈ adjacency v, w < n) (hs : s.Sound n adjacency noneDue)
    (hne : s.frames ≠ []) :
    (s.step adjacency).remaining n adjacency + 1 = s.remaining n adjacency := by
  unfold Search.step
  split
  · next hf => exact absurd hf hne
  · next v below hf =>
    have h := remaining_of_order_eq n adjacency (s := s)
      (leave_order { s with frames := below } v)
    rw [leave_frames, hf] at h
    simp only [List.map_cons, List.sum_cons, List.length_nil] at h
    omega
  · next v w pending below hf =>
    have hedge : w ∈ adjacency v :=
      hs.pending_subset ⟨v, w :: pending⟩ (hf ▸ List.mem_cons_self) w List.mem_cons_self
    -- looking at the edge uses a step up; meeting its target uses none
    have hlook : ∀ s' : Search, s'.order = s.order → s'.frames = ⟨v, pending⟩ :: below →
        s'.remaining n adjacency + 1 = s.remaining n adjacency := by
      intro s' horder hframes
      have h := remaining_of_order_eq n adjacency horder
      rw [hf, hframes] at h
      simp only [List.map_cons, List.sum_cons, List.length_cons] at h
      omega
    dsimp only
    split
    · next hnew =>
      rw [remaining_enter (s := { s with frames := ⟨v, pending⟩ :: below }) hs.order_size
        (hadj v w hedge) hnew]
      exact hlook _ rfl rfl
    · split
      · exact hlook _ rfl rfl
      · exact hlook _ rfl rfl

/-- The bound counts each vertex once and each edge once. -/
theorem stepBound_eq (n : Nat) (adjacency : Nat → List Nat) :
    stepBound n adjacency = ∑ v ∈ Finset.range n, (1 + (adjacency v).length) := by
  induction n with
  | zero => rfl
  | succ n ih =>
    rw [Finset.sum_range_succ, ← ih]
    simp only [stepBound, List.range_succ, List.flatMap_append, List.length_append,
      List.flatMap_cons, List.flatMap_nil, List.append_nil]
    omega

/-- Without frames there is no more left to do than the bound allows. -/
theorem remaining_le_stepBound (hf : s.frames = []) :
    s.remaining n adjacency ≤ stepBound n adjacency := by
  rw [remaining, hf, stepBound_eq]
  simp only [List.map_nil, List.sum_nil, Nat.add_zero]
  refine Finset.sum_le_sum fun v _ => ?_
  rw [cost]
  split
  · exact le_rfl
  · exact Nat.zero_le _

/-! ## The search from one vertex and from all -/

/-- Between two searches no frame is open. -/
structure Idle (n : Nat) (adjacency : Nat → List Nat) (s : Search) : Prop where
  sound : s.Sound n adjacency noneDue
  frames_eq : s.frames = []

/-- **A run ends.** As many steps as are left suffice. -/
theorem run_idle (hadj : ∀ v, ∀ w ∈ adjacency v, w < n) (fuel : Nat) (s : Search)
    (hs : s.Sound n adjacency noneDue) (hfuel : s.remaining n adjacency ≤ fuel) :
    (run adjacency fuel s).Idle n adjacency ∧
      ∀ v, s.orderOf v ≠ none → (run adjacency fuel s).orderOf v ≠ none := by
  induction fuel generalizing s with
  | zero =>
    refine ⟨⟨hs, ?_⟩, fun _ => id⟩
    show s.frames = []
    cases hf : s.frames with
    | nil => rfl
    | cons f below =>
      -- a frame has something left to do
      rw [remaining, hf, List.map_cons, List.sum_cons] at hfuel
      omega
  | succ fuel ih =>
    rw [run]
    split
    · next hf => exact ⟨⟨hs, hf⟩, fun _ => id⟩
    · next f below hf =>
      have hstep := remaining_step hadj hs (by simp [hf])
      obtain ⟨hidle, hmet⟩ := ih (s.step adjacency) (hs.step hadj) (by omega)
      exact ⟨hidle, fun v hv => hmet v (met_step hadj hs hv)⟩

/-- After the search from a vertex no frame is left, and the vertex has been met. -/
theorem visit_idle (hadj : ∀ v, ∀ w ∈ adjacency v, w < n) (hs : s.Idle n adjacency) {root : Nat}
    (hroot : root < n) :
    (s.visit adjacency (stepBound n adjacency) root).Idle n adjacency ∧
      (s.visit adjacency (stepBound n adjacency) root).orderOf root ≠ none ∧
      ∀ v, s.orderOf v ≠ none →
        (s.visit adjacency (stepBound n adjacency) root).orderOf v ≠ none := by
  have hsize := hs.sound.order_size
  unfold visit
  split
  · next hmet => exact ⟨hs, by simpa [isMet, orderOf, Option.isSome_iff_ne_none] using hmet,
      fun _ => id⟩
  · next hmet =>
    have hnew : s.orderOf root = none := by
      simpa [isMet, orderOf, Option.isSome_iff_ne_none] using hmet
    -- there is no frame yet that would have to reach the root
    have henter := hs.sound.enter hroot hnew (fun _ _ hdue => hdue.elim)
      (by simp [hs.frames_eq])
    obtain ⟨hidle, hkeep⟩ := run_idle hadj (stepBound n adjacency) _ henter
      ((remaining_enter hsize hroot hnew).le.trans (remaining_le_stepBound hs.frames_eq))
    have horder := orderOf_enter s adjacency (hsize.symm ▸ hroot)
    refine ⟨hidle, hkeep root (by simp [horder]), fun v hv => hkeep v ?_⟩
    rw [horder]
    split
    · simp
    · exact hv

/-- The search starts from each vertex in turn. -/
theorem foldl_visit_idle (hadj : ∀ v, ∀ w ∈ adjacency v, w < n) (roots : List Nat)
    (hroots : ∀ v ∈ roots, v < n) (s : Search) (hs : s.Idle n adjacency) :
    (roots.foldl (visit adjacency (stepBound n adjacency)) s).Idle n adjacency ∧
      (∀ v ∈ roots, (roots.foldl (visit adjacency (stepBound n adjacency)) s).orderOf v ≠ none) ∧
      ∀ v, s.orderOf v ≠ none →
        (roots.foldl (visit adjacency (stepBound n adjacency)) s).orderOf v ≠ none := by
  induction roots generalizing s with
  | nil => exact ⟨hs, by simp, fun _ => id⟩
  | cons root roots ih =>
    obtain ⟨hidle, hroot, hkeep⟩ := visit_idle hadj hs (hroots root List.mem_cons_self)
    obtain ⟨hidle', hroots', hkeep'⟩ :=
      ih (fun v hv => hroots v (List.mem_cons_of_mem _ hv)) _ hidle
    refine ⟨hidle', fun v hv => ?_, fun v hv => hkeep' v (hkeep v hv)⟩
    rcases List.mem_cons.1 hv with rfl | hv
    · exact hkeep' v hroot
    · exact hroots' v hv

/-- At the start nothing has been met. -/
theorem start_idle (n : Nat) (adjacency : Nat → List Nat) :
    (start n).Idle n adjacency := by
  have hreplicate : ∀ {α : Type} (a : α) (v : Nat), (Array.replicate n a).getD v a = a := by
    intro α a v
    rw [Array.getD_eq_getD_getElem?, Array.getElem?_replicate]
    split <;> rfl
  have hcomp : ∀ v, (start n).componentOf v = none := fun v => hreplicate none v
  have horder : ∀ v, (start n).orderOf v = none := fun v => hreplicate none v
  have hstack : ∀ v, v ∉ (start n).stack := fun v => List.not_mem_nil
  have hframes : ∀ f, f ∉ (start n).frames := fun f => List.not_mem_nil
  refine ⟨?_, rfl⟩
  exact
    { order_size := Array.size_replicate
      low_size := Array.size_replicate
      onStack_size := Array.size_replicate
      component_size := Array.size_replicate
      flag_iff := fun v => by
        rw [show (start n).flagOf v = false from hreplicate false v]
        simp [hstack]
      met_iff := fun v => by simp [horder, hcomp, hstack]
      open_of_mem := fun v _ => hcomp v
      time_lt := fun v hv => absurd hv (hstack v)
      sorted := .nil
      active_sublist := List.nil_sublist _
      pending_subset := fun f hf => absurd hf (hframes f)
      looked_met := fun v w hv => absurd (horder v) hv
      closed := fun v i hv => by simp [hcomp] at hv
      mem_members := fun i v => by rw [hcomp]; simp [start]
      members_nodup := fun i => by simp [start]
      connected := fun v w i hv => by simp [hcomp] at hv
      low_le := fun v hv => absurd hv (hstack v)
      low_reached := fun v hv => absurd hv (hstack v)
      low_lt := fun v hv => absurd hv (hstack v)
      active_reaches := fun f hf => absurd hf (hframes f)
      low_bound := fun f hf => absurd hf (hframes f)
      covered := fun v hv => absurd hv (hstack v) }

/-- **The search from every vertex** ends with every vertex met and none open. -/
theorem searchAll_idle (hadj : ∀ v, ∀ w ∈ adjacency v, w < n) :
    (searchAll n adjacency).Idle n adjacency ∧
      ∀ v < n, (searchAll n adjacency).orderOf v ≠ none := by
  obtain ⟨hidle, hmet, -⟩ := foldl_visit_idle hadj (List.range n)
    (fun v hv => List.mem_range.1 hv) (start n) (start_idle n adjacency)
  exact ⟨hidle, fun v hv => hmet v (List.mem_range.2 hv)⟩

end Search

end CallFlow.Condensation
