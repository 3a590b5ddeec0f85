import CallFlow.Flow.Reachability
import CallFlow.Proofs.Condensation.Components

/-!
# The search among components

A snapshot keeps the answers that it has given. `Sound` says that each of them is right, and
under it the search for the components that one component leads to finds exactly these, whatever
mixture of successors and kept answers it goes through.
-/

namespace CallFlow.Reachability

open Condensation (Condenses Reaches)
open Condensation.Search (getD_setIfInBounds)

/-- Whether a component has been seen. -/
def Seen (seen : Array Bool) (k : Nat) : Prop := seen.getD k false = true

instance (seen : Array Bool) (k : Nat) : Decidable (Seen seen k) :=
  inferInstanceAs (Decidable (seen.getD k false = true))

theorem seen_setIfInBounds (seen : Array Bool) {k : Nat} (hk : k < seen.size) (j : Nat) :
    Seen (seen.setIfInBounds k true) j ↔ j = k ∨ Seen seen j := by
  rw [Seen, getD_setIfInBounds _ _ _ _ _ hk]
  split
  · next h => simp [h]
  · next h => simp [h, Seen]

/-- Marking many components. -/
theorem seen_foldl (closed : List Nat) (seen : Array Bool)
    (hlt : ∀ k ∈ closed, k < seen.size) (j : Nat) :
    Seen (closed.foldl (·.setIfInBounds · true) seen) j ↔ j ∈ closed ∨ Seen seen j := by
  rw [Seen, Condensation.Search.getD_foldl_setIfInBounds closed seen true false j hlt]
  split
  · next h => simp [h]
  · next h => simp [h, Seen]

/-- The components that have not been seen yet. -/
def unseen (seen : Array Bool) : Finset Nat :=
  (Finset.range seen.size).filter fun k => seen.getD k false = false

theorem mem_unseen {seen : Array Bool} {k : Nat} :
    k ∈ unseen seen ↔ k < seen.size ∧ ¬Seen seen k := by
  rw [unseen, Finset.mem_filter, Finset.mem_range, Seen, Bool.not_eq_true]

/-- Marking leaves fewer of them. -/
theorem unseen_foldl_subset (closed : List Nat) (seen : Array Bool)
    (hlt : ∀ k ∈ closed, k < seen.size) :
    unseen (closed.foldl (·.setIfInBounds · true) seen) ⊆ unseen seen := by
  intro j hj
  rw [mem_unseen, seen_foldl closed seen hlt, Condensation.Search.size_foldl_setIfInBounds,
    not_or] at hj
  exact mem_unseen.2 ⟨hj.1, hj.2.2⟩

/-! ## Seeing the successors of a component -/

/-- A component is put on the work list when it is seen for the first time. -/
theorem see_eq (seen : Array Bool) (work : List Nat) {k : Nat} (hk : k < seen.size) :
    see (seen, work) k =
      if Seen seen k then (seen, work) else (seen.setIfInBounds k true, k :: work) := by
  have hdefault : seen.getD k true = seen.getD k false := by
    simp [Array.getD_eq_getD_getElem?, hk]
  rw [see, hdefault]
  rfl

/-- Marking a new component takes one away. -/
theorem card_unseen_setIfInBounds {seen : Array Bool} {k : Nat} (hk : k < seen.size)
    (hnew : ¬Seen seen k) :
    (unseen (seen.setIfInBounds k true)).card + 1 = (unseen seen).card := by
  have herase : unseen (seen.setIfInBounds k true) = (unseen seen).erase k := by
    ext j
    rw [Finset.mem_erase, mem_unseen, mem_unseen, seen_setIfInBounds seen hk,
      Array.size_setIfInBounds, not_or]
    tauto
  rw [herase]
  exact Finset.card_erase_add_one (mem_unseen.2 ⟨hk, hnew⟩)

/-- Seeing some components adds those that are new to the work, and each costs the number of
unseen components one. -/
theorem foldl_see (targets : List Nat) (seen : Array Bool) (work : List Nat)
    (hlt : ∀ k ∈ targets, k < seen.size) :
    let result := targets.foldl see (seen, work)
    result.1.size = seen.size ∧
      (∀ j, Seen result.1 j ↔ j ∈ targets ∨ Seen seen j) ∧
      (∀ j, j ∈ result.2 ↔ j ∈ work ∨ j ∈ targets ∧ ¬Seen seen j) ∧
      (unseen result.1).card + result.2.length = (unseen seen).card + work.length := by
  induction targets generalizing seen work with
  | nil => simp
  | cons k rest ih =>
    have hk : k < seen.size := hlt k List.mem_cons_self
    have hrest : ∀ j ∈ rest, j < seen.size := fun j hj => hlt j (List.mem_cons_of_mem _ hj)
    dsimp only
    rw [List.foldl_cons, see_eq seen work hk]
    -- a target that has been seen changes nothing
    by_cases hseen : Seen seen k
    · rw [if_pos hseen]
      obtain ⟨hsize, hiff, hwork, hcard⟩ := ih seen work hrest
      refine ⟨hsize, fun j => ?_, fun j => ?_, hcard⟩
      · rw [hiff, List.mem_cons, or_assoc]
        constructor
        · exact Or.inr
        · rintro (rfl | h)
          · exact Or.inr hseen
          · exact h
      · rw [hwork, List.mem_cons]
        constructor
        · rintro (h | ⟨h, hn⟩)
          · exact Or.inl h
          · exact Or.inr ⟨Or.inr h, hn⟩
        · rintro (h | ⟨rfl | h, hn⟩)
          · exact Or.inl h
          · exact absurd hseen hn
          · exact Or.inr ⟨h, hn⟩
    · rw [if_neg hseen]
      obtain ⟨hsize, hiff, hwork, hcard⟩ :=
        ih (seen.setIfInBounds k true) (k :: work) (by simpa using hrest)
      have hmark := seen_setIfInBounds seen hk
      refine ⟨by rw [hsize, Array.size_setIfInBounds], fun j => ?_, fun j => ?_, ?_⟩
      · rw [hiff, hmark, List.mem_cons, ← or_assoc, or_comm (a := j ∈ rest)]
      · rw [hwork, hmark, List.mem_cons, List.mem_cons]
        by_cases hjk : j = k
        · simp [hjk, hseen]
        · simp [hjk]
      -- a new one goes from the unseen to the work list
      · have hone := card_unseen_setIfInBounds hk hseen
        rw [hcard, List.length_cons]
        omega

/-! ## The search -/

/-- A snapshot of a graph on `0 … n - 1`: its condensation, and right answers. -/
structure Sound (snapshot : Reachability) (n : Nat) (adjacency : Nat → List Nat) : Prop where
  condenses : snapshot.condensation.Condenses n adjacency
  known_size : snapshot.known.size = snapshot.condensation.members.size
  known_nodup : ∀ k closed, snapshot.known.getD k none = some closed → closed.Nodup
  mem_known : ∀ k closed, snapshot.known.getD k none = some closed →
    ∀ j, j ∈ closed ↔ snapshot.condensation.Leads k j

/-- A search under way: what has been seen is reached from `start`, and is on the work list
unless all its successors have been seen. -/
structure Searching (snapshot : Reachability) (start : Nat) (seen : Array Bool)
    (work : List Nat) : Prop where
  size_eq : seen.size = snapshot.condensation.members.size
  seen_start : Seen seen start
  leads : ∀ k, Seen seen k → snapshot.condensation.Leads start k
  seen_of_mem : ∀ k ∈ work, Seen seen k
  expanded : ∀ k, Seen seen k → k ∈ work ∨
    ∀ j ∈ snapshot.condensation.successors.getD k [], Seen seen j

variable {snapshot : Reachability} {n : Nat} {adjacency : Nat → List Nat}

/-- Without work left, everything that `start` leads to has been seen. -/
theorem Searching.seen_of_leads {start : Nat} {seen : Array Bool}
    (h : Searching snapshot start seen []) {k : Nat} (hk : snapshot.condensation.Leads start k) :
    Seen seen k := by
  induction hk with
  | refl => exact h.seen_start
  | tail _ hedge ih => exact (h.expanded _ ih).resolve_left List.not_mem_nil _ hedge

/-- A search starts with `start` seen and to be worked off. -/
theorem searching_start {start : Nat} (hstart : start < snapshot.condensation.members.size) :
    Searching snapshot start
      ((Array.replicate snapshot.condensation.members.size false).setIfInBounds start true)
      [start] := by
  -- only the start has been seen
  have hseen : ∀ k, Seen ((Array.replicate snapshot.condensation.members.size false).setIfInBounds
      start true) k ↔ k = start := by
    intro k
    rw [seen_setIfInBounds _ (by simpa using hstart), Seen, Array.getD_eq_getD_getElem?,
      Array.getElem?_replicate]
    split <;> simp
  exact
    { size_eq := by rw [Array.size_setIfInBounds, Array.size_replicate]
      seen_start := (hseen start).2 rfl
      leads := fun k hk => (hseen k).1 hk ▸ .refl
      seen_of_mem := fun k hk => (hseen k).2 (List.mem_singleton.1 hk)
      expanded := fun k hk => Or.inl (List.mem_singleton.2 ((hseen k).1 hk)) }

/-- There are as many steps in a search as components. -/
theorem card_unseen_le {start : Nat} {seen : Array Bool} {work : List Nat}
    (h : Searching snapshot start seen work) :
    (unseen seen).card + 1 ≤ snapshot.condensation.members.size := by
  have hrange : unseen seen ⊂ Finset.range seen.size := by
    refine Finset.filter_ssubset.2 ⟨start, ?_, by simpa [Seen] using h.seen_start⟩
    rw [Finset.mem_range]
    by_contra hge
    have hseen := h.seen_start
    rw [Seen, Array.getD_eq_getD_getElem?, Array.getElem?_eq_none (by omega)] at hseen
    cases hseen
  have hlt := Finset.card_lt_card hrange
  rwa [Finset.card_range, h.size_eq] at hlt

namespace Sound

variable (hs : snapshot.Sound n adjacency) (hadj : ∀ v, ∀ w ∈ adjacency v, w < n)
include hs hadj

theorem leads_lt {k j : Nat} (hk : k < snapshot.condensation.members.size)
    (h : snapshot.condensation.Leads k j) : j < snapshot.condensation.members.size := by
  rcases Relation.ReflTransGen.cases_tail h with rfl | ⟨i, -, hij⟩
  · exact hk
  · exact hs.condenses.successors_lt hadj hij

/-- A kept answer has components only. -/
theorem known_lt {start k : Nat} {seen : Array Bool} {work closed : List Nat}
    (h : Searching snapshot start seen (k :: work))
    (hstart : start < snapshot.condensation.members.size)
    (hknown : snapshot.known.getD k none = some closed) : ∀ j ∈ closed, j < seen.size := by
  intro j hj
  have hk : snapshot.condensation.Leads start k := h.leads k (h.seen_of_mem k List.mem_cons_self)
  rw [h.size_eq]
  exact hs.leads_lt hadj (hs.leads_lt hadj hstart hk) ((hs.mem_known k closed hknown j).1 hj)

/-- A component whose answer is kept brings all that it leads to. -/
theorem searching_known {start k : Nat} {seen : Array Bool} {work closed : List Nat}
    (h : Searching snapshot start seen (k :: work))
    (hstart : start < snapshot.condensation.members.size)
    (hknown : snapshot.known.getD k none = some closed) :
    Searching snapshot start (closed.foldl (·.setIfInBounds · true) seen) work := by
  have hclosed := hs.mem_known k closed hknown
  have hk : snapshot.condensation.Leads start k := h.leads k (h.seen_of_mem k List.mem_cons_self)
  have hseen := seen_foldl closed seen (hs.known_lt hadj h hstart hknown)
  refine
    { size_eq := (Condensation.Search.size_foldl_setIfInBounds closed seen true).trans h.size_eq
      seen_start := (hseen start).2 (Or.inr h.seen_start)
      leads := fun j hj => ?leads
      seen_of_mem := fun j hj =>
        (hseen j).2 (Or.inr (h.seen_of_mem j (List.mem_cons_of_mem _ hj)))
      expanded := fun j hj => ?expanded }
  case leads =>
    rcases (hseen j).1 hj with hj | hj
    · exact hk.trans ((hclosed j).1 hj)
    · exact h.leads j hj
  case expanded =>
    -- the kept answer is closed under successors
    have hinside : j ∈ closed → ∀ i ∈ snapshot.condensation.successors.getD j [],
        Seen (closed.foldl (·.setIfInBounds · true) seen) i :=
      fun hj i hi => (hseen i).2 (Or.inl ((hclosed i).2 (((hclosed j).1 hj).tail hi)))
    rcases (hseen j).1 hj with hj | hj
    · exact Or.inr (hinside hj)
    · rcases h.expanded j hj with hmem | hsucc
      · rcases List.mem_cons.1 hmem with rfl | hmem
        · exact Or.inr (hinside ((hclosed j).2 .refl))
        · exact Or.inl hmem
      · exact Or.inr fun i hi => (hseen i).2 (Or.inr (hsucc i hi))

/-- Otherwise its successors become work. -/
theorem searching_expand {start k : Nat} {seen : Array Bool} {work : List Nat}
    (h : Searching snapshot start seen (k :: work)) :
    Searching snapshot start
      ((snapshot.condensation.successors.getD k []).foldl see (seen, work)).1
      ((snapshot.condensation.successors.getD k []).foldl see (seen, work)).2 := by
  have hk : snapshot.condensation.Leads start k := h.leads k (h.seen_of_mem k List.mem_cons_self)
  obtain ⟨hsize, hseen, hwork, -⟩ :=
    foldl_see (snapshot.condensation.successors.getD k []) seen work
      fun j hj => by rw [h.size_eq]; exact hs.condenses.successors_lt hadj hj
  refine
    { size_eq := hsize.trans h.size_eq
      seen_start := (hseen start).2 (Or.inr h.seen_start)
      leads := fun j hj => ?leads
      seen_of_mem := fun j hj => ?seen
      expanded := fun j hj => ?expanded }
  case leads =>
    rcases (hseen j).1 hj with hj | hj
    · exact hk.tail hj
    · exact h.leads j hj
  case seen =>
    rcases (hwork j).1 hj with hj | ⟨hj, -⟩
    · exact (hseen j).2 (Or.inr (h.seen_of_mem j (List.mem_cons_of_mem _ hj)))
    · exact (hseen j).2 (Or.inl hj)
  case expanded =>
    -- what was seen before keeps its reason, what is new has become work
    by_cases hold : Seen seen j
    · rcases h.expanded j hold with hmem | hsucc
      · rcases List.mem_cons.1 hmem with rfl | hmem
        · exact Or.inr fun i hi => (hseen i).2 (Or.inl hi)
        · exact Or.inl ((hwork j).2 (Or.inl hmem))
      · exact Or.inr fun i hi => (hseen i).2 (Or.inr (hsucc i hi))
    · exact Or.inl ((hwork j).2 (Or.inr ⟨((hseen j).1 hj).resolve_right hold, hold⟩))

/-- **The search ends with exactly what `start` leads to**, given as many steps as there are
components to see or to work off. -/
theorem seen_search {start : Nat} (hstart : start < snapshot.condensation.members.size)
    (fuel : Nat) {seen : Array Bool} {work : List Nat} (h : Searching snapshot start seen work)
    (hfuel : (unseen seen).card + work.length ≤ fuel) (k : Nat) :
    Seen (snapshot.search fuel (seen, work)) k ↔ snapshot.condensation.Leads start k := by
  -- on the fuel; the cost is what is unseen and what is left to work off
  induction fuel generalizing seen work with
  | zero =>
    obtain rfl : work = [] := List.length_eq_zero_iff.1 (by omega)
    exact ⟨h.leads k, h.seen_of_leads⟩
  | succ fuel ih =>
    cases work with
    | nil => exact ⟨h.leads k, h.seen_of_leads⟩
    | cons i work =>
      rw [List.length_cons] at hfuel
      rw [search]
      cases hknown : snapshot.known.getD i none with
      | some closed =>
        have hsub := unseen_foldl_subset closed seen (hs.known_lt hadj h hstart hknown)
        have hcard := Finset.card_le_card hsub
        exact ih (hs.searching_known hadj h hstart hknown) (by omega)
      | none =>
        obtain ⟨-, -, -, hcard⟩ :=
          foldl_see (snapshot.condensation.successors.getD i []) seen work fun j hj => by
            rw [h.size_eq]
            exact hs.condenses.successors_lt hadj hj
        exact ih (hs.searching_expand hadj h) (by omega)

/-- **The closure of a component** has exactly what it leads to, each once. -/
theorem closure_spec {start : Nat} (hstart : start < snapshot.condensation.members.size) :
    (snapshot.closure start).Nodup ∧
      ∀ k, k ∈ snapshot.closure start ↔ snapshot.condensation.Leads start k := by
  rw [closure]
  cases hknown : snapshot.known.getD start none with
  | some closed => exact ⟨hs.known_nodup start closed hknown, hs.mem_known start closed hknown⟩
  | none =>
    have h := searching_start hstart
    have hspec := hs.seen_search hadj hstart _ h (card_unseen_le h)
    refine ⟨List.nodup_range.filter _, fun k => ?_⟩
    rw [List.mem_filter, List.mem_range]
    constructor
    · exact fun hk => (hspec k).1 hk.2
    · exact fun hk => ⟨hs.leads_lt hadj hstart hk, (hspec k).2 hk⟩

/-- Keeping an answer keeps the snapshot sound. -/
theorem remember {start : Nat} (hstart : start < snapshot.condensation.members.size) :
    ({ snapshot with
      known := snapshot.known.setIfInBounds start (some (snapshot.closure start)) }
        : Reachability).Sound n adjacency := by
  obtain ⟨hnodup, hmem⟩ := hs.closure_spec hadj hstart
  have hget := fun k => getD_setIfInBounds snapshot.known start k (some (snapshot.closure start))
    none (hs.known_size ▸ hstart)
  refine
    { condenses := hs.condenses
      known_size := by rw [Array.size_setIfInBounds]; exact hs.known_size
      known_nodup := fun k closed hk => ?_
      mem_known := fun k closed hk => ?_ }
  -- the answer is the new one or an older one
  · rw [hget] at hk
    split at hk
    · exact Option.some.inj hk ▸ hnodup
    · exact hs.known_nodup k closed hk
  · rw [hget] at hk
    split at hk
    · next h =>
      rw [h, ← Option.some.inj hk]
      exact hmem
    · exact hs.mem_known k closed hk

end Sound

end CallFlow.Reachability
