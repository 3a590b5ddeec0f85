import CallFlow.Proofs.Path.Components

/-!
# Places

A path leads to a place by its names alone: a name followed by `..` leads nowhere, and so does
`.`. What is left are the `..` that nothing cancels, and behind them names. `Path.place` walks
the components; `cancels_place_iff` says that its place is what remains of the components once
all such pairs are taken out, in whatever order this is done.
-/

namespace CallFlow.Path

/-- Where a path leads: from the root or from a directory it is relative to, so many directories
up, and from there along these names. -/
structure Place where
  absolute : Bool := false
  above : Nat := 0
  names : List String := []
deriving DecidableEq, Repr

namespace Place

/-- The components that lead to the place and cancel nowhere. -/
def components (place : Place) : List Component :=
  (if place.absolute then [.root] else []) ++
    (List.replicate place.above .parent ++ place.names.map .name)

/-- Where a component leads from a place. -/
def step (place : Place) : Component → Place
  | .root => { absolute := true }
  | .current => place
  | .parent =>
    if place.names = [] then { place with above := place.above + 1 }
    else { place with names := place.names.dropLast }
  | .name s => { place with names := place.names ++ [s] }

/-- Where components lead from a place. -/
def walk (place : Place) (cs : List Component) : Place :=
  cs.foldl step place

@[simp] theorem walk_nil (place : Place) : place.walk [] = place := rfl

@[simp] theorem walk_cons (place : Place) (c : Component) (cs : List Component) :
    place.walk (c :: cs) = (place.step c).walk cs := rfl

theorem walk_append (place : Place) (cs ds : List Component) :
    place.walk (cs ++ ds) = (place.walk cs).walk ds :=
  List.foldl_append

/-! ### The components of a place -/

/-- Above all names every `..` leads further up. -/
theorem walk_parents (place : Place) (h : place.names = []) (k : Nat) :
    place.walk (List.replicate k .parent) = { place with above := place.above + k } := by
  induction k generalizing place with
  | zero => rfl
  | succ k ih =>
    rw [List.replicate_succ, walk_cons, step, if_pos h,
      ih { place with above := place.above + 1 } h,
      Nat.add_right_comm, Nat.add_assoc]

theorem walk_names (place : Place) (names : List String) :
    place.walk (names.map .name) = { place with names := place.names ++ names } := by
  induction names generalizing place with
  | nil => rw [List.map_nil, walk_nil, List.append_nil]
  | cons s names ih => rw [List.map_cons, walk_cons, ih, step, List.append_assoc]; rfl

/-- The components of a place lead to it. -/
theorem walk_components (place : Place) : ({} : Place).walk place.components = place := by
  obtain ⟨absolute, above, names⟩ := place
  have hstart : ({} : Place).walk (if absolute then [.root] else []) =
      { absolute := absolute } := by
    cases absolute <;> rfl
  rw [components, walk_append, hstart, walk_append, walk_parents _ rfl, walk_names]
  simp

theorem components_injective {a b : Place} (h : a.components = b.components) : a = b := by
  rw [← walk_components a, h, walk_components]

theorem step_parent_append (absolute : Bool) (above : Nat) (before : List String) (s : String) :
    (⟨absolute, above, before ++ [s]⟩ : Place).step .parent = ⟨absolute, above, before⟩ := by
  simp [step]

theorem components_append_name (place : Place) (s : String) :
    ({ place with names := place.names ++ [s] } : Place).components =
      place.components ++ [.name s] := by
  simp [components]

theorem current_notMem_components (place : Place) : .current ∉ place.components := by
  rw [components]
  split <;> simp [List.mem_replicate]

/-- Among the components of a place no name stands before a `..`. -/
theorem pairwise_components (place : Place) :
    place.components.Pairwise fun c d => d = Component.parent → ∀ s, c ≠ Component.name s := by
  -- all `..` stand before all names
  have htail : (List.replicate place.above Component.parent ++
      place.names.map Component.name).Pairwise
        fun c d => d = Component.parent → ∀ s, c ≠ Component.name s := by
    refine List.pairwise_append.2 ⟨?_, ?_, ?_⟩
    · exact List.pairwise_replicate.2 (.inr fun _ _ => nofun)
    · exact List.pairwise_map.2 (List.pairwise_iff_forall_sublist.2 fun _ => nofun)
    · rintro c - d hd rfl
      simp at hd
  rw [components]
  split
  · exact List.pairwise_cons.2 ⟨fun _ _ _ => nofun, htail⟩
  · exact htail

theorem not_name_parent_infix (place : Place) (s : String) :
    ¬[.name s, .parent] <:+: place.components := fun h =>
  (List.pairwise_cons.1 (place.pairwise_components.sublist h.sublist)).1 .parent
    List.mem_cons_self rfl s rfl

end Place

/-- The place that a path leads to. -/
def place (p : Path) : Place :=
  ({} : Place).walk p.components

/-! ## Cancelling -/

/-- Components from which some `.` and some names with the `..` behind them are taken out. -/
inductive Cancels : List Component → List Component → Prop
  | refl (cs : List Component) : Cancels cs cs
  | current (cs ds : List Component) {es : List Component} (h : Cancels (cs ++ ds) es) :
    Cancels (cs ++ .current :: ds) es
  | name (cs ds : List Component) (s : String) {es : List Component}
    (h : Cancels (cs ++ ds) es) : Cancels (cs ++ .name s :: .parent :: ds) es

theorem Place.step_name_parent (place : Place) (s : String) :
    (place.step (.name s)).step .parent = place := by
  simp [step]

/-- Cancelling changes nothing about where components lead. -/
theorem Cancels.walk_eq {cs es : List Component} (h : Cancels cs es) (place : Place) :
    place.walk cs = place.walk es := by
  induction h with
  | refl => rfl
  | current cs ds _ ih => rw [← ih, Place.walk_append, Place.walk_append]; rfl
  | name cs ds s _ ih =>
    rw [← ih, Place.walk_append, Place.walk_append, Place.walk_cons, Place.walk_cons,
      Place.step_name_parent]

/-- Components behind those of a place cancel to the components of where they lead. -/
theorem Place.cancels_walk (place : Place) {cs : List Component} (h : .root ∉ cs) :
    Cancels (place.components ++ cs) (place.walk cs).components := by
  induction cs generalizing place with
  | nil => rw [List.append_nil]; exact .refl _
  | cons c cs ih =>
    have hcs : .root ∉ cs := fun hmem => h (List.mem_cons_of_mem c hmem)
    have happend : place.components ++ c :: cs = (place.components ++ [c]) ++ cs := by simp
    rw [walk_cons]
    cases c with
    | root => exact absurd List.mem_cons_self h
    -- a `.` is dropped where it stands
    | current => exact .current _ _ (ih place hcs)
    | name s =>
      rw [happend, ← components_append_name]
      exact ih _ hcs
    | parent =>
      obtain ⟨absolute, above, names⟩ := place
      -- a `..` is kept if there is no name that it could cancel
      obtain rfl | ⟨before, s, rfl⟩ := names.eq_nil_or_concat'
      · have hmore : (⟨absolute, above, []⟩ : Place).components ++ [.parent] =
            (⟨absolute, above + 1, []⟩ : Place).components := by
          simp [components, List.replicate_succ']
        rw [happend, hmore]
        exact ih _ hcs
      · rw [components_append_name ⟨absolute, above, before⟩, List.append_assoc,
          step_parent_append]
        exact .name _ _ s (ih _ hcs)

/-- What a path leads to is written as the path without what cancels. -/
theorem cancels_place (p : Path) : Cancels p.components p.place.components := by
  obtain ⟨first, rest, hp, hplain, hfirst⟩ := p.exists_components
  have hrest : .root ∉ rest := fun h => (hplain _ h).ne_root rfl
  rw [place, hp, Place.walk_append]
  obtain rfl | rfl | rfl := hfirst
  · exact Place.cancels_walk {} hrest
  · exact Place.cancels_walk { absolute := true } hrest
  · exact .current [] rest (Place.cancels_walk {} hrest)

/-- The place of a path is the one whose components are left when names and the `..` behind
them cancel. -/
theorem cancels_place_iff (p : Path) (q : Place) :
    Cancels p.components q.components ↔ p.place = q := by
  refine ⟨fun h => ?_, fun h => h ▸ p.cancels_place⟩
  rw [place, h.walk_eq, Place.walk_components]

end CallFlow.Path
