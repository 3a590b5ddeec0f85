import CallFlow.Proofs.Syntax.Expansion
import CallFlow.Proofs.Syntax.Nesting

/-!
# Where contracted expansions may be told

A walk over a file and one over its contracted form part ways where an expansion has a vertex of
its own, and may do so where there is a default. `Piece.spots` lists such places as a walk over a
piece comes to them, in its order and as often as it does: the left side of a default is walked for
the source and, if the value of the default has a vertex, once more for that. Whether `this` has one
depends on whether there is a function around, so that the places depend on that too.
-/

namespace CallFlow.Syntax

/-- A place in a tree where the walk over a file and that over its contracted form may be told
apart. -/
inductive Spot
  /-- An expression that joins two values, or an export passed on. Its range names its vertex. -/
  | joined (span : Span)
  /-- A pattern with a default, and whether `this` has a vertex there. -/
  | default (receiver : Bool) (inner : Pattern) (value : Expr)

namespace Spot

/-- The range that names a vertex. -/
def span? : Spot → Option Span
  | joined span => some span
  | default _ _ _ => none

/-- The vertices of compound expressions, by their ranges. -/
def spans (spots : List Spot) : List Span := spots.filterMap span?

theorem spans_append (spots spots' : List Spot) :
    spans (spots ++ spots') = spans spots ++ spans spots' :=
  List.filterMap_append

end Spot

/-- Whether a pattern is a plain name. -/
def Pattern.isName : Pattern → Bool
  | .ident _ => true
  | _ => false

/-- Wherever there is a default for more than a mere name, its value has a vertex in the contracted
form just if it has one as it is written. The left side is walked again for such a value, so that
the calls and functions in it are registered once more. -/
def Contraction.Keeps (c : Contraction) (spots : List Spot) : Prop :=
  ∀ receiver inner value, .default receiver inner value ∈ spots → inner.isName = false →
    (value.contract c).yields receiver = value.yields receiver

theorem Contraction.Keeps.mono {c : Contraction} {spots spots' : List Spot} (h : c.Keeps spots')
    (hspots : spots ⊆ spots') : c.Keeps spots :=
  fun receiver inner value hspot => h receiver inner value (hspots hspot)

/-- If nothing is contracted, no value changes. -/
theorem Contraction.Keeps.of_none {c : Contraction} (h : ∀ span, c.target span = none)
    {spots : List Spot} : c.Keeps spots :=
  fun receiver _ value _ _ => value.yields_contract h receiver

namespace Piece

/-- The parts that a walk enters, as often as it does. -/
def walked (receiver : Bool) : Piece → List Piece
  | pattern (.withDefault inner value) =>
    expr value :: pattern inner :: if value.yields receiver then [pattern inner] else []
  | p => p.entered

/-- The pieces that are walked are smaller, which the recursion rests on. -/
theorem sizeOf_walked {receiver : Bool} {p part : Piece} (h : part ∈ p.walked receiver) :
    sizeOf part < sizeOf p := by
  have hentered (h : part ∈ p.entered) : sizeOf part < sizeOf p := by
    obtain ⟨step, hstep, hpart⟩ := List.mem_filterMap.1 h
    cases step with
    | enter _ => exact Option.some.inj hpart ▸ sizeOf_steps hstep
    | passOver _ => cases hpart
  unfold walked at h
  split at h
  · next inner value =>
    refine hentered ?_
    have hpart : part = expr value ∨ part = pattern inner := by
      rw [List.mem_cons, List.mem_cons] at h
      refine h.imp_right fun h => h.elim id fun h => ?_
      split at h
      · exact List.mem_singleton.1 h
      · cases h
    obtain rfl | rfl := hpart
    · exact List.mem_cons_self
    · exact List.mem_cons_of_mem _ List.mem_cons_self
  · exact hentered h

/-- What the piece itself is. -/
def spot? (receiver : Bool) : Piece → Option Spot
  | expr (.logical span _ _) | expr (.conditional span _ _ _) => some (.joined span)
  | pattern (.withDefault inner value) => some (.default receiver inner value)
  | _ => none

/-- There is a receiver in every function but in arrows, which have that of what is around them. -/
def spots (receiver : Bool) (p : Piece) : List Spot :=
  (p.walked receiver).attach.flatMap
    (fun part => part.1.spots (part.1.isFunc && !p.isArrow || receiver)) ++
      (p.spot? receiver).toList
termination_by sizeOf p
decreasing_by exact sizeOf_walked part.2

/-- The spots of pieces that are in no arrow directly. -/
def spotsAll (receiver : Bool) (ps : List Piece) : List Spot :=
  ps.flatMap fun p => p.spots (p.isFunc || receiver)

theorem spots_eq {p : Piece} (h : p.isArrow = false) (receiver : Bool) :
    p.spots receiver = spotsAll receiver (p.walked receiver) ++ (p.spot? receiver).toList := by
  rw [spots, h, List.flatMap_subtype (g := fun part : Piece =>
      part.spots (part.isFunc && !false || receiver)) fun _ _ => rfl, List.unattach_attach]
  simp only [Bool.not_false, Bool.and_true, spotsAll]

/-- An arrow function has the spots of the function, seen from where the arrow stands. -/
theorem spots_arrow (receiver : Bool) (f : Func) :
    (expr (.arrow f)).spots receiver = (func f).spots receiver := by
  rw [spots]
  simp [walked, entered, steps, isArrow, spot?]

end Piece

/-- An export passed on from another module has a vertex too. No receiver is around an item. -/
def ModuleItem.spots : ModuleItem → List Spot
  | .exportNames (some _) specifiers => specifiers.map fun s => .joined s.span
  | item => Piece.spotsAll false item.parts

/-- The spots of a module. -/
def Module.spots (m : Module) : List Spot := m.items.flatMap ModuleItem.spots

end CallFlow.Syntax
