import CallFlow.Binding.Scope
import CallFlow.Proofs.Registration.Steps

/-!
# What is inside of what

`Piece.Reaches` says which pieces a walk over a piece comes to, and what it is inside of when it
does: the scopes of blocks, loops, handlers and classes, and the functions to whose parameters or
body it has gone on. What is written at a function but is neither, such as the decorators and the
key of a method, is not inside of it, and what a class extends is not inside of the class.
-/

namespace CallFlow.Syntax

/-- What is around something: a scope that is no function's, or a function. An arrow has the
receiver of what is around it. -/
inductive Crossing
  | scope (kind : ScopeKind)
  | function (f : Func) (isArrow : Bool)

/-- The part, if it is entered. -/
def Step.entered? : Step → Option Piece
  | enter part => some part
  | passOver _ => none

@[simp]
theorem Step.entered?_enter (part : Piece) : (enter part).entered? = some part := rfl

@[simp]
theorem Step.entered?_passOver (part : Piece) : (passOver part).entered? = none := rfl

@[simp]
theorem Step.entered?_enterIf (condition : Bool) (part : Piece) :
    (enterIf condition part).entered? = if condition then some part else none := by
  cases condition <;> rfl

@[simp]
theorem Step.filterMap_enter {α : Type} (part : α → Piece) (as : List α) :
    as.filterMap (entered? ∘ fun a => enter (part a)) = as.map part :=
  congrFun (List.filterMap_eq_map (f := part)) as

@[simp]
theorem Step.filterMap_passOver {α : Type} (part : α → Piece) (as : List α) :
    as.filterMap (entered? ∘ fun a => passOver (part a)) = [] :=
  List.filterMap_eq_nil_iff.2 fun _ _ => rfl

theorem Step.filterMap_map_enter {α : Type} (part : α → Piece) (as : List α) :
    (as.map fun a => enter (part a)).filterMap entered? = as.map part := by
  rw [List.filterMap_map, filterMap_enter]

namespace Piece

/-- Expressions, patterns, statements, classes and functions, and the static blocks of classes. -/
def isNode : Piece → Bool
  | expr _ | pattern _ | stmt _ | .class _ | func _ | member (.staticBlock _) => true
  | key _ | property _ | attr _ | body _ | param _ | member _ | field _ | decl _ | declarator _
  | head _ | .case _ => false

/-- Whether a piece is a function. -/
def isFunc : Piece → Bool
  | func _ => true
  | _ => false

theorem site?_eq_none {p : Piece} (h : p.isNode = false) : p.site? = none := by
  cases p with
  | expr | func => cases h
  | _ => rfl

theorem isFunc_eq_false {p : Piece} (h : p.site? = none) : p.isFunc = false := by
  cases p with
  | func => cases h
  | _ => rfl

/-- The function directly inside of this piece is an arrow. -/
def isArrow : Piece → Bool
  | expr (.arrow _) => true
  | _ => false

/-- The parts that a walk enters. -/
def entered (p : Piece) : List Piece := p.steps.filterMap Step.entered?

/-- The scope that a piece opens, unless it is a function, and the parts that are walked in it. -/
def opens : Piece → Option (ScopeKind × List Piece)
  | .class (.mk _ _ members) => some (.classScope, members.map member)
  | member (.staticBlock stmts) | stmt (.block stmts) => some (.blockScope, stmts.map stmt)
  | stmt (.for h test update b) => some (.forScope, (stmt (.for h test update b)).entered)
  | stmt (.forEach h iterated b) => some (.forScope, (stmt (.forEach h iterated b)).entered)
  | stmt (.switch _ cases) => some (.blockScope, cases.map .case)
  | stmt (.try _ p (some handler) _) =>
    some (.catchScope, p.toList.map pattern ++ [stmt handler])
  | _ => none

/-- The other parts that a walk goes on to. A string that is a key is not walked, and of an
assignment to `super[key]` only the value and the key are. -/
def inner : Piece → List Piece
  | key (.computed (.string _)) => []
  | expr (.assign _ (.expr (.superMember k)) value) => [expr value, key k]
  | .class (.mk decorators heritage _) => (decorators ++ heritage.toList).map expr
  | stmt (.switch subject _) => [expr subject]
  | stmt (.try b _ _ finalizer) => stmt b :: finalizer.toList.map stmt
  | member (.staticBlock _) | stmt (.block _) | stmt (.for _ _ _ _) | stmt (.forEach _ _ _) => []
  | p => p.entered

/-- The walk over a piece comes to another one, inside of these scopes and functions, the outermost
first. `isArrow` says so of the piece itself where it is a function. -/
inductive Reaches : (isArrow : Bool) → Piece → List Crossing → Piece → Prop
  | here {isArrow : Bool} {p : Piece} (h : p.isNode = true) : Reaches isArrow p [] p
  | part {isArrow : Bool} {p q r : Piece} {cs : List Crossing} (hp : p.isFunc = false)
      (hq : q ∈ p.inner) (h : Reaches p.isArrow q cs r) : Reaches isArrow p cs r
  | inScope {isArrow : Bool} {p q r : Piece} {kind : ScopeKind} {qs : List Piece}
      {cs : List Crossing} (hp : p.opens = some (kind, qs)) (hq : q ∈ qs)
      (h : Reaches false q cs r) : Reaches isArrow p (.scope kind :: cs) r
  | inside {isArrow : Bool} {f : Func} {q r : Piece} {cs : List Crossing}
      (hq : q ∈ (func f).inner) (h : Reaches false q cs r) :
      Reaches isArrow (func f) (.function f isArrow :: cs) r

/-- One of these pieces is reached from, or gone on from. -/
def ReachesAny (isArrow : Bool) (ps : List Piece) (cs : List Crossing) (q : Piece) : Prop :=
  ∃ p ∈ ps, Reaches isArrow p cs q

/-- What is reached inside of this scope or function. -/
def Within (crossing : Crossing) (reaches : List Crossing → Piece → Prop) (cs : List Crossing)
    (q : Piece) : Prop :=
  ∃ cs', cs = crossing :: cs' ∧ reaches cs' q

/-- What the walk over a piece that is no function goes on to. -/
def Interior (p : Piece) (cs : List Crossing) (q : Piece) : Prop :=
  ReachesAny p.isArrow p.inner cs q ∨
    ∃ part ∈ p.opens, Within (.scope part.1) (ReachesAny false part.2) cs q

section

variable {isArrow : Bool} {p q : Piece} {ps ps' : List Piece} {cs : List Crossing}

theorem reachesAny_nil : ¬ReachesAny isArrow [] cs q := by
  rintro ⟨p, hp, -⟩
  cases hp

theorem reachesAny_singleton : ReachesAny isArrow [p] cs q ↔ Reaches isArrow p cs q := by
  simp [ReachesAny]

/-- What is reached from several pieces is reached from the first or from the rest. -/
theorem reachesAny_cons :
    ReachesAny isArrow (p :: ps) cs q ↔ Reaches isArrow p cs q ∨ ReachesAny isArrow ps cs q := by
  simp [ReachesAny]

theorem reachesAny_append :
    ReachesAny isArrow (ps ++ ps') cs q ↔
      ReachesAny isArrow ps cs q ∨ ReachesAny isArrow ps' cs q := by
  simp [ReachesAny, or_and_right, exists_or]

/-- Where no scope is opened the interior is what is reached from the pieces inside. -/
theorem interior_of_not_opens (h : p.opens = none) :
    p.Interior cs q ↔ ReachesAny p.isArrow p.inner cs q := by
  simp [Interior, h]

/-- A piece that is no function is itself reached, if it is a node, and all that is reached from
what the walk goes on to. -/
theorem reaches_iff (hp : p.isFunc = false) : Reaches isArrow p cs q ↔
    (p.isNode = true ∧ cs = [] ∧ q = p) ∨ p.Interior cs q := by
  constructor
  · rintro (h | ⟨-, hq, h⟩ | ⟨hp, hq, h⟩ | ⟨hq, h⟩)
    · exact .inl ⟨h, rfl, rfl⟩
    · exact .inr (.inl ⟨_, hq, h⟩)
    · exact .inr (.inr ⟨_, hp, _, rfl, _, hq, h⟩)
    · cases hp
  · rintro (⟨h, rfl, rfl⟩ | ⟨r, hr, h⟩ | ⟨part, hpart, cs', rfl, r, hr, h⟩)
    · exact .here h
    · exact .part hp hr h
    · exact .inScope hpart hr h

/-- From a function its parameters and its body are reached inside of it. -/
theorem reaches_func_iff {f : Func} : Reaches isArrow (func f) cs q ↔
    (cs = [] ∧ q = func f) ∨
      Within (.function f isArrow) (ReachesAny false (func f).inner) cs q := by
  constructor
  · rintro (h | ⟨hp, -, -⟩ | ⟨hp, -, -⟩ | ⟨hq, h⟩)
    · exact .inl ⟨rfl, rfl⟩
    · cases hp
    · cases hp
    · exact .inr ⟨_, rfl, _, hq, h⟩
  · rintro (⟨rfl, rfl⟩ | ⟨cs', rfl, r, hr, h⟩)
    · exact .here rfl
    · exact .inside hr h

end

end Piece

/-- The walk over the module comes to the piece, inside of these scopes and functions. -/
def Module.Reaches (m : Module) (cs : List Crossing) (q : Piece) : Prop :=
  ∃ item ∈ m.items, Piece.ReachesAny false item.parts cs q

end CallFlow.Syntax
