/-!
# Strongly connected components

`Condensation.ofAdjacency` groups the vertices `0 … n - 1` of a directed graph into its
strongly connected components by one depth-first search that keeps explicit frames. A component
is numbered when its search ends, hence every edge between two components leads to the smaller
number.
-/

namespace CallFlow

/-- The components of a graph: the component of every vertex, the vertices of every component,
and the components that each one has an edge to, ascending and without itself. -/
structure Condensation where
  component : Array Nat
  members : Array (List Nat)
  successors : Array (List Nat)
deriving Repr, Inhabited

namespace Condensation

/-- A vertex whose search is under way, with the targets that it has not looked at yet. -/
structure Frame where
  vertex : Nat
  pending : List Nat
deriving Repr, Inhabited

/-- The state of the search. `order` counts vertices as they are met; `low` is the least order
known to be reachable through vertices that are still on `stack`. -/
structure Search where
  order : Array (Option Nat)
  low : Array Nat
  onStack : Array Bool
  stack : List Nat
  component : Array (Option Nat)
  members : Array (List Nat)
  met : Nat
  frames : List Frame
deriving Repr, Inhabited

namespace Search

def start (n : Nat) : Search where
  order := Array.replicate n none
  low := Array.replicate n 0
  onStack := Array.replicate n false
  stack := []
  component := Array.replicate n none
  members := #[]
  met := 0
  frames := []

def isMet (s : Search) (v : Nat) : Bool :=
  (s.order.getD v none).isSome

/-- Meets a vertex: numbers it, puts it on the stack and opens a frame for it. -/
def enter (s : Search) (adjacency : Nat → List Nat) (v : Nat) : Search :=
  { s with
    order := s.order.setIfInBounds v (some s.met)
    low := s.low.setIfInBounds v s.met
    onStack := s.onStack.setIfInBounds v true
    stack := v :: s.stack
    met := s.met + 1
    frames := ⟨v, adjacency v⟩ :: s.frames }

/-- Lowers the `low` of `v` to `bound` if that is less. -/
def lower (s : Search) (v bound : Nat) : Search :=
  { s with low := s.low.setIfInBounds v (min (s.low.getD v 0) bound) }

/-- Splits the stack behind `v`. -/
def splitStack (v : Nat) : List Nat → List Nat × List Nat
  | [] => ([], [])
  | w :: rest =>
    if w = v then ([w], rest)
    else
      let (top, below) := splitStack v rest
      (w :: top, below)

/-- Makes a component of everything on the stack down to `v`. -/
def close (s : Search) (v : Nat) : Search :=
  let (top, below) := splitStack v s.stack
  let number := s.members.size
  { s with
    onStack := top.foldl (fun flags w => flags.setIfInBounds w false) s.onStack
    component := top.foldl (fun of w => of.setIfInBounds w (some number)) s.component
    stack := below
    members := s.members.push top }

/-- Ends the search of `v`, whose frame is gone: its `low` counts for the vertex below, and a
vertex that reaches nothing older closes a component. -/
def leave (s : Search) (v : Nat) : Search :=
  let low := s.low.getD v 0
  let s := match s.frames with
    | [] => s
    | parent :: _ => s.lower parent.vertex low
  if some low = s.order.getD v none then s.close v else s

/-- Looks at one edge of the vertex on top, or ends its search if it has none left. -/
def step (adjacency : Nat → List Nat) (s : Search) : Search :=
  match s.frames with
  | [] => s
  | ⟨v, []⟩ :: below => { s with frames := below }.leave v
  | ⟨v, w :: pending⟩ :: below =>
    let s := { s with frames := ⟨v, pending⟩ :: below }
    match s.order.getD w none with
    | none => s.enter adjacency w
    | some order => if s.onStack.getD w false then s.lower v order else s

/-- Steps until no frame is left, at most `n` times. -/
def run (adjacency : Nat → List Nat) : Nat → Search → Search
  | 0, s => s
  | n + 1, s =>
    match s.frames with
    | [] => s
    | _ :: _ => run adjacency n (s.step adjacency)

/-- Searches from `root` unless it has been met. -/
def visit (adjacency : Nat → List Nat) (bound : Nat) (s : Search) (root : Nat) : Search :=
  if s.isMet root then s else run adjacency bound (s.enter adjacency root)

end Search

/-- The largest number of steps of a search: each looks at an edge or ends a vertex. -/
def stepBound (n : Nat) (adjacency : Nat → List Nat) : Nat :=
  n + ((List.range n).flatMap adjacency).length

/-- The search from every vertex in turn. -/
def searchAll (n : Nat) (adjacency : Nat → List Nat) : Search :=
  (List.range n).foldl (Search.visit adjacency (stepBound n adjacency)) (Search.start n)

/-- Inserts a number into an ascending list that has no number twice. -/
def insertAscending (k : Nat) : List Nat → List Nat
  | [] => [k]
  | m :: rest =>
    if k < m then k :: m :: rest
    else if k = m then m :: rest
    else m :: insertAscending k rest

/-- Adds the edges out of `v` to the successors of its component. -/
def addSuccessors (adjacency : Nat → List Nat) (component : Array Nat)
    (successors : Array (List Nat)) (v : Nat) : Array (List Nat) :=
  let source := component.getD v 0
  (adjacency v).foldl
    (fun successors w =>
      let target := component.getD w 0
      if target = source then successors
      else successors.modify source (insertAscending target))
    successors

/-- The condensation of the graph on `0 … n - 1` whose edges `adjacency` lists. -/
def ofAdjacency (n : Nat) (adjacency : Nat → List Nat) : Condensation :=
  let search := searchAll n adjacency
  let component := search.component.map (·.getD 0)
  { component
    members := search.members
    successors := (List.range n).foldl (addSuccessors adjacency component)
      (Array.replicate search.members.size []) }

end Condensation

end CallFlow
