import CallFlow.Flow.Vertex
import Std.Data.TreeSet

/-!
# The flow graph

An edge `a → b` says that a value may flow from `a` to `b`. Vertices are numbered when they
are first met and an index leads back from a vertex to its number. Vertices, edges and the
`interesting` flags only ever grow.
-/

namespace CallFlow

/-- The number of a vertex in a flow graph. -/
structure VertexId where
  index : Nat
deriving DecidableEq, Repr, Inhabited

/-- A vertex with its flag and the targets of its edges, oldest first. -/
structure FlowNode where
  vertex : Vertex
  interesting : Bool
  successors : Array VertexId
deriving Repr, Inhabited

/-- An edge by the numbers of its ends. -/
abbrev Link := VertexId × VertexId

/-- The order of the search tree that holds the edges: by source, then by target. -/
def Link.order : Link → Link → Ordering :=
  compareLex (compareOn fun link => link.1.index) (compareOn fun link => link.2.index)

instance : Std.TransCmp Link.order :=
  inferInstanceAs (Std.TransCmp
    (compareLex (compareOn fun link : Link => link.1.index) (compareOn fun link => link.2.index)))

instance : Std.LawfulEqCmp Link.order where
  eq_of_compare {a b} h := by
    obtain ⟨⟨s⟩, ⟨t⟩⟩ := a
    obtain ⟨⟨s'⟩, ⟨t'⟩⟩ := b
    simp only [Link.order, compareLex_eq_eq, compareOn, Std.LawfulEqCmp.compare_eq_iff_eq] at h
    rw [h.1, h.2]

/-- The nodes by number, an index that holds exactly the vertices stored, and the set of the
edges that the nodes list. Edges join numbers that the graph has given out. -/
structure FlowGraph where
  nodes : Array FlowNode
  index : Std.TreeMap Vertex VertexId Vertex.order
  links : Std.TreeSet Link Link.order
  index_eq_some_iff : ∀ (v : Vertex) (id : VertexId),
    index[v]? = some id ↔ (nodes[id.index]?).map FlowNode.vertex = some v
  mem_links_iff : ∀ s t : VertexId,
    (s, t) ∈ links ↔ ∃ node, nodes[s.index]? = some node ∧ t ∈ node.successors
  link_lt : ∀ s t : VertexId, (s, t) ∈ links → t.index < nodes.size

namespace FlowGraph

def empty : FlowGraph where
  nodes := #[]
  index := ∅
  links := ∅
  index_eq_some_iff := by simp
  mem_links_iff := by simp
  link_lt := by simp

instance : Inhabited FlowGraph := ⟨empty⟩

/-! ### Looking things up -/

def vertexCount (graph : FlowGraph) : Nat := graph.nodes.size

/-- All vertex numbers, ascending. -/
def vertexIds (graph : FlowGraph) : List VertexId :=
  (List.range graph.nodes.size).map (⟨·⟩)

/-- The number of a vertex, if the graph has it. -/
def find? (graph : FlowGraph) (v : Vertex) : Option VertexId :=
  graph.index[v]?

def vertex? (graph : FlowGraph) (id : VertexId) : Option Vertex :=
  (graph.nodes[id.index]?).map FlowNode.vertex

/-- The targets of the edges out of a vertex, oldest first. -/
def successors (graph : FlowGraph) (id : VertexId) : Array VertexId :=
  match graph.nodes[id.index]? with
  | some node => node.successors
  | none => #[]

def isInteresting (graph : FlowGraph) (id : VertexId) : Bool :=
  (graph.nodes[id.index]?).any FlowNode.interesting

def interestingCount (graph : FlowGraph) : Nat :=
  graph.nodes.countP FlowNode.interesting

def hasEdge (graph : FlowGraph) (source target : VertexId) : Bool :=
  graph.links.contains (source, target)

/-- Whether the graph has both vertices and the edge between them. -/
def containsEdge (graph : FlowGraph) (source target : Vertex) : Bool :=
  match graph.find? source, graph.find? target with
  | some s, some t => graph.hasEdge s t
  | _, _ => false

/-- All edges, by source number and then in the order in which they were added. -/
def edges (graph : FlowGraph) : List (VertexId × VertexId) :=
  graph.vertexIds.flatMap fun source =>
    (graph.successors source).toList.map fun target => (source, target)

def edgeCount (graph : FlowGraph) : Nat :=
  graph.links.size

theorem find?_eq_some_iff (graph : FlowGraph) (v : Vertex) (id : VertexId) :
    graph.find? v = some id ↔ graph.vertex? id = some v :=
  graph.index_eq_some_iff v id

/-- The targets of the edges out of a vertex are what the graph lists for it. -/
theorem hasEdge_iff (graph : FlowGraph) (s t : VertexId) :
    graph.hasEdge s t = true ↔ ∃ node, graph.nodes[s.index]? = some node ∧ t ∈ node.successors := by
  rw [hasEdge, Std.TreeSet.contains_iff_mem, graph.mem_links_iff]

/-! ### Growing -/

/-- Appends a vertex that the graph does not have. -/
def append (graph : FlowGraph) (v : Vertex) (fresh : graph.find? v = none) : FlowGraph where
  nodes := graph.nodes.push ⟨v, false, #[]⟩
  index := graph.index.insert v ⟨graph.nodes.size⟩
  links := graph.links
  index_eq_some_iff w id := by
    have known := graph.index_eq_some_iff w id
    have absent (j : VertexId) : graph.vertex? j ≠ some v := fun h => by
      simp [(graph.find?_eq_some_iff v j).2 h] at fresh
    simp only [Std.TreeMap.getElem?_insert, Std.LawfulEqCmp.compare_eq_iff_eq]
    by_cases hw : v = w
    · subst hw
      by_cases hid : id.index = graph.nodes.size
      · cases id; simp_all
      · have hne : (⟨graph.nodes.size⟩ : VertexId) ≠ id := by rintro rfl; exact hid rfl
        simpa [hne, Array.getElem?_push, hid, vertex?] using absent id
    · by_cases hid : id.index = graph.nodes.size
      · have hout : graph.nodes[id.index]? = none := by simp [hid]
        simpa [hw, Array.getElem?_push, hid, hout] using known
      · simpa [hw, Array.getElem?_push, hid] using known
  mem_links_iff s t := by
    rw [graph.mem_links_iff, Array.getElem?_push]
    by_cases hs : s.index = graph.nodes.size
    · simp [hs]
    · simp [hs]
  link_lt s t h := by
    have := graph.link_lt s t h
    simp only [Array.size_push]
    omega

/-- Sets the flag of a vertex. -/
def flag (graph : FlowGraph) (id : VertexId) : FlowGraph where
  nodes := graph.nodes.modify id.index fun node => { node with interesting := true }
  index := graph.index
  links := graph.links
  index_eq_some_iff v w := by
    rw [graph.index_eq_some_iff, Array.getElem?_modify]
    split <;> simp [Function.comp_def]
  mem_links_iff s t := by
    rw [graph.mem_links_iff, Array.getElem?_modify]
    cases graph.nodes[s.index]? <;> split <;> simp
  link_lt s t h := by simpa using graph.link_lt s t h

/-- Appends a target to those that the graph lists for a vertex. -/
def link (graph : FlowGraph) (source target : VertexId)
    (hs : source.index < graph.nodes.size) (ht : target.index < graph.nodes.size) :
    FlowGraph where
  nodes := graph.nodes.modify source.index fun node =>
    { node with successors := node.successors.push target }
  index := graph.index
  links := graph.links.insert (source, target)
  index_eq_some_iff v w := by
    rw [graph.index_eq_some_iff, Array.getElem?_modify]
    split <;> simp [Function.comp_def]
  mem_links_iff s t := by
    rw [Std.TreeSet.mem_insert, Std.LawfulEqCmp.compare_eq_iff_eq, graph.mem_links_iff,
      Array.getElem?_modify]
    by_cases hst : source.index = s.index
    · obtain ⟨i⟩ := source
      obtain ⟨j⟩ := s
      obtain rfl : i = j := hst
      simp [hs, or_comm, eq_comm]
    · have hne : source ≠ s := by rintro rfl; exact hst rfl
      simp [hst, hne]
  link_lt s t h := by
    rw [Std.TreeSet.mem_insert, Std.LawfulEqCmp.compare_eq_iff_eq] at h
    rw [Array.size_modify]
    rcases h with h | h
    · obtain ⟨-, rfl⟩ := Prod.mk.inj h
      exact ht
    · exact graph.link_lt s t h

/-- The number of `v`, which is added to the graph if it is new. -/
def intern (graph : FlowGraph) (v : Vertex) : VertexId × FlowGraph :=
  match h : graph.find? v with
  | some id => (id, graph)
  | none => (⟨graph.nodes.size⟩, graph.append v h)

/-- Adds an edge unless it is there or leads back to its source. Says whether it is new. Numbers
that the graph has not given out are not joined. -/
def addEdge (graph : FlowGraph) (source target : VertexId) : Bool × FlowGraph :=
  if source = target ∨ graph.hasEdge source target then (false, graph)
  else if h : source.index < graph.nodes.size ∧ target.index < graph.nodes.size then
    (true, graph.link source target h.1 h.2)
  else (false, graph)

/-- Adds both vertices and the edge between them. -/
def connect (graph : FlowGraph) (source target : Vertex) : Bool × FlowGraph :=
  let (s, graph) := graph.intern source
  let (t, graph) := graph.intern target
  graph.addEdge s t

/-- Flags a vertex. Says whether it was not flagged before. -/
def markInteresting (graph : FlowGraph) (id : VertexId) : Bool × FlowGraph :=
  ((graph.nodes[id.index]?).any (!·.interesting), graph.flag id)

/-! ### What each step changes

Every step is described by what can be looked up afterwards: numbers, edges and flags. -/

theorem vertex?_eq_none_iff (graph : FlowGraph) (id : VertexId) :
    graph.vertex? id = none ↔ graph.vertexCount ≤ id.index := by
  simp [vertex?, vertexCount]

theorem lt_of_find? {graph : FlowGraph} {v : Vertex} {id : VertexId}
    (h : graph.find? v = some id) : id.index < graph.vertexCount := by
  rw [find?_eq_some_iff] at h
  have hne : graph.vertex? id ≠ none := by simp [h]
  rw [Ne, vertex?_eq_none_iff] at hne
  omega

/-- Every number that the graph has given out is that of a vertex. -/
theorem exists_find?_of_lt {graph : FlowGraph} {id : VertexId}
    (h : id.index < graph.vertexCount) : ∃ v, graph.find? v = some id := by
  cases hv : graph.vertex? id with
  | none =>
    rw [vertex?_eq_none_iff] at hv
    omega
  | some v => exact ⟨v, (graph.find?_eq_some_iff v id).2 hv⟩

/-- Two vertices of one number are the same. -/
theorem find?_inj {graph : FlowGraph} {v w : Vertex} {id : VertexId}
    (hv : graph.find? v = some id) (hw : graph.find? w = some id) : v = w := by
  rw [find?_eq_some_iff] at hv hw
  exact Option.some.inj (hv.symm.trans hw)

/-- Only numbers that the graph has given out have edges. -/
theorem lt_of_hasEdge {graph : FlowGraph} {s t : VertexId} (h : graph.hasEdge s t = true) :
    s.index < graph.vertexCount ∧ t.index < graph.vertexCount := by
  constructor
  · obtain ⟨node, hnode, -⟩ := (graph.hasEdge_iff s t).1 h
    exact (Array.getElem?_eq_some_iff.1 hnode).1
  · exact graph.link_lt s t (Std.TreeSet.contains_iff_mem.1 h)

theorem find?_append (graph : FlowGraph) (v : Vertex) (fresh : graph.find? v = none)
    (w : Vertex) :
    (graph.append v fresh).find? w = if w = v then some ⟨graph.vertexCount⟩ else graph.find? w := by
  simp only [find?, append, vertexCount, Std.TreeMap.getElem?_insert,
    Std.LawfulEqCmp.compare_eq_iff_eq, eq_comm (a := v)]

@[simp]
theorem isInteresting_append (graph : FlowGraph) (v : Vertex) (fresh : graph.find? v = none)
    (id : VertexId) : (graph.append v fresh).isInteresting id = graph.isInteresting id := by
  simp only [isInteresting, append, Array.getElem?_push]
  split
  · next h => simp [h]
  · rfl

/-- A vertex that is interned is found under the number returned; all others keep theirs. -/
theorem find?_intern (graph : FlowGraph) (v w : Vertex) :
    (graph.intern v).2.find? w = if w = v then some (graph.intern v).1 else graph.find? w := by
  unfold intern
  split
  · next id h =>
    split
    · next hw => rw [hw, h]
    · rfl
  · next h => exact graph.find?_append v h w

@[simp]
theorem hasEdge_intern (graph : FlowGraph) (v : Vertex) (s t : VertexId) :
    (graph.intern v).2.hasEdge s t = graph.hasEdge s t := by
  unfold intern
  split <;> rfl

@[simp]
theorem isInteresting_intern (graph : FlowGraph) (v : Vertex) (id : VertexId) :
    (graph.intern v).2.isInteresting id = graph.isInteresting id := by
  unfold intern
  split <;> simp

/-- Interning a vertex that the graph has changes nothing. -/
theorem intern_of_find? {graph : FlowGraph} {v : Vertex} {id : VertexId}
    (h : graph.find? v = some id) : graph.intern v = (id, graph) := by
  unfold intern
  split
  · next h' => rw [h] at h'; rw [Option.some.inj h']
  · next h' => rw [h] at h'; cases h'

@[simp]
theorem find?_flag (graph : FlowGraph) (id : VertexId) (v : Vertex) :
    (graph.flag id).find? v = graph.find? v := rfl

theorem isInteresting_flag (graph : FlowGraph) (id other : VertexId) :
    (graph.flag id).isInteresting other = true ↔
      graph.isInteresting other = true ∨ other = id ∧ id.index < graph.vertexCount := by
  obtain ⟨i⟩ := id
  obtain ⟨j⟩ := other
  simp only [isInteresting, flag, vertexCount, Array.getElem?_modify, VertexId.mk.injEq]
  by_cases hij : i = j
  · subst hij
    by_cases hi : i < graph.nodes.size
    · simp [hi]
    · simp [hi]
  · simp [hij, Ne.symm hij]

theorem hasEdge_link (graph : FlowGraph) (s t : VertexId) (hs : s.index < graph.nodes.size)
    (ht : t.index < graph.nodes.size) (a b : VertexId) :
    (graph.link s t hs ht).hasEdge a b = true ↔
      graph.hasEdge a b = true ∨ a = s ∧ b = t := by
  simp only [hasEdge, link, Std.TreeSet.contains_iff_mem, Std.TreeSet.mem_insert,
    Std.LawfulEqCmp.compare_eq_iff_eq, Prod.mk.injEq]
  rw [or_comm, eq_comm (a := s), eq_comm (a := t)]

@[simp]
theorem isInteresting_link (graph : FlowGraph) (s t : VertexId) (hs : s.index < graph.nodes.size)
    (ht : t.index < graph.nodes.size) (id : VertexId) :
    (graph.link s t hs ht).isInteresting id = graph.isInteresting id := by
  simp only [isInteresting, link, Array.getElem?_modify]
  split
  · cases graph.nodes[id.index]? <;> rfl
  · rfl

/-- An edge is new if it joins two different numbers of the graph that were not joined. -/
theorem addEdge_fst (graph : FlowGraph) (s t : VertexId) :
    (graph.addEdge s t).1 = true ↔ s ≠ t ∧ graph.hasEdge s t = false ∧
      s.index < graph.vertexCount ∧ t.index < graph.vertexCount := by
  unfold addEdge vertexCount
  split
  · next h => rcases h with h | h <;> simp [h]
  · next h =>
    rw [not_or, Bool.not_eq_true] at h
    split
    · next hlt => simp [h, hlt]
    · next hlt => simpa [h] using hlt

/-- An edge that is not new changes nothing. -/
theorem addEdge_snd_of_not_new {graph : FlowGraph} {s t : VertexId}
    (h : (graph.addEdge s t).1 = false) : (graph.addEdge s t).2 = graph := by
  unfold addEdge at h ⊢
  split
  · rfl
  · next h1 =>
    rw [if_neg h1] at h
    split
    · next h2 => simp [h2] at h
    · rfl

@[simp]
theorem find?_addEdge (graph : FlowGraph) (s t : VertexId) (v : Vertex) :
    (graph.addEdge s t).2.find? v = graph.find? v := by
  unfold addEdge
  split
  · rfl
  · split <;> rfl

@[simp]
theorem isInteresting_addEdge (graph : FlowGraph) (s t id : VertexId) :
    (graph.addEdge s t).2.isInteresting id = graph.isInteresting id := by
  unfold addEdge
  split
  · rfl
  · split
    · simp
    · rfl

theorem hasEdge_addEdge (graph : FlowGraph) (s t a b : VertexId) :
    (graph.addEdge s t).2.hasEdge a b = true ↔ graph.hasEdge a b = true ∨
      (graph.addEdge s t).1 = true ∧ a = s ∧ b = t := by
  unfold addEdge
  split
  · simp
  · split
    · simp [hasEdge_link]
    · simp

end FlowGraph

end CallFlow
