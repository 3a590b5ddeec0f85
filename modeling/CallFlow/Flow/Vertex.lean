import CallFlow.Program
import CallFlow.Binding.Symbol

/-!
# Vertices of the flow graph

A vertex is a place that a function value can flow through. Slot 0 of the parameters of a
function, and of the arguments of a call, is the receiver; slot `i + 1` is the `i`-th
parameter or argument.
-/

namespace CallFlow

/-- A compound expression, named by the byte range that it takes up in its file. -/
structure ExprKey where
  file : FileId
  span : Span
deriving DecidableEq, Repr, Inhabited

inductive Vertex
  /-- A function as a value. -/
  | func (function : FunctionId)
  /-- Whatever is invoked at a call. -/
  | callee (call : CallId)
  /-- A built-in function. -/
  | native (name : String)
  | param (function : FunctionId) (slot : Nat)
  | arg (call : CallId) (slot : Nat)
  /-- What a function returns. -/
  | ret (function : FunctionId)
  /-- What a call evaluates to. -/
  | res (call : CallId)
  /-- A value that is not tracked; flow stops here. -/
  | unknown
  /-- A declared name. -/
  | var (symbol : SymbolId)
  /-- The property of this name of every object, and the global of this name. -/
  | prop (name : String)
  | expr (key : ExprKey)
deriving DecidableEq, Repr, Inhabited

inductive VertexKind
  | func | callee | native | param | arg | ret | res | unknown | var | prop | expr
deriving DecidableEq, Repr, Inhabited

def VertexKind.text : VertexKind → String
  | .func => "FuncVertex"
  | .callee => "CalleeVertex"
  | .native => "NativeVertex"
  | .param => "ParamVertex"
  | .arg => "ArgVertex"
  | .ret => "RetVertex"
  | .res => "ResVertex"
  | .unknown => "UnknownVertex"
  | .var => "VarVertex"
  | .prop => "PropVertex"
  | .expr => "ExprVertex"

namespace Vertex

def kind : Vertex → VertexKind
  | .func _ => .func
  | .callee _ => .callee
  | .native _ => .native
  | .param _ _ => .param
  | .arg _ _ => .arg
  | .ret _ => .ret
  | .res _ => .res
  | .unknown => .unknown
  | .var _ => .var
  | .prop _ => .prop
  | .expr _ => .expr

def isUnknown : Vertex → Bool
  | .unknown => true
  | _ => false

/-- The call whose callee this is. -/
def calleeOf? : Vertex → Option CallId
  | .callee call => some call
  | _ => none

/-! ### An order on vertices

Vertices are indexed in a search tree. Their order is by kind, then by the numbers in them,
then by name; it serves the index only. -/

/-- The kind of a vertex as a number. -/
def rank : Vertex → Nat
  | .func _ => 0
  | .callee _ => 1
  | .native _ => 2
  | .param _ _ => 3
  | .arg _ _ => 4
  | .ret _ => 5
  | .res _ => 6
  | .unknown => 7
  | .var _ => 8
  | .prop _ => 9
  | .expr _ => 10

/-- The first number in a vertex: its function, call, symbol or file. -/
def major : Vertex → Nat
  | .func f | .param f _ | .ret f => f.index
  | .callee c | .arg c _ | .res c => c.index
  | .var s => s.index
  | .expr key => key.file.index
  | .native _ | .unknown | .prop _ => 0

/-- The second number in a vertex: its slot or the start of its range. -/
def minor : Vertex → Nat
  | .param _ slot | .arg _ slot => slot
  | .expr key => key.span.start
  | _ => 0

/-- The third number in a vertex: the stop of its range. -/
def tail : Vertex → Nat
  | .expr key => key.span.stop
  | _ => 0

/-- The name in a vertex. -/
def name : Vertex → String
  | .native s | .prop s => s
  | _ => ""

def order : Vertex → Vertex → Ordering :=
  compareLex (compareOn rank) <| compareLex (compareOn major) <|
    compareLex (compareOn minor) <| compareLex (compareOn tail) (compareOn name)

instance : Std.TransCmp order :=
  inferInstanceAs (Std.TransCmp (compareLex (compareOn rank) <| compareLex (compareOn major) <|
    compareLex (compareOn minor) <| compareLex (compareOn tail) (compareOn name)))

/-- Vertices that agree in kind, numbers and name are the same. -/
theorem eq_of_parts {v w : Vertex} (hr : v.rank = w.rank) (h1 : v.major = w.major)
    (h2 : v.minor = w.minor) (h3 : v.tail = w.tail) (hn : v.name = w.name) : v = w := by
  cases v <;> cases w <;> simp_all [rank, major, minor, tail, name]
  case func f g => cases f; cases g; simp_all
  case callee f g => cases f; cases g; simp_all
  case param f _ g _ => cases f; cases g; simp_all
  case arg f _ g _ => cases f; cases g; simp_all
  case ret f g => cases f; cases g; simp_all
  case res f g => cases f; cases g; simp_all
  case var f g => cases f; cases g; simp_all
  case expr f g =>
    obtain ⟨⟨_⟩, ⟨_, _⟩⟩ := f
    obtain ⟨⟨_⟩, ⟨_, _⟩⟩ := g
    simp_all

instance : Std.LawfulEqCmp order where
  eq_of_compare {v w} h := by
    simp only [order, compareLex_eq_eq, compareOn, Std.LawfulEqCmp.compare_eq_iff_eq] at h
    exact eq_of_parts h.1 h.2.1 h.2.2.1 h.2.2.2.1 h.2.2.2.2

end Vertex

end CallFlow
