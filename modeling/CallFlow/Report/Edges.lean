import CallFlow.CallGraph.Endpoint
import CallFlow.Json.Value

/-!
# Call edges as JSON

The edges of a call graph are written as one array. The brackets and the commas between the edges
are put here; the text of an edge is what some printer of JSON values makes of it.
-/

namespace CallFlow

open Json

namespace Json

/-- A number that may be absent. -/
def Value.ofNat? : Option Nat → Value
  | some n => .nat n
  | none => .null

end Json

def Point.toJson (p : Point) : Value :=
  .object [("row", .ofNat? p.row), ("column", .ofNat? p.column)]

def ByteRange.toJson (r : ByteRange) : Value :=
  .object [("start", .ofNat? r.start), ("end", .ofNat? r.stop)]

def Endpoint.toJson (e : Endpoint) : Value :=
  .object [("label", .string e.label), ("file", .string e.file), ("start", e.start.toJson),
    ("end", e.stop.toJson), ("range", e.range.toJson)]

def CallEdge.toJson (e : CallEdge) : Value :=
  .object [("source", e.source.toJson), ("target", e.target.toJson)]

namespace Report

/-- The texts of edges with commas between them. -/
def separatedEdges (print : Value → String) : List CallEdge → List Char
  | [] => []
  | [e] => (print e.toJson).toList
  | e :: rest => (print e.toJson).toList ++ ',' :: separatedEdges print rest

/-- The text of an array of edges, each of them printed by `print`. -/
def edgesText (print : Value → String) (edges : List CallEdge) : String :=
  String.ofList ('[' :: separatedEdges print edges ++ [']'])

/-- The path that edges are written to: the given one, which ends in `.json`. -/
def outputPath (path : Path) : Path :=
  if ".json".toList.isSuffixOf path.text.toList then path else ⟨path.text ++ ".json"⟩

end Report

end CallFlow
