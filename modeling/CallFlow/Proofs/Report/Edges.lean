import CallFlow.Proofs.Json.Pretty
import CallFlow.Report.Edges

/-!
# Call edges are read back

The text of a list of call edges is one JSON value, an array, and each of its items holds all that
an edge is made of, under the names of the fields (`edgesText_exact`).

* `CallEdge.ofTree?` says what edge a JSON value holds, by the names of the members alone, and
  `CallEdge.ofTree?_toJson` that the value of an edge holds the edge.
* Of whatever prints the single edges it is asked that the text of an edge is JSON for the value
  of the edge, with blanks around it or not. `Value.text` is such a printer (`isText_text`).
-/

namespace CallFlow

open Json

/-! ## Edges in values -/

namespace Json.Tree

/-- The value of a member of an object. -/
def member? (name : String) : Tree → Option Tree
  | .object members => members.lookup name
  | _ => none

/-- The string that a value is. -/
def string? : Tree → Option String
  | .string s => some s
  | _ => none

/-- A whole number without a sign, or none. -/
def nat? : Tree → Option (Option Nat)
  | .null => some none
  | .number digits =>
    if digits.all Char.isDigit then some (some (Nat.ofDigitChars 10 digits 0)) else none
  | _ => none

end Json.Tree

/-- Reads a position back. -/
def Point.ofTree? (tree : Tree) : Option Point := do
  return { row := ← (← tree.member? "row").nat?, column := ← (← tree.member? "column").nat? }

/-- Reads a range back. -/
def ByteRange.ofTree? (tree : Tree) : Option ByteRange := do
  return { start := ← (← tree.member? "start").nat?, stop := ← (← tree.member? "end").nat? }

/-- Reads an end of an edge back, with all that is shown of it. -/
def Endpoint.ofTree? (tree : Tree) : Option Endpoint := do
  return {
    label := ← (← tree.member? "label").string?
    file := ← (← tree.member? "file").string?
    start := ← Point.ofTree? (← tree.member? "start")
    stop := ← Point.ofTree? (← tree.member? "end")
    range := ← ByteRange.ofTree? (← tree.member? "range") }

/-- Reads an edge back. -/
def CallEdge.ofTree? (tree : Tree) : Option CallEdge := do
  return {
    source := ← Endpoint.ofTree? (← tree.member? "source")
    target := ← Endpoint.ofTree? (← tree.member? "target") }

/-! ## Edges are read from what is written for them -/

/-- A number that may be missing is read back, missing or not. -/
theorem nat?_ofNat? (n : Option Nat) : (Value.ofNat? n).tree.nat? = some n := by
  cases n with
  | none => rfl
  | some n =>
    have hdigits : (Nat.toDigits 10 n).all Char.isDigit = true :=
      List.all_eq_true.2 (isDigits_toDigits n).2
    rw [Value.ofNat?, Value.tree, Tree.nat?, if_pos hdigits,
      Nat.ofDigitChars_toDigits (by decide) (by decide)]

theorem string?_string (s : String) : (Value.string s).tree.string? = some s := rfl

/-- A member of an object is found under its name. -/
theorem member?_object (members : List (String × Value)) (name : String) :
    (Value.object members).tree.member? name = (members.lookup name).map Value.tree := by
  rw [Value.tree, Tree.member?]
  induction members with
  | nil => rfl
  | cons member members ih =>
    obtain ⟨key, value⟩ := member
    rw [Value.memberTrees, List.lookup_cons, List.lookup_cons, ih]
    split <;> rfl

theorem Point.ofTree?_toJson (p : Point) : Point.ofTree? p.toJson.tree = some p := by
  simp [Point.toJson, Point.ofTree?, member?_object, List.lookup_cons, nat?_ofNat?]

theorem ByteRange.ofTree?_toJson (r : ByteRange) : ByteRange.ofTree? r.toJson.tree = some r := by
  simp [ByteRange.toJson, ByteRange.ofTree?, member?_object, List.lookup_cons, nat?_ofNat?]

theorem Endpoint.ofTree?_toJson (e : Endpoint) : Endpoint.ofTree? e.toJson.tree = some e := by
  simp [Endpoint.toJson, Endpoint.ofTree?, member?_object, List.lookup_cons, string?_string,
    Point.ofTree?_toJson, ByteRange.ofTree?_toJson]

theorem CallEdge.ofTree?_toJson (e : CallEdge) : CallEdge.ofTree? e.toJson.tree = some e := by
  simp [CallEdge.toJson, CallEdge.ofTree?, member?_object, List.lookup_cons,
    Endpoint.ofTree?_toJson]

/-! ## The text of a list of edges -/

namespace Report

variable {print : Value → String}

/-- The edges and the commas between them are the items of one array. The induction is on the edges:
behind each of them stands a comma or the bracket, so that its text is read on its own. -/
theorem readsItems_separated (hprint : ∀ e : CallEdge, IsText (print e.toJson).toList e.toJson.tree)
    (e : CallEdge) (edges : List CallEdge) (rest : List Char) :
    ReadsItems (separatedEdges print (e :: edges) ++ ']' :: rest)
      ((e :: edges).map fun e => e.toJson.tree) rest := by
  induction edges generalizing e with
  | nil =>
    -- the bracket ends the text of the last edge
    have hstops : Stops (']' :: rest) := fun c hc => Option.some.inj hc ▸ rfl
    obtain ⟨next, h, hnext⟩ := (hprint e).reads hstops
    rw [separatedEdges, List.map_singleton]
    exact .last h hnext
  | cons other edges ih =>
    -- the comma ends the text of the first edge
    have hstops : Stops (',' :: (separatedEdges print (other :: edges) ++ ']' :: rest)) :=
      fun c hc => Option.some.inj hc ▸ rfl
    obtain ⟨next, h, hnext⟩ := (hprint e).reads hstops
    have htext : separatedEdges print (e :: other :: edges) ++ ']' :: rest =
        (print e.toJson).toList ++
          ',' :: (separatedEdges print (other :: edges) ++ ']' :: rest) := by
      rw [separatedEdges, List.append_assoc, List.cons_append]
      exact List.cons_ne_nil other edges
    rw [htext, List.map_cons]
    exact .more h hnext (ih other)

/-- The edges between brackets are the items of an array. -/
theorem isText_edgesText (hprint : ∀ e : CallEdge, IsText (print e.toJson).toList e.toJson.tree)
    (edges : List CallEdge) :
    IsText (edgesText print edges).toList (.array (edges.map fun e => e.toJson.tree)) := by
  rw [edgesText, String.toList_ofList]
  cases edges with
  | nil => exact ⟨[], .noItems rfl, rfl⟩
  | cons e edges => exact ⟨[], .array (readsItems_separated hprint e edges []), rfl⟩

/-- **The written edges are read back.** Whatever prints the edges, as long as the text of each
edge is JSON and stands for the value of the edge: the text of the list is one JSON value and no
other, an array whose items are the edges, one by one. So different edges are written as different
texts. -/
theorem edgesText_exact (hprint : ∀ e : CallEdge, IsText (print e.toJson).toList e.toJson.tree)
    (edges : List CallEdge) :
    ∃ items, IsText (edgesText print edges).toList (.array items) ∧
      (∀ tree, IsText (edgesText print edges).toList tree → tree = .array items) ∧
      items.map CallEdge.ofTree? = edges.map some ∧
      ∀ others, edgesText print others = edgesText print edges → others = edges := by
  have hdecode (edges : List CallEdge) :
      (edges.map fun e => e.toJson.tree).map CallEdge.ofTree? = edges.map some := by
    rw [List.map_map]
    exact List.map_congr_left fun e _ => e.ofTree?_toJson
  have htext := isText_edgesText hprint edges
  refine ⟨_, htext, fun tree h => h.unique htext, hdecode edges, fun others heq => ?_⟩
  have hothers := isText_edgesText hprint others
  rw [heq] at hothers
  have hsome : others.map some = edges.map some := by
    rw [← hdecode others, ← hdecode edges, Tree.array.inj (hothers.unique htext)]
  exact List.map_injective_iff.2 (fun _ _ => Option.some.inj) hsome

/-- A call of a built-in function in a function whose name has to be escaped. -/
def escapedEdge : CallEdge where
  source := {
    label := "\"\\\x01é", file := "a\tb.js"
    start := ⟨some 1, some 0⟩, stop := ⟨some 1, some 12⟩, range := ⟨some 0, some 12⟩ }
  target := {
    label := "Array.of", file := nativeFile
    start := ⟨none, none⟩, stop := ⟨none, none⟩, range := ⟨none, none⟩ }

theorem edgesText_exact_text :
    (∀ e : CallEdge, IsText e.toJson.text.toList e.toJson.tree) ∧
    ∃ items, IsText (edgesText Value.text [escapedEdge, escapedEdge]).toList (.array items) ∧
      (∀ tree, IsText (edgesText Value.text [escapedEdge, escapedEdge]).toList tree →
        tree = .array items) ∧
      items.map CallEdge.ofTree? = [some escapedEdge, some escapedEdge] ∧
      ∀ others, edgesText Value.text others = edgesText Value.text [escapedEdge, escapedEdge] →
        others = [escapedEdge, escapedEdge] :=
  ⟨fun e => isText_text e.toJson,
    edgesText_exact (fun e => isText_text e.toJson) [escapedEdge, escapedEdge]⟩

end Report

end CallFlow
