import CallFlow.Syntax.Grammar.Items
import CallFlow.Text.Pieces

/-!
# Reading modules

The knots of the grammar are tied by depth, which no source exceeds: whatever nests in something
else is shorter than it. A byte order mark and a first line that begins with `#!` are no part of
the module.
-/

namespace CallFlow.Syntax

namespace Grammar

/-- The grammar whose readings nest at most `depth` levels deep. -/
def ofDepth : Nat → Grammar
  | 0 => exhausted
  | n + 1 =>
    { expr := fun s => Parse.exprBody (ofDepth n) s
      assignment := fun s => Parse.assignmentBody (ofDepth n) s
      binary := fun floor s => Parse.binaryBody (ofDepth n) floor s
      unary := fun s => Parse.unaryBody (ofDepth n) s
      operand := fun s => Parse.operandBody (ofDepth n) s
      constructed := fun s => Parse.constructedBody (ofDepth n) s
      stmt := fun allowDecl s => Parse.stmtBody (ofDepth n) allowDecl s
      binding := fun s => Parse.bindingBody (ofDepth n) s
      element := fun s => Parse.elementBody (ofDepth n) s
      type := fun s => Parse.typeBody (ofDepth n) s
      item := fun s => Parse.itemBody (ofDepth n) s }

end Grammar

/-- The dialects of the language. -/
inductive Dialect
  | javaScript
  | jsx
  | typeScript
  | tsx
deriving DecidableEq, Repr, Inhabited

namespace Dialect

def name : Dialect → String
  | .javaScript => "JavaScript"
  | .jsx => "Jsx"
  | .typeScript => "TypeScript"
  | .tsx => "Tsx"

def isTyped : Dialect → Bool
  | .typeScript | .tsx => true
  | .javaScript | .jsx => false

/-- Plain files may hold markup too, since it is often found in them. -/
def hasMarkup : Dialect → Bool
  | .typeScript => false
  | .javaScript | .jsx | .tsx => true

/-- The dialect by the part of a file name behind the last dot, or by the whole name. -/
def ofFileName (name : String) : Dialect :=
  let ending := (Text.pieces '.' name.toList).getLast?
  match ending.map fun cs => String.ofList (cs.map Char.toLower) with
  | some "ts" | some "mts" | some "cts" => .typeScript
  | some "tsx" => .tsx
  | some "jsx" => .jsx
  | _ => .javaScript

end Dialect

/-- What came of reading a source: its items unless an error ended the reading, and all errors
in the order in which they were found. -/
structure Reading where
  items : Option (List ModuleItem)
  errors : List SyntaxError
deriving Inhabited

/-- The text without a byte order mark. -/
def withoutMark : List Char → List Char
  | '\ufeff' :: rest => rest
  | text => text

/-- The reader behind a first line that begins with `#!`. -/
def skipInterpreterLine (r : Reader) : Reader :=
  match r.rest with
  | '#' :: '!' :: _ => r.skipWhile (!isLineEnd ·)
  | _ => r

/-- Reads all items up to the end of the source. -/
def moduleItems (g : Grammar) : Parse (List ModuleItem) :=
  Parse.many Parse.isEof g.item

/-- Reads a source in a dialect. Offsets count from behind a byte order mark. -/
def readSource (dialect : Dialect) (source : List Char) : Reading :=
  let text := withoutMark source
  let limit := 4 * text.length + 64
  let setting : Setting := { typed := dialect.isTyped, markup := dialect.hasMarkup, limit }
  let blank : Progress :=
    { token := .eof, newline := true, here := ⟨[], 0⟩, after := ⟨[], 0⟩, lastStop := 0 }
  let first := blank.advanceTo limit (skipInterpreterLine ⟨text, 0⟩) true 0
  match moduleItems (.ofDepth limit) setting first with
  | .ok (items, p) => ⟨some items, p.recorded.reverse⟩
  | .error errors => ⟨none, errors⟩

/-! ### Where errors stand -/

/-- The text behind its last line end, and the number of lines before it. -/
def lastLine : List Char → Nat → List Char → Nat × List Char
  | [], lines, read => (lines, read.reverse)
  | '\r' :: '\n' :: rest, lines, _ => lastLine rest (lines + 1) []
  | c :: rest, lines, read =>
    if c = '\n' || c = '\r' then lastLine rest (lines + 1) [] else lastLine rest lines (c :: read)

/-- The characters before a byte offset. -/
def before : List Char → Nat → List Char
  | [], _ => []
  | c :: rest, offset =>
    if offset < c.utf8Size then [] else c :: before rest (offset - c.utf8Size)

/-- The line of an error, from 1 on, and how many columns the line shows before it. -/
def SyntaxError.place (source : List Char) (e : SyntaxError) : Nat × Nat :=
  let (lines, line) := lastLine (before (withoutMark source) e.span.start) 0 []
  (lines + 1, line.foldl (fun columns c => columns + Text.displayColumns c) 0)

/-- What an error says, and where it is. -/
def SyntaxError.text (source : List Char) (e : SyntaxError) : String :=
  let (line, column) := e.place source
  e.problem.message ++ " at " ++ toString line ++ ":" ++ toString column

end CallFlow.Syntax
