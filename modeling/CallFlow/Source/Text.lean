import CallFlow.Source.Location
import CallFlow.Text.CharClass

/-!
# Source text

Byte offsets into a text are turned into lines and columns. Lines end at a newline; columns
count UTF-16 units. An offset that is not at the start of a character of its line has its byte
distance from the start of the line as column.
-/

namespace CallFlow

namespace Source

/-- The UTF-16 units in the first `distance` bytes, if a character ends there. -/
def unitsBefore? : List Char → Nat → Option Nat
  | _, 0 => some 0
  | [], _ + 1 => none
  | c :: rest, distance =>
    if c.utf8Size ≤ distance then
      (unitsBefore? rest (distance - c.utf8Size)).map (Text.units16 c + ·)
    else none

/-- A line of a text with its newline, and the offset at which it starts. -/
structure Line where
  start : Nat
  chars : List Char
deriving DecidableEq, Repr, Inhabited

/-- The lines of a text whose first character is at `offset`; the last one has no newline. -/
def linesFrom (offset : Nat) : List Char → List Line
  | [] => [⟨offset, []⟩]
  | c :: rest =>
    if c = '\n' then ⟨offset, [c]⟩ :: linesFrom (offset + 1) rest
    else
      match linesFrom (offset + c.utf8Size) rest with
      | [] => [⟨offset, [c]⟩]
      | line :: more => ⟨offset, c :: line.chars⟩ :: more

end Source

/-- The lines of a source text, first to last. -/
structure LineTable where
  lines : List Source.Line
deriving Repr, Inhabited

namespace LineTable

def ofText (text : String) : LineTable :=
  ⟨Source.linesFrom 0 text.toList⟩

/-- The line and column of a byte offset: the last line that starts at or before it, and the
distance from its start. -/
def position (table : LineTable) (offset : Nat) : Position :=
  let before := table.lines.takeWhile fun line => line.start ≤ offset
  match before.getLast? with
  | none => ⟨1, offset⟩
  | some line =>
    let distance := offset - line.start
    ⟨before.length, (Source.unitsBefore? line.chars distance).getD distance⟩

/-- The location of a span. -/
def location (table : LineTable) (span : Span) : Location where
  start := table.position span.start
  stop := table.position span.stop
  span

end LineTable

end CallFlow
