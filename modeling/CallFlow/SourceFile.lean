import CallFlow.Path
import CallFlow.Source.Text
import CallFlow.Syntax.Read

/-!
# Source files

A source file is a text with the dialect that its name tells, together with what came of reading
it.
-/

namespace CallFlow

structure SourceFile where
  path : Path
  text : String
  dialect : Syntax.Dialect
  reading : Syntax.Reading
deriving Inhabited

namespace SourceFile

/-- The file of a path that holds a text. -/
def ofText (path : Path) (text : String) : SourceFile :=
  let dialect := Syntax.Dialect.ofFileName path.text
  { path, text, dialect, reading := Syntax.readSource dialect text.toList }

/-- The syntax of the file, if it could be read. -/
def module? (file : SourceFile) : Option Syntax.Module :=
  file.reading.items.map (⟨·⟩)

def lines (file : SourceFile) : LineTable :=
  LineTable.ofText file.text

/-- The line and column of a byte offset in the whole text. -/
def position (file : SourceFile) (offset : Nat) : Position :=
  file.lines.position offset

end SourceFile

end CallFlow
