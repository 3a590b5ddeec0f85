import CallFlow.Path
import CallFlow.Source.Location

/-!
# The program model

Files, functions and call sites are numbered in the order in which they are found. A number
is never reused, so vertices of the flow graph can name functions and calls by number.
-/

namespace CallFlow

/-- The number of a source file. -/
structure FileId where
  index : Nat
deriving DecidableEq, Repr, Inhabited

/-- The number of a function. -/
structure FunctionId where
  index : Nat
deriving DecidableEq, Repr, Inhabited

/-- The number of a call site. -/
structure CallId where
  index : Nat
deriving DecidableEq, Repr, Inhabited

/-- A function of the source: a declaration, an expression, an arrow, a method, an accessor or
a constructor. `paramCount` leaves the receiver out. -/
structure Function where
  name : Option String
  paramCount : Nat
  file : FileId
  location : Location
  enclosing : Option FunctionId
  isArrow : Bool
deriving DecidableEq, Repr, Inhabited

/-- Whether a call site calls its callee or constructs with it. -/
inductive CallKind
  | call
  | construct
deriving DecidableEq, Repr, Inhabited

/-- A call of the source. `argCount` leaves the receiver out. -/
structure CallSite where
  kind : CallKind
  argCount : Nat
  enclosing : Option FunctionId
  file : FileId
  location : Location
deriving DecidableEq, Repr, Inhabited

/-- Everything numbered so far. -/
structure Program where
  files : Array Path := #[]
  functions : Array Function := #[]
  calls : Array CallSite := #[]
deriving Inhabited

namespace Program

def empty : Program := {}

def addFile (program : Program) (path : Path) : FileId × Program :=
  (⟨program.files.size⟩, { program with files := program.files.push path })

def addFunction (program : Program) (function : Function) : FunctionId × Program :=
  (⟨program.functions.size⟩, { program with functions := program.functions.push function })

def addCall (program : Program) (site : CallSite) : CallId × Program :=
  (⟨program.calls.size⟩, { program with calls := program.calls.push site })

def file? (program : Program) (id : FileId) : Option Path :=
  program.files[id.index]?

def function? (program : Program) (id : FunctionId) : Option Function :=
  program.functions[id.index]?

def call? (program : Program) (id : CallId) : Option CallSite :=
  program.calls[id.index]?

/-- All function numbers, ascending. -/
def functionIds (program : Program) : List FunctionId :=
  (List.range program.functions.size).map (⟨·⟩)

/-- All call numbers, ascending. -/
def callIds (program : Program) : List CallId :=
  (List.range program.calls.size).map (⟨·⟩)

/-- A file is shown by its name without directories, or by its path if it has no name. -/
def displayName (path : Path) : String :=
  path.fileName?.getD path.text

/-- The name of a function, `anon` if it has none. -/
def label (function : Function) : String :=
  function.name.getD "anon"

/-- A place as `file@line:start-stop`, with the line of its start and its byte offsets. -/
def placeText? (program : Program) (file : FileId) (location : Location) : Option String :=
  (program.file? file).map fun path =>
    displayName path ++ "@" ++ toString location.start.line ++ ":"
      ++ toString location.span.start ++ "-" ++ toString location.span.stop

/-- The place of a call site. -/
def callPlace? (program : Program) (id : CallId) : Option String :=
  (program.call? id).bind fun site => program.placeText? site.file site.location

/-- The place of a function. -/
def functionPlace? (program : Program) (id : FunctionId) : Option String :=
  (program.function? id).bind fun function => program.placeText? function.file function.location

/-- The label of the function around a call site, `global` at top level. -/
def enclosingName? (program : Program) (id : CallId) : Option String :=
  (program.call? id).bind fun site =>
    match site.enclosing with
    | none => some "global"
    | some f => (program.function? f).map label

/-- The function around a call site with its place, `global` at top level. -/
def enclosingLabel? (program : Program) (id : CallId) : Option String :=
  (program.call? id).bind fun site =>
    match site.enclosing with
    | none => some "global"
    | some f =>
      (program.function? f).bind fun function =>
        (program.functionPlace? f).map fun place => label function ++ " (" ++ place ++ ")"

end Program

end CallFlow
