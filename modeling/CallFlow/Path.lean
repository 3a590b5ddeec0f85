import CallFlow.Text.Name
import CallFlow.Text.Pieces

/-!
# Paths

A path is written text, read component by component: empty components and all `.` but a
leading one are skipped, so that `p//a.js`, `p/./a.js` and `p/a.js` have the same components.
Bytes that are no text are spelled in it (`Text.Name`), and a spelling holds neither `/` nor `.`.
`Path.normalize` resolves `.` and `..` on the components alone, without looking at a disk.
-/

namespace CallFlow

/-- One step of a path. -/
inductive Path.Component
  | root
  | current
  | parent
  | name (text : String)
deriving DecidableEq, Repr, Inhabited

/-- A path as it is written, with `/` between its components. -/
structure Path where
  text : String
deriving DecidableEq, Repr, Inhabited

namespace Path

namespace Component

/-- The component as it is written; the root is the empty text before the first `/`. -/
def text : Component → String
  | .root => ""
  | .current => "."
  | .parent => ".."
  | .name s => s

/-- A component that is not the first of a path: empty ones and `.` stand for nothing. -/
def ofPiece? (piece : List Char) : Option Component :=
  match piece with
  | [] => none
  | ['.'] => none
  | ['.', '.'] => some .parent
  | _ => some (.name (String.ofList piece))

end Component

/-- The components of a path. A leading `/` is the root and a leading `.` is kept. -/
def components (p : Path) : List Component :=
  match Text.pieces '/' p.text.toList with
  | [] => []
  | [] :: [] => []
  | [] :: rest => .root :: rest.filterMap Component.ofPiece?
  | ['.'] :: rest => .current :: rest.filterMap Component.ofPiece?
  | first => first.filterMap Component.ofPiece?

/-- The path that is written with these components. -/
def ofComponents : List Component → Path
  | [] => ⟨""⟩
  | [.root] => ⟨"/"⟩
  | cs => ⟨"/".intercalate (cs.map Component.text)⟩

def isAbsolute (p : Path) : Bool :=
  p.components.head? = some .root

/-- The last component if it is a name: neither the root, nor `.`, nor `..`. -/
def fileName? (p : Path) : Option String :=
  match p.components.getLast? with
  | some (.name s) => some s
  | _ => none

/-! ### Paths as pieces

Some operations keep a path as it is written, and not only its components. They work on the pieces
between the `/`, of which the first one tells whether the path is absolute. -/

/-- The pieces of a path, the last one first, without those at its end that are no components. -/
def withoutBlankEnd : List (List Char) → List (List Char)
  | [] => []
  | [first] => [first]
  | piece :: before =>
    if Component.ofPiece? piece = none then withoutBlankEnd before else piece :: before

/-- The path that is written with these pieces; the first one alone, if it is empty, is the root. -/
def ofPieces : List (List Char) → Path
  | [[]] => ⟨"/"⟩
  | pieces => ⟨String.ofList (Text.glue '/' pieces)⟩

/-- The path without its last component; the root and the empty path have none. What stands
before that component is kept as it is written. -/
def parent? (p : Path) : Option Path :=
  match withoutBlankEnd (Text.pieces '/' p.text.toList).reverse with
  | [] => none
  | [[]] => none
  | _ :: before => some (ofPieces (withoutBlankEnd before).reverse)

/-- Whether a `/` stands at the end. -/
def endsWithSlash (p : Path) : Bool :=
  p.text.toList.getLast? = some '/'

/-- Where `rest` leads when it is followed from `base`. -/
def join (base rest : Path) : Path :=
  if rest.text.toList.head? = some '/' then rest
  else if base.text.isEmpty then rest
  else if base.endsWithSlash then ⟨base.text ++ rest.text⟩
  else ⟨base.text ++ "/" ++ rest.text⟩

/-- Where an absolute path starts: two slashes are kept, any other number of them is one. -/
def rootOf (p : Path) : Path :=
  match p.text.toList with
  | ['/', '/'] => ⟨"//"⟩
  | '/' :: '/' :: c :: _ => if c = '/' then ⟨"/"⟩ else ⟨"//"⟩
  | _ => ⟨"/"⟩

/-- The absolute path of `p` in the directory `base`. A `..` is kept, and so is a `/` at the end.
The empty path has none. -/
def absolute? (p base : Path) : Option Path :=
  if p.text.isEmpty then none
  else
    let start := if p.isAbsolute then p.rootOf else base
    let steps := p.components.filter fun c => c ≠ .root ∧ c ≠ .current
    let full := steps.foldl (fun here step => here.join ⟨step.text⟩) start
    some (if p.endsWithSlash then full.join ⟨""⟩ else full)

/-- One step of `normalize` on the components kept so far, the last one first. A `..` removes
whatever stands last, and stays where nothing can be removed. -/
def stepNormal (kept : List Component) : Component → List Component
  | .current => kept
  | .parent =>
    match kept with
    | [] => [.parent]
    | .root :: rest => .parent :: .root :: rest
    | _ :: rest => rest
  | component => component :: kept

/-- The components left once `.` and `..` are resolved by name. -/
def normalComponents (p : Path) : List Component :=
  (p.components.foldl stepNormal []).reverse

/-- The path with `.` and `..` resolved by name. -/
def normalize (p : Path) : Path :=
  ofComponents p.normalComponents

/-- The text after the last `.` of the last component, if a name stands before that `.`. -/
def extension? (p : Path) : Option String :=
  p.fileName?.bind fun name =>
    match (Text.pieces '.' name.toList).reverse with
    | last :: _ :: more =>
      if more = [] ∧ name.toList.head? = some '.' then none else some (String.ofList last)
    | _ => none

/-- The text that a path is shown as. -/
def shown (p : Path) : String :=
  String.ofList (Text.Name.shown p.text.toList)

/-- Whether two paths have the same components. -/
def sameAs (a b : Path) : Bool := a.components = b.components

/-- The list with each path where it occurs first. -/
def dedup (paths : List Path) : List Path :=
  (paths.foldl
    (fun kept path => if kept.any path.sameAs then kept else path :: kept) []).reverse

end Path

end CallFlow
