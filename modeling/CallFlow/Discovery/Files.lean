import CallFlow.FileSystem
import CallFlow.Module.Resolution

/-!
# Finding source files

The source files of an analysis are found from paths: a path of a source file stands for that
file, a path of a directory for all source files below it. Files and directories below it that
are hidden or hold packages are left out, but never the given path itself.
-/

namespace CallFlow.Discovery

/-- Whether the name of a file tells that it holds a source. -/
def isSource (file : Path) : Bool :=
  file.extension?.any Module.extensions.contains

/-- Whether a file or directory of that name is left out. Of a name that is no text this is not
asked. -/
def isSkipped (name : String) : Bool :=
  Text.Name.isText name.toList && (name.toList.head? = some '.' || name = "node_modules")

/-- Whether a walk leaves out what stands at the end of the names. Where the walk starts there are
no names yet, and nothing is left out. -/
def isHidden (names : List String) : Bool :=
  names.getLast?.any isSkipped

/-- The bytes of names, as numbers. -/
def bytesOf (names : List String) : List (List Nat) :=
  names.map fun name => (Text.Name.bytes name.toList).map UInt8.toNat

/-- The order of names from a common directory: step by step, each by its bytes. -/
def namesLe (a b : List String) : Bool :=
  decide (¬ bytesOf b < bytesOf a)

/-- The path that leads from a directory along names. -/
def pathBelow (dir : Path) (names : List String) : Path :=
  names.foldl (fun here name => here.join ⟨name⟩) dir

/-- What walks along a file system: it tells what stands at a path and below it, by the names that
lead there, and leaves out what is refused with all that stands below it. -/
abbrev Walker := (List String → Bool) → Path → List (List String × FileEntry)

/-- The names that lead to a file. -/
def fileNames? : List String × FileEntry → Option (List String)
  | (names, .file _) => some names
  | _ => none

/-- The source files that a walk from a path finds, in order. -/
def sourcesBelow (walker : Walker) (dir : Path) : List Path :=
  let files := (walker (fun names => !isHidden names) dir).filterMap fileNames?
  ((files.mergeSort namesLe).map (pathBelow dir)).filter isSource

/-- The source files that a path stands for. -/
def sourcesAt (walker : Walker) (fs : FileSystem) (p : Path) : List Path :=
  match fs.entry? p with
  | none => []
  | some (.file _) => if isSource p then [p] else []
  | some _ => sourcesBelow walker p

/-- A path seen from the root. -/
def resolved (fs : FileSystem) (p : Path) : Path :=
  (p.absolute? fs.workingDirectory).getD p

/-- The source files that paths stand for, each where it is found first. -/
def collect (walker : Walker) (fs : FileSystem) (paths : List Path) : List Path :=
  Path.dedup (paths.flatMap fun p => sourcesAt walker fs (resolved fs p))

/-- The given paths that lead nowhere. -/
def missing (fs : FileSystem) (paths : List Path) : List Path :=
  (paths.map (resolved fs)).filter fun p => !fs.contains p

end CallFlow.Discovery
