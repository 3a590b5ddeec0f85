import CallFlow.Path

/-!
# File systems

A file system without links is a list of entries, each at the names that lead to it from the root.
A name that is no text is spelled as `Text.Name` says. The directories above an entry need no
entry of their own, and a file hides what is listed below it. Paths are followed piece by piece:
`..` leads from a directory to the one that contains it, and nothing can be followed from a file.
-/

namespace CallFlow

/-- What a file holds. -/
inductive FileContent
  | text (text : String)
  /-- Bytes that encode no text. -/
  | binary
deriving DecidableEq, Repr, Inhabited

/-- What stands at a place. -/
inductive FileEntry
  | file (content : FileContent)
  | directory
  /-- A pipe, a socket or a device. -/
  | special
deriving DecidableEq, Repr, Inhabited

/-- Why a file cannot be read. -/
inductive ReadError
  | missing
  | isDirectory
  | isSpecial
  | notText
deriving DecidableEq, Repr, Inhabited

def ReadError.message : ReadError → String
  | .missing => "No such file or directory (os error 2)"
  | .isDirectory => "Is a directory (os error 21)"
  | .isSpecial => "No such device or address (os error 6)"
  | .notText => "stream did not contain valid UTF-8"

/-- Files and directories, and the absolute path that relative paths start from. -/
structure FileSystem where
  entries : List (List String × FileEntry)
  workingDirectory : Path := ⟨"/"⟩
deriving Repr, Inhabited

namespace FileSystem

/-! ### Names -/

/-- Whether a file is listed at a place above `names`. -/
def isBelowFile (fs : FileSystem) (names : List String) : Bool :=
  fs.entries.any fun (above, entry) =>
    entry != .directory && above.isPrefixOf names && above.length < names.length

/-- What stands at the place that the names lead to from the root. -/
def at? (fs : FileSystem) (names : List String) : Option FileEntry :=
  if names = [] then some .directory
  else if fs.isBelowFile names then none
  else
    match fs.entries.find? fun entry => entry.1 = names with
    | some (_, entry) => some entry
    | none =>
      if fs.entries.any fun entry => names.isPrefixOf entry.1 then some .directory else none

/-- The names that the entries have in a directory, each once. -/
def namesIn (fs : FileSystem) (dir : List String) : List String :=
  (fs.entries.filterMap fun (names, _) =>
    if dir.isPrefixOf names then names[dir.length]? else none).eraseDups

/-- What stands at a place and below it, at most so many names deep, by the names that lead there
from the place. What `accepts` refuses is passed over with all that stands below it. -/
def walk (fs : FileSystem) (accepts : List String → Bool) (place : List String) (n : Nat)
    (names : List String) : List (List String × FileEntry) :=
  if accepts names then
    match fs.at? (place ++ names), n with
    | some .directory, n + 1 =>
      (names, .directory) :: (fs.namesIn (place ++ names)).flatMap fun name =>
        fs.walk accepts place n (names ++ [name])
    | some entry, _ => [(names, entry)]
    | none, _ => []
  else []

/-- How many names lead to the deepest entry. -/
def depth (fs : FileSystem) : Nat :=
  fs.entries.foldr (fun entry n => max entry.1.length n) 0

/-- The file system in which a file with a content stands at the names. -/
def put (fs : FileSystem) (names : List String) (content : FileContent) : FileSystem :=
  let entry := (names, FileEntry.file content)
  if fs.entries.any fun e => e.1 = names then
    { fs with entries := fs.entries.map fun e => if e.1 = names then entry else e }
  else { fs with entries := fs.entries ++ [entry] }

/-! ### Paths -/

/-- Follows the pieces of a path from a directory. -/
def follow? (fs : FileSystem) : List String → List (List Char) → Option (List String)
  | here, [] => some here
  | here, piece :: rest =>
    if fs.at? here = some .directory then
      match Path.Component.ofPiece? piece with
      | some .parent => fs.follow? here.dropLast rest
      | some step => fs.follow? (here ++ [step.text]) rest
      | none => fs.follow? here rest
    else none

/-- The pieces of a path as it is followed from the root; the empty path has none. -/
def piecesOf? (fs : FileSystem) (p : Path) : Option (List (List Char)) :=
  if p.text.isEmpty then none
  else some (Text.pieces '/' (fs.workingDirectory.join p).text.toList)

/-- The names of the place that a path leads to. -/
def locate? (fs : FileSystem) (p : Path) : Option (List String) :=
  (fs.piecesOf? p).bind (fs.follow? [])

/-- What a path leads to. -/
def entry? (fs : FileSystem) (p : Path) : Option FileEntry :=
  (fs.locate? p).bind fs.at?

/-- What stands at the place that a path leads to and below it, without what is refused. -/
def walkFrom (fs : FileSystem) (accepts : List String → Bool) (p : Path) :
    List (List String × FileEntry) :=
  match fs.locate? p with
  | some place => fs.walk accepts place fs.depth []
  | none => []

/-- Whether a path leads to anything. -/
def contains (fs : FileSystem) (p : Path) : Bool :=
  (fs.entry? p).isSome

def isFile (fs : FileSystem) (p : Path) : Bool :=
  match fs.entry? p with
  | some (.file _) => true
  | _ => false

/-- The text of the file that a path leads to. -/
def read (fs : FileSystem) (p : Path) : Except ReadError String :=
  match fs.entry? p with
  | some (.file (.text text)) => .ok text
  | some (.file .binary) => .error .notText
  | some .directory => .error .isDirectory
  | some .special => .error .isSpecial
  | none => .error .missing

/-- The place at which a file of the given path can be written: a name in a directory at which no
directory stands. -/
def target? (fs : FileSystem) (p : Path) : Option (List String) := do
  match (← fs.piecesOf? p).reverse with
  | [] => none
  | last :: before =>
    let dir ← fs.follow? [] before.reverse
    match Path.Component.ofPiece? last with
    | some (.name name) =>
      let names := dir ++ [name]
      if fs.at? dir = some .directory ∧ fs.at? names ≠ some .directory then some names else none
    | _ => none

/-- The file system after a text is written to a path; `none` if that is not possible. -/
def write? (fs : FileSystem) (p : Path) (text : String) : Option FileSystem :=
  (fs.target? p).map fun names => fs.put names (.text text)

/-- The texts that were written since an earlier state, with the names of their files. -/
def changesSince (fs earlier : FileSystem) : List (List String × String) :=
  fs.entries.filterMap fun
    | (names, .file (.text text)) =>
      if earlier.at? names = some (.file (.text text)) then none else some (names, text)
    | _ => none

end FileSystem

end CallFlow
