import CallFlow.CommandLine.Run

/-!
# The program

Runs the command of its arguments in the working directory. The names of the files that the command
may find stand on standard input, one on a line.
-/

namespace CallFlow.Shell

/-- The lines of a stream, without their ends. -/
partial def lines (input : IO.FS.Stream) (read : Array String) : IO (Array String) := do
  let line ← input.getLine
  if line.isEmpty then return read
  lines input (read.push (String.ofList (line.toList.filter (· != '\n'))))

/-- The names that lead to a file from the root. -/
def namesOf (file : Path) : List String :=
  file.normalComponents.filterMap fun
    | .name name => some name
    | _ => none

/-- The file at a path as an entry of a file system. -/
def entryAt (directory file : Path) : IO (List String × FileEntry) := do
  let bytes ← IO.FS.readBinFile file.text
  let content := match String.fromUTF8? bytes with
    | some text => FileContent.text text
    | none => .binary
  return (namesOf (directory.join file), .file content)

/-- The listed files, with the working directory. -/
def listedFiles : IO FileSystem := do
  let workingDirectory : Path := ⟨toString (← IO.currentDir)⟩
  let listed ← lines (← IO.getStdin) #[]
  let entries ← listed.toList.mapM fun name => entryAt workingDirectory ⟨name⟩
  return { entries := (namesOf workingDirectory, .directory) :: entries, workingDirectory }

/-- Writes what a command has written. -/
def writeChanges (earlier files : FileSystem) : IO Unit :=
  for (names, text) in files.changesSince earlier do
    IO.FS.writeFile (Path.ofComponents (.root :: names.map .name)).text text

/-- Runs a command line; the result is the code that it ends with. -/
def run (words : List String) : IO UInt32 := do
  let files ← listedFiles
  match CommandLine.runWords { files } words with
  | .error stop => return stop.code.toUInt32
  | .ok outcome =>
    IO.print outcome.effects.stdout
    IO.eprint outcome.effects.stderr
    writeChanges files outcome.effects.files
    return outcome.code.toUInt32

end CallFlow.Shell

/-- The program. -/
def main (words : List String) : IO UInt32 :=
  CallFlow.Shell.run words
