import CallFlow.Analysis.Options
import CallFlow.FileSystem
import CallFlow.Text.Quoted
import CallFlow.Toml.Document

/-!
# Configuration

A configuration holds patterns of paths and options of the analysis. It is read from a TOML
document, which is looked for in a directory and in those above it. Of several faults in a document
the first one is told; keys without a meaning are no fault, but they are warned of.
-/

namespace CallFlow

structure Config where
  /-- Patterns of paths that are taken back. -/
  includes : List String := []
  /-- Patterns of paths that are dropped. -/
  excludes : List String := []
  analysis : AnalysisOptions := {}
deriving DecidableEq, Repr, Inhabited

namespace Config

/-- The texts of the filters that a configuration stands for: what it drops, and then what it takes
back. -/
def filters (config : Config) : List String :=
  config.excludes.map ("-" ++ ·) ++ config.includes.map ("+" ++ ·)

/-! ### Faults -/

/-- What a value should have been. -/
inductive Expected
  | sequence
  | string
  | boolean
  | analysisOptions
deriving DecidableEq, Repr, Inhabited

def Expected.text : Expected → String
  | .sequence => "a sequence"
  | .string => "a string"
  | .boolean => "a boolean"
  | .analysisOptions => "struct AnalysisConfig"

/-- Why a table is no configuration. -/
inductive Fault
  | wrongType (found : Toml.Value) (expected : Expected)
  | unknownStrategy (name : String)
  /-- The strategy is neither a text nor a table. -/
  | strategyForm
  /-- A table in place of a strategy has not one key. -/
  | strategyCount (keys : Nat)
  /-- A table in place of a strategy says more than its name. -/
  | strategyContent (found : Toml.Value)
deriving Repr, Inhabited

/-- The kind of a value, and the value itself if it is short. -/
def shownValue : Toml.Value → String
  | .string s => "string " ++ Text.quoted s
  | .integer i => "integer `" ++ toString i ++ "`"
  | .float x => "floating point `" ++ x.text ++ "`"
  | .boolean b => "boolean `" ++ toString b ++ "`"
  | .array _ => "sequence"
  | .date | .table _ => "map"

/-- What is said of a value that should have been an empty table. -/
def contentMessage : Toml.Value → String
  | .string _ => "expected table, found string"
  | .integer _ => "expected table, found integer"
  | .float _ => "expected table, found float"
  | .boolean _ => "expected table, found boolean"
  | .date => "expected table, found datetime"
  | .array _ | .table _ => "expected empty table"

def Fault.message : Fault → String
  | .wrongType found expected =>
    "invalid type: " ++ shownValue found ++ ", expected " ++ expected.text
  | .unknownStrategy name => "unknown variant `" ++ name ++ "`, expected `demand` or `full`"
  | .strategyForm => "wanted string or table"
  | .strategyCount 0 => "wanted exactly 1 element, found 0 elements"
  | .strategyCount _ => "wanted exactly 1 element, more than 1 element"
  | .strategyContent found => contentMessage found

/-! ### Reading values -/

def textOf : Toml.Value → Except Fault String
  | .string s => .ok s
  | v => .error (.wrongType v .string)

def textsOf : Toml.Value → Except Fault (List String)
  | .array elements => elements.mapM textOf
  | v => .error (.wrongType v .sequence)

def booleanOf : Toml.Value → Except Fault Bool
  | .boolean b => .ok b
  | v => .error (.wrongType v .boolean)

/-- The strategy of a name, which has to be written as it is shown. -/
def namedStrategy (name : String) : Except Fault Strategy :=
  if name = Strategy.demand.text then .ok .demand
  else if name = Strategy.full.text then .ok .full
  else .error (.unknownStrategy name)

/-- A strategy is given by its name, or by a table with the name as its only key. -/
def strategyOf : Toml.Value → Except Fault Strategy
  | .string name => namedStrategy name
  | .table [(name, content)] => do
    let strategy ← namedStrategy name
    match content with
    | .table [] | .array [] => return strategy
    | v => .error (.strategyContent v)
  | .table entries => .error (.strategyCount entries.length)
  | _ => .error .strategyForm

/-- Sets the option that a key names. -/
def setOption (options : AnalysisOptions) (entry : String × Toml.Value) :
    Except Fault AnalysisOptions := do
  if entry.1 = "strategy" then return { options with strategy := ← strategyOf entry.2 }
  else if entry.1 = "natives" then return { options with natives := ← booleanOf entry.2 }
  else return options

/-- The options of an analysis, by their keys or one after the other. -/
def analysisOf : Toml.Value → Except Fault AnalysisOptions
  | .table entries => entries.foldlM setOption {}
  | .array [] => .ok {}
  | .array [strategy] => return { strategy := ← strategyOf strategy }
  | .array (strategy :: natives :: _) => do
    let strategy ← strategyOf strategy
    return { strategy, natives := ← booleanOf natives }
  | .date => .ok {}
  | v => .error (.wrongType v .analysisOptions)

/-- Sets what a key of the document names. -/
def setEntry (config : Config) (entry : String × Toml.Value) : Except Fault Config := do
  if entry.1 = "include" then return { config with includes := ← textsOf entry.2 }
  else if entry.1 = "exclude" then return { config with excludes := ← textsOf entry.2 }
  else if entry.1 = "analysis" then return { config with analysis := ← analysisOf entry.2 }
  else return config

/-- The configuration that a table describes. -/
def ofTable (table : Toml.Table) : Except Fault Config :=
  table.foldlM setEntry {}

/-! ### Keys without a meaning -/

/-- The keys that a table may have, if its own key has a meaning. -/
def innerKeys? (key : String) : Option (List String) :=
  if key = "include" ∨ key = "exclude" then some []
  else if key = "analysis" then some ["strategy", "natives"]
  else none

/-- A key without a meaning, and the key of the table in which it stands. -/
structure UnknownKey where
  table : Option String
  key : String
deriving DecidableEq, Repr, Inhabited

def UnknownKey.message : UnknownKey → String
  | ⟨none, key⟩ => "Unknown config option: '" ++ key ++ "'"
  | ⟨some table, key⟩ => "Unknown config option in [" ++ table ++ "]: '" ++ key ++ "'"

/-- The entries of a table in the order of their keys. -/
def sorted (table : Toml.Table) : Toml.Table :=
  table.mergeSort fun a b => decide (¬ b.1 < a.1)

/-- The keys without a meaning, those of an inner table at the place of its key. -/
def unknownKeys (table : Toml.Table) : List UnknownKey :=
  (sorted table).flatMap fun (key, value) =>
    match innerKeys? key, value with
    | none, _ => [⟨none, key⟩]
    | some known, .table entries =>
      (sorted entries).filterMap fun (inner, _) =>
        if known.contains inner then none else some ⟨some key, inner⟩
    | some _, _ => []

/-! ### Files -/

/-- The name of the file that holds a configuration. -/
def fileName : String := "jscg.toml"

/-- The configuration that is written for a start. -/
def template : String :=
  "# jscg configuration\n\n" ++
  "# Regular expressions matched against each input path. `include` re-adds\n" ++
  "# files removed by `exclude`.\n" ++
  "include = []\n" ++
  "exclude = [\"node_modules\", \"\\\\.min\\\\.js$\"]\n\n" ++
  "[analysis]\n" ++
  "# \"demand\" or \"full\" (full currently runs demand)\n" ++
  "strategy = \"demand\"\n" ++
  "# Seed built-in functions such as Math.log and Array.prototype.map\n" ++
  "natives = true\n"

/-- Why a configuration cannot be taken from a file. -/
inductive Error
  | unreadable (path : Path) (cause : ReadError)
  | notToml (path : Path)
  | unfit (path : Path) (cause : Fault)
deriving Repr, Inhabited

def Error.message : Error → String
  | .unreadable path cause =>
    "Failed to read config file '" ++ path.shown ++ "': " ++ cause.message
  | .notToml path => "Invalid TOML in '" ++ path.shown ++ "': malformed document"
  | .unfit path cause => "Invalid TOML in '" ++ path.shown ++ "': " ++ cause.message

/-- What the user is told of a configuration that is in use all the same. -/
inductive Warning
  | unknownKey (key : UnknownKey)
  | usesDefaults (error : Error)
deriving Repr, Inhabited

def Warning.message : Warning → String
  | .unknownKey key => key.message
  | .usesDefaults error => error.message ++ "; using defaults"

/-- A configuration with what there is to say of it. -/
structure Loaded where
  config : Config := {}
  warnings : List Warning := []
deriving Repr, Inhabited

/-- Looks for a configuration in a directory, and in at most `n` directories above it. -/
def findFrom (fs : FileSystem) : Nat → Path → Option Path
  | n, dir =>
    let file := dir.join ⟨fileName⟩
    if fs.contains file then some file
    else
      match n, dir.parent? with
      | n + 1, some above => findFrom fs n above
      | _, _ => none

/-- The file of the configuration for a directory: the nearest one in it or in the directories
above it, as far as the path names them. -/
def find? (fs : FileSystem) (dir : Path) : Option Path :=
  findFrom fs dir.text.length dir

/-- The directory from which the configuration for an input path is looked for. -/
def searchStart (fs : FileSystem) (input : Path) : Path :=
  if fs.isFile input then input.parent?.getD ⟨"."⟩ else input

/-- The configuration that a file holds. -/
def load (fs : FileSystem) (path : Path) : Except Error Loaded :=
  match fs.read path with
  | .error cause => .error (.unreadable path cause)
  | .ok text =>
    match Toml.Table.ofText? text with
    | none => .error (.notToml path)
    | some table =>
      match ofTable table with
      | .error fault => .error (.unfit path fault)
      | .ok config => .ok ⟨config, (unknownKeys table).map .unknownKey⟩

/-- The configuration for a directory. Without a file it is the default one, and so it is, with a
warning, if the file holds none. -/
def loadFor (fs : FileSystem) (dir : Path) : Loaded :=
  match find? fs dir with
  | none => {}
  | some path =>
    match load fs path with
    | .ok loaded => loaded
    | .error error => ⟨{}, [.usesDefaults error]⟩

end Config

end CallFlow
