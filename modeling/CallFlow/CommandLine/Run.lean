import CallFlow.Analysis
import CallFlow.CommandLine.Command
import CallFlow.Config
import CallFlow.Discovery.Files
import CallFlow.Discovery.Filter
import CallFlow.Report.Edges
import CallFlow.Regex.Parse
import CallFlow.Report.Lines

/-!
# Running commands

A command turns a file system into another one, writes text on two channels and ends with a code.
What was written before a failure stays.
-/

namespace CallFlow.CommandLine

/-- What a command finds around it. -/
structure Environment where
  files : FileSystem
  /-- Whether the user can see colors. -/
  colored : Bool := false
  /-- The times of the phases in microseconds, as far as they are measured. -/
  times : List Nat := []
deriving Repr, Inhabited

/-- Why a command fails. -/
inductive Failure
  | filter (cause : FilterError)
  | noFiles
  | unreadable (path : Path)
  | endpoint (cause : EndpointError)
  | outputNotCreated (path : Path)
  | configExists (path : Path)
  | configNotWritten (path : Path)
deriving Repr, Inhabited

def Failure.message : Failure → String
  | .filter cause => cause.message
  | .noFiles => "Input file list is empty"
  | .unreadable path => "Failed to read '" ++ path.shown ++ "'"
  | .endpoint cause => cause.message
  | .outputNotCreated path => "Failed to create output file '" ++ path.shown ++ "'"
  | .configExists path =>
    "Config file '" ++ path.shown ++ "' already exists. Use --force to overwrite."
  | .configNotWritten path => "Failed to write '" ++ path.shown ++ "'"

/-- What a command has done so far. -/
structure Effects where
  stdout : String := ""
  stderr : String := ""
  files : FileSystem
deriving Repr, Inhabited

/-- What is left of a command at its end. -/
structure Outcome where
  code : Nat
  effects : Effects
deriving Repr, Inhabited

/-- A part of a command: it adds to the effects, and it may fail. -/
abbrev CommandM := ExceptT Failure (StateM Effects)

namespace CommandM

def print (text : String) : CommandM Unit :=
  modify fun e => { e with stdout := e.stdout ++ text }

/-- Writes a text on the second channel. -/
def report (text : String) : CommandM Unit :=
  modify fun e => { e with stderr := e.stderr ++ text }

/-- Reports a line that begins with the word `warning:`. -/
def warn (colored : Bool) (text : String) : CommandM Unit :=
  report (Report.styled colored .boldYellow "warning:" ++ " " ++ text ++ "\n")

/-- Writes a file, or fails. -/
def write (path : Path) (text : String) (failure : Failure) : CommandM Unit := do
  match (← get).files.write? path text with
  | some files => modify fun e => { e with files }
  | none => throw failure

/-- Goes on with a result, or fails with the failure of its error. -/
def orFail {ε α : Type} (failure : ε → Failure) : Except ε α → CommandM α
  | .ok a => return a
  | .error e => throw (failure e)

/-- Runs an action on a file system. A failure is reported and ends with the code 1. -/
def run (action : CommandM Unit) (files : FileSystem) : Outcome :=
  match (ExceptT.run action).run { files } with
  | (.ok (), effects) => ⟨0, effects⟩
  | (.error failure, effects) =>
    ⟨1, { effects with stderr := effects.stderr ++ "Error: " ++ failure.message ++ "\n" }⟩

end CommandM

open CommandM

/-! ### Building -/

/-- The source files that all filters leave: those of the configuration come first, then those of
the command line. -/
def selected {ρ : Type} (engine : RegexEngine ρ) (walker : Discovery.Walker) (fs : FileSystem)
    (config : Config) (specs : List String) (paths : List Path) : Except Failure (List Path) :=
  match Filter.ofTexts engine (config.filters ++ specs) with
  | .error cause => .error (.filter cause)
  | .ok filters =>
    match Filter.select engine filters (Discovery.collect walker fs paths) with
    | [] => .error .noFiles
    | files => .ok files

/-- The source file at a path, under the path as it is shown. -/
def sourceAt (fs : FileSystem) (path : Path) : Except Failure SourceFile :=
  match fs.read path with
  | .ok text => .ok (SourceFile.ofText ⟨path.shown⟩ text)
  | .error _ => .error (.unreadable path)

/-- The configuration for the first input path. -/
def configFor (fs : FileSystem) (paths : List Path) : Config.Loaded :=
  match paths with
  | first :: _ => Config.loadFor fs (Config.searchStart fs first)
  | [] => Config.loadFor fs ⟨"."⟩

/-- Prints what the options ask for. -/
def printReports (colored : Bool) (options : BuildOptions) (analysis : Analysis) :
    CommandM Unit := do
  if options.flowGraph then print (Report.flowGraph analysis)
  if options.callbackCount then print (Report.callbackCount analysis)
  if options.dependencies then print (Report.dependencies analysis)
  if options.callGraph then
    print (← orFail .endpoint (Report.callGraph colored analysis))

/-- Writes the edges to the file that the options name. -/
def writeEdges (options : BuildOptions) (analysis : Analysis) : CommandM Unit := do
  match options.output with
  | none => return
  | some output =>
    let edges ← orFail .endpoint analysis.edges
    let path := Report.outputPath output
    write path (Report.edgesText Json.Value.text edges) (.outputNotCreated path)

/-- Reports which files could not be understood, the times, and the counts if no graph is
printed. -/
def reportAnalysis (env : Environment) (colored : Bool) (options : BuildOptions)
    (analysis : Analysis) : CommandM Unit := do
  for path in analysis.parseFailures do
    warn colored ("could not parse " ++ path.text)
  if options.timings then report (Report.timings colored env.times)
  if !options.callGraph && !options.flowGraph then report (Report.summary colored analysis)

/-- The paths that are warned of because they lead nowhere. Where a filter is malformed the paths
are not looked at. -/
def warnedOf (fs : FileSystem) (paths : List Path) : Except Failure (List Path) → List Path
  | .error (.filter _) => []
  | _ => Discovery.missing fs paths

/-- Builds the call graph of files. -/
def buildGraph (env : Environment) (options : BuildOptions) : CommandM Unit := do
  let colored := env.colored && !options.noColor
  let fs := env.files
  let loaded := configFor fs options.paths
  for warning in loaded.warnings do
    warn colored warning.message
  let files := selected Regex.engine fs.walkFrom fs loaded.config options.filters options.paths
  for path in warnedOf fs options.paths files do
    warn colored ("The path \"" ++ path.shown ++ "\" does not exist.")
  let sources ← orFail id ((← orFail id files).mapM (sourceAt fs))
  let analysis := Analysis.run
    { loaded.config.analysis with
      strategy := options.strategy.getD loaded.config.analysis.strategy } sources
  printReports colored options analysis
  writeEdges options analysis
  reportAnalysis env colored options analysis

/-! ### Starting a configuration -/

/-- Writes a configuration for a start into a directory. -/
def writeTemplate (env : Environment) (options : InitOptions) : CommandM Unit := do
  let path := (options.dir.getD ⟨"."⟩).join ⟨Config.fileName⟩
  if env.files.contains path && !options.force then throw (.configExists path)
  write path Config.template (.configNotWritten path)
  print (Report.styled env.colored .boldGreen "✓" ++ " Created " ++
    Report.styled env.colored .cyan path.shown ++ " configuration file\n")

/-! ### Command lines -/

/-- Runs a command. -/
def Command.run (env : Environment) : Command → Outcome
  | .build options => (buildGraph env options).run env.files
  | .init options => (writeTemplate env options).run env.files

/-- The code that a command line ends with if it runs no command. -/
def Stop.code : Stop → Nat
  | .misuse => 2
  | .help | .version => 0

/-- Runs the command that a command line asks for. -/
def runWords (env : Environment) (ws : List String) : Except Stop Outcome :=
  (Command.ofWords ws).map (Command.run env)

end CallFlow.CommandLine
