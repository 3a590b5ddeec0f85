import CallFlow.CommandLine.Words
import CallFlow.Flow.Propagation
import CallFlow.Path

/-!
# Commands

What a command line asks for: to build a call graph of files, or to write a configuration for a
start.
-/

namespace CallFlow.CommandLine

/-- How much is to be logged. -/
inductive LogLevel
  | trace
  | debug
  | info
  | warn
  | error
deriving DecidableEq, Repr, Inhabited

def LogLevel.ofText? (s : String) : Option LogLevel :=
  if s = "trace" then some .trace
  else if s = "debug" then some .debug
  else if s = "info" then some .info
  else if s = "warn" then some .warn
  else if s = "error" then some .error
  else none

/-- What is said about logging at one level of the command line. -/
structure LogOptions where
  level : Option LogLevel := none
  json : Bool := false
deriving DecidableEq, Repr, Inhabited

structure BuildOptions where
  paths : List Path := []
  strategy : Option Strategy := none
  /-- Texts of filters, in the order in which they apply. -/
  filters : List String := []
  callGraph : Bool := false
  flowGraph : Bool := false
  callbackCount : Bool := false
  dependencies : Bool := false
  output : Option Path := none
  timings : Bool := false
  noColor : Bool := false
  log : LogOptions := {}
deriving DecidableEq, Repr, Inhabited

structure InitOptions where
  dir : Option Path := none
  /-- Whether a configuration that is there already is replaced. -/
  force : Bool := false
  log : LogOptions := {}
deriving DecidableEq, Repr, Inhabited

inductive Command
  | build (options : BuildOptions)
  | init (options : InitOptions)
deriving DecidableEq, Repr, Inhabited

/-! ### Setting parts once -/

/-- Sets a flag that is not set yet. -/
def once {α : Type} (isSet : α → Bool) (set : α → α) (record : α) : Except Stop α :=
  if isSet record then .error .misuse else .ok (set record)

/-- Sets a part that has no value yet to one that can be read. -/
def onceTo {α β : Type} (get : α → Option β) (set : β → α → α) (read : String → Option β)
    (word : String) (record : α) : Except Stop α :=
  match get record, read word with
  | none, some value => .ok (set value record)
  | _, _ => .error .misuse

/-- A path is not empty. -/
def readPath (word : String) : Option Path :=
  if word.isEmpty then none else some ⟨word⟩

def readStrategy (word : String) : Option Strategy :=
  (Strategy.ofText word).toOption

/-! ### Levels -/

/-- Asking for an explanation. -/
def helpFlag {α : Type} : Flag α :=
  ⟨"help", some 'h', fun _ => .error .help⟩

/-- What may be said about logging, at every level. -/
def logFlag {α : Type} (get : α → LogOptions) (set : LogOptions → α → α) : Flag α :=
  ⟨"log-json", none, once (fun r => (get r).json) fun r => set { get r with json := true } r⟩

def logOption {α : Type} (get : α → LogOptions) (set : LogOptions → α → α) : ValueOption α :=
  ⟨"log-level", none, false,
    onceTo (fun r => (get r).level) (fun level r => set { get r with level } r) LogLevel.ofText?⟩

/-- What stands before the name of the command. -/
def rootLevel : Level LogOptions where
  flags := [helpFlag, ⟨"version", some 'V', fun _ => .error .version⟩, logFlag id fun log _ => log]
  options := [logOption id fun log _ => log]
  plain _ _ := .error .misuse

def buildLevel : Level BuildOptions where
  flags := [helpFlag,
    ⟨"cg", none, once (·.callGraph) ({ · with callGraph := true })⟩,
    ⟨"fg", none, once (·.flowGraph) ({ · with flowGraph := true })⟩,
    ⟨"count-cb", none, once (·.callbackCount) ({ · with callbackCount := true })⟩,
    ⟨"req-js", none, once (·.dependencies) ({ · with dependencies := true })⟩,
    ⟨"time", none, once (·.timings) ({ · with timings := true })⟩,
    ⟨"no-color", none, once (·.noColor) ({ · with noColor := true })⟩,
    logFlag (·.log) fun log r => { r with log }]
  options := [
    ⟨"strategy", none, false,
      onceTo (·.strategy) (fun strategy r => { r with strategy := some strategy }) readStrategy⟩,
    ⟨"filter", none, true, fun w r => .ok { r with filters := r.filters ++ [w] }⟩,
    ⟨"output", some 'o', false,
      onceTo (·.output) (fun output r => { r with output := some output }) readPath⟩,
    logOption (·.log) fun log r => { r with log }]
  plain w r :=
    match readPath w with
    | some path => .ok { r with paths := r.paths ++ [path] }
    | none => .error .misuse

def initLevel : Level InitOptions where
  flags := [helpFlag, ⟨"force", some 'f', once (·.force) ({ · with force := true })⟩,
    logFlag (·.log) fun log r => { r with log }]
  options := [logOption (·.log) fun log r => { r with log }]
  plain := onceTo (·.dir) (fun dir r => { r with dir := some dir }) readPath

/-! ### Command lines -/

namespace Command

/-- Understands the words behind `help`: at most the name of one command. -/
def helpOn : List String → Stop
  | [] => .help
  | [name] => if name = "build" ∨ name = "init" ∨ name = "help" then .help else .misuse
  | _ => .misuse

/-- The command of a name with the words behind it, if it is the name of one. -/
def named? (name : String) (ws : List String) : Option (Except Stop Command) :=
  if name = "build" then
    some do
      let options ← buildLevel.words {} ws
      if options.paths.isEmpty then .error .misuse else return .build options
  else if name = "init" then some do return .init (← initLevel.words {} ws)
  else if name = "help" then some (.error (helpOn ws))
  else none

/-- Understands words up to the name of a command, and then that command. -/
def afterWords : Progress LogOptions → List String → Except Stop Command
  | _, [] => .error .misuse
  | progress, w :: rest =>
    match if progress.awaiting.isNone && !progress.plainOnly then named? w rest else none with
    | some command => command
    | none => do afterWords (← rootLevel.word progress w) rest

/-- The command that a command line asks for. -/
def ofWords (ws : List String) : Except Stop Command :=
  afterWords { record := {} } ws

end Command

end CallFlow.CommandLine
