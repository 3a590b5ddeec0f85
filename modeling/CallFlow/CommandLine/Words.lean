/-!
# Words of a command line

Flags, options with a value and plain words set the parts of a record one after the other. An
option has its value behind a `=`, or in the next word; short names may stand together behind one
dash. Behind `--` every word is plain.
-/

namespace CallFlow.CommandLine

/-- Why nothing is run. -/
inductive Stop
  /-- The words cannot be understood. -/
  | misuse
  /-- The user asked for an explanation. -/
  | help
  | version
deriving DecidableEq, Repr, Inhabited

/-- A flag with its names. It can be set once. -/
structure Flag (α : Type) where
  long : String
  short : Option Char := none
  set : α → Except Stop α

/-- An option that takes a value. -/
structure ValueOption (α : Type) where
  long : String
  short : Option Char := none
  /-- Whether the next word is the value even if it begins with a dash. -/
  takesDashes : Bool := false
  set : String → α → Except Stop α

/-- What may be said at one level of a command line. -/
structure Level (α : Type) where
  flags : List (Flag α)
  options : List (ValueOption α)
  plain : String → α → Except Stop α

/-- What is known after some words. -/
structure Progress (α : Type) where
  record : α
  /-- The option whose value is the next word. -/
  awaiting : Option (ValueOption α) := none
  /-- Whether `--` was among the words. -/
  plainOnly : Bool := false

namespace Level

variable {α : Type}

/-- The name and the value in `name=value`. -/
def splitValue (cs : List Char) : List Char × Option (List Char) :=
  match cs.dropWhile (· ≠ '=') with
  | _ :: value => (cs.takeWhile (· ≠ '='), some value)
  | [] => (cs, none)

/-- Understands a word behind its two dashes. -/
def longWord (level : Level α) (record : α) (cs : List Char) : Except Stop (Progress α) :=
  let (chars, value) := splitValue cs
  let name := String.ofList chars
  match level.flags.find? (·.long = name), level.options.find? (·.long = name), value with
  | some flag, _, none => do return { record := ← flag.set record }
  | none, some option, some value => do
    return { record := ← option.set (String.ofList value) record }
  | none, some option, none => .ok { record, awaiting := some option }
  | _, _, _ => .error .misuse

/-- Understands the short names behind one dash. The value of an option may follow its name. -/
def shortNames (level : Level α) : α → List Char → Except Stop (Progress α)
  | record, [] => .ok { record }
  | record, c :: rest =>
    match level.flags.find? (·.short = some c), level.options.find? (·.short = some c) with
    | some flag, _ => do level.shortNames (← flag.set record) rest
    | none, some option =>
      match rest with
      | [] => .ok { record, awaiting := some option }
      | '=' :: value => do return { record := ← option.set (String.ofList value) record }
      | value => do return { record := ← option.set (String.ofList value) record }
    | none, none => .error .misuse

/-- Understands a word that no option awaits. -/
def newWord (level : Level α) (record : α) (w : String) : Except Stop (Progress α) :=
  match w.toList with
  | ['-', '-'] => .ok { record, plainOnly := true }
  | '-' :: '-' :: name => level.longWord record name
  | ['-'] => do return { record := ← level.plain w record }
  | '-' :: names => level.shortNames record names
  | _ => do return { record := ← level.plain w record }

/-- Whether a word cannot be the value of an option that takes no dashes. -/
def hasDash (w : String) : Bool :=
  w ≠ "-" && w.toList.head? = some '-'

/-- Understands one more word. -/
def word (level : Level α) (progress : Progress α) (w : String) : Except Stop (Progress α) :=
  match progress.awaiting with
  | some option =>
    if hasDash w && !option.takesDashes then .error .misuse
    else do return { record := ← option.set w progress.record }
  | none =>
    if progress.plainOnly then do
      return { progress with record := ← level.plain w progress.record }
    else level.newWord progress.record w

/-- The record at the end of the words; no option may be without its value. -/
def finish (progress : Progress α) : Except Stop α :=
  match progress.awaiting with
  | some _ => .error .misuse
  | none => .ok progress.record

/-- Understands all words. -/
def words (level : Level α) (start : α) (ws : List String) : Except Stop α := do
  finish (← ws.foldlM level.word { record := start })

end Level

end CallFlow.CommandLine
