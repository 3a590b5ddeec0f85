import CallFlow.Path
import CallFlow.Text.CharClass

/-!
# Filters

A filter is a sign and a regular expression, of whatever kind the engine at hand compiles. Filters
are applied to each file of a list in turn: a file that a `-` filter matches is dropped, one that
a `+` filter matches is taken back.
-/

namespace CallFlow

inductive FilterAction
  /-- `+` takes a file back. -/
  | add
  /-- `-` drops a file. -/
  | remove
deriving DecidableEq, Repr, Inhabited

def FilterAction.sign : FilterAction → String
  | .add => "+"
  | .remove => "-"

/-- What compiles the texts of regular expressions, as far as they are well formed, and looks for
matches of a compiled one in a text. -/
structure RegexEngine (ρ : Type) where
  compile? : String → Option ρ
  isMatch : ρ → String → Bool

structure Filter (ρ : Type) where
  action : FilterAction
  /-- The text of the expression. -/
  pattern : String
  regex : ρ
deriving DecidableEq, Repr, Inhabited

/-- Why a text is no filter. -/
inductive FilterError
  | noSign (spec : String)
  | badPattern (spec : String)
deriving DecidableEq, Repr, Inhabited

def FilterError.message : FilterError → String
  | .noSign spec => "Invalid filter '" ++ spec ++ "'. Filters start with '+' or '-'"
  | .badPattern spec => "Invalid regular expression in filter '" ++ spec ++ "'"

namespace Filter

variable {ρ : Type} (engine : RegexEngine ρ)

/-- A text without the white space around it. -/
def trim (cs : List Char) : List Char :=
  ((cs.dropWhile Text.isWhiteSpace).reverse.dropWhile Text.isWhiteSpace).reverse

/-- The action that a character is the sign of. -/
def actionOf? (c : Char) : Option FilterAction :=
  if c = '+' then some .add else if c = '-' then some .remove else none

/-- The filter that a text stands for. -/
def ofText (spec : String) : Except FilterError (Filter ρ) :=
  match spec.toList with
  | [] => .error (.noSign spec)
  | c :: rest =>
    match actionOf? c with
    | none => .error (.noSign spec)
    | some action =>
      let pattern := String.ofList (trim rest)
      match engine.compile? pattern with
      | some regex => .ok { action, pattern, regex }
      | none => .error (.badPattern spec)

/-- The filters that texts stand for; the first text that is no filter is the error. -/
def ofTexts (specs : List String) : Except FilterError (List (Filter ρ)) :=
  specs.mapM (ofText engine)

/-- Whether the expression of a filter matches a file, as its path is shown. -/
def isMatch (filter : Filter ρ) (file : Path) : Bool :=
  engine.isMatch filter.regex file.shown

/-- Applies a filter to a file that was put at the end of the list `kept`. -/
def applyTo (file : Path) (kept : List Path) (filter : Filter ρ) : List Path :=
  if filter.isMatch engine file then
    match filter.action with
    | .remove => kept.filter fun other => !other.sameAs file
    | .add => kept ++ [file]
  else kept

/-- Puts a file at the end of a list and applies all filters to it. -/
def applyAll (filters : List (Filter ρ)) (kept : List Path) (file : Path) : List Path :=
  filters.foldl (applyTo engine file) (kept ++ [file])

/-- The files that filters leave, in order. Where there are no filters the list stays as it is. -/
def select (filters : List (Filter ρ)) (files : List Path) : List Path :=
  if filters.isEmpty then files
  else Path.dedup (files.foldl (applyAll engine filters) [])

end Filter

end CallFlow
