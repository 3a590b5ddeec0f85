import CallFlow.Path

/-!
# Resolving module specifiers

A relative specifier is looked up among the known files: the path itself first, then the path
with an extension added, then an index file in it. Other specifiers name packages, which are
not looked up.
-/

namespace CallFlow.Module

/-- The extensions that a specifier may leave out, in the order in which they are tried. -/
def extensions : List String := ["js", "jsx", "ts", "tsx", "mjs", "cjs", "mts", "cts"]

def isRelative (specifier : String) : Bool :=
  specifier = "." || specifier = ".." ||
    "./".toList.isPrefixOf specifier.toList || "../".toList.isPrefixOf specifier.toList

/-- The directory that relative specifiers in a file start from. -/
def directoryOf (file : Path) : Path :=
  file.parent?.getD ⟨""⟩

/-- The place that a relative specifier in `file` denotes. -/
def target (file : Path) (specifier : String) : Path :=
  ((directoryOf file).join ⟨specifier⟩).normalize

/-- The places at which a module may be found, in the order in which they are tried. -/
def candidates (place : Path) : List Path :=
  place :: (extensions.map fun ext => ⟨place.text ++ "." ++ ext⟩)
    ++ extensions.map fun ext => place.join ⟨"index." ++ ext⟩

/-- Known files with their numbers. Files whose paths have the same components are one file, of
which the last entry counts. -/
abbrev KnownFiles := List (Path × Nat)

/-- The number of the last known file that lies at `place`. -/
def KnownFiles.find? (known : KnownFiles) (place : Path) : Option Nat :=
  (known.reverse.find? fun entry => entry.1.components = place.components).map Prod.snd

/-- The file that a specifier in `file` leads to. -/
def resolve (known : KnownFiles) (file : Path) (specifier : String) : Option Nat :=
  if isRelative specifier then (candidates (target file specifier)).findSome? known.find?
  else none

end CallFlow.Module
