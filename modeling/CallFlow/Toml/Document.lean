import CallFlow.Toml.Scalar
import CallFlow.Toml.Table

/-!
# Reading TOML documents

A document is read line by line: a line holds a header, a pair, or nothing but blanks and a
comment. Arrays may go on over lines, other values not, except for strings of several lines.
-/

namespace CallFlow.Toml

/-! ### Keys -/

/-- Characters of a key without quotes. -/
def isKeyChar (c : Char) : Bool :=
  c.isAlphanum || c = '-' || c = '_'

/-- Reads one key. -/
def key? (cs : List Char) : Option (String × List Char) :=
  match cs with
  | '"' :: _ | '\x27' :: _ => (lineString? cs).map fun (text, rest) => (String.ofList text, rest)
  | _ =>
    let name := cs.takeWhile isKeyChar
    if name = [] then none else some (String.ofList name, cs.dropWhile isKeyChar)

/-- Reads keys with a `.` between them and blanks around them. -/
def keysFrom : Nat → List Char → Option (List String × List Char)
  | 0, _ => none
  | n + 1, cs => do
    let (key, rest) ← key? (skipBlanks cs)
    match skipBlanks rest with
    | '.' :: rest =>
      let (keys, rest) ← keysFrom n rest
      return (key :: keys, rest)
    | rest => return ([key], rest)

/-- How deep values may be nested, and how many keys a path may have. -/
def depthLimit : Nat := 79

/-- Reads a path of keys: what leads to the last key, and that key. -/
def keyPath? (cs : List Char) : Option (List String × String × List Char) := do
  let (keys, rest) ← keysFrom depthLimit cs
  let last ← keys.getLast?
  return (keys.dropLast, last, rest)

/-! ### Values -/

/-- A function that reads a value. -/
abbrev ValueReader := List Char → Option (Value × List Char)

/-- Reads the values of an array behind its bracket; a comma may stand before the end. -/
def elementsFrom (readValue : ValueReader) : Nat → List Char → Option (List Value × List Char)
  | 0, _ => none
  | n + 1, cs =>
    match skipLayout cs false with
    | ']' :: rest => some ([], rest)
    | cs => do
      let (v, rest) ← readValue cs
      match skipLayout rest false with
      | ',' :: rest =>
        let (more, rest) ← elementsFrom readValue n rest
        return (v :: more, rest)
      | ']' :: rest => return ([v], rest)
      | _ => none

/-- Reads a pair up to the end of its value. -/
def pair? (readValue : ValueReader) (cs : List Char) : Option (Pair × List Char) := do
  let (path, key, rest) ← keyPath? cs
  let (value, rest) ← readValue (skipBlanks (← behind? '=' rest))
  return ({ path, key, value }, rest)

/-- Reads the pairs of a table in braces from its first key. -/
def pairsFrom (readValue : ValueReader) : Nat → List Char → Option (List Pair × List Char)
  | 0, _ => none
  | n + 1, cs => do
    let (pair, rest) ← pair? readValue cs
    match skipBlanks rest with
    | ',' :: rest =>
      let (more, rest) ← pairsFrom readValue n rest
      return (pair :: more, rest)
    | '\x7d' :: rest => return ([pair], rest)
    | _ => none

/-- Reads a table in braces behind the first of them. -/
def braces? (readValue : ValueReader) (cs : List Char) : Option (Value × List Char) :=
  match skipBlanks cs with
  | '\x7d' :: rest => some (.table [], rest)
  | _ => do
    let (pairs, rest) ← pairsFrom readValue (cs.length + 1) cs
    return (.table (← Table.ofPairs? pairs), rest)

/-- Reads a value in which others are nested up to a depth. -/
def valueWithin : Nat → ValueReader
  | 0, '[' :: _ => none
  | 0, '\x7b' :: _ => none
  | depth + 1, '[' :: rest =>
    (elementsFrom (valueWithin depth) (rest.length + 1) rest).map fun (elements, rest) =>
      (.array elements, rest)
  | depth + 1, '\x7b' :: rest => braces? (valueWithin depth) rest
  | _, cs => scalar? cs

/-! ### Lines -/

inductive Line
  | blank
  | header (header : Header)
  | pair (pair : Pair)
deriving Repr, Inhabited

/-- Reads a header behind its brackets, up to the brackets that close it. -/
def header? (isArray : Bool) (cs : List Char) : Option (Line × List Char) := do
  let (path, key, rest) ← keyPath? cs
  let rest ← behind? ']' rest
  let rest ← if isArray then behind? ']' rest else some rest
  return (.header { path, key, isArray }, rest)

/-- Reads what stands on a line, up to the blanks before its end. -/
def line? (cs : List Char) : Option (Line × List Char) :=
  match skipBlanks cs with
  | [] => some (.blank, [])
  | '#' :: rest => some (.blank, '#' :: rest)
  | '[' :: '[' :: rest => header? true rest
  | '[' :: rest => header? false rest
  | rest =>
    if (lineBreak? rest).isSome then some (.blank, rest)
    else (pair? (valueWithin depthLimit) rest).map fun (pair, rest) => (.pair pair, rest)

/-- Reads lines up to the end of the text. -/
def linesOf? : Nat → List Char → Option (List Line)
  | 0, _ => none
  | n + 1, cs =>
    if cs = [] then some []
    else do
      let (line, rest) ← line? cs
      return line :: (← linesOf? n (← lineEnd? rest))

/-- The pairs before the first header, and the sections from there on. -/
def partition : List Line → List Pair × List Section
  | [] => ([], [])
  | .blank :: rest => partition rest
  | .pair pair :: rest =>
    let (pairs, sections) := partition rest
    (pair :: pairs, sections)
  | .header header :: rest =>
    let (pairs, sections) := partition rest
    ([], ⟨header, pairs⟩ :: sections)

/-- The text behind a byte order mark at its front. -/
def skipMark : List Char → List Char
  | '\ufeff' :: rest => rest
  | cs => cs

/-- The table that a document holds. -/
def Table.ofText? (text : String) : Option Table := do
  let cs := skipMark text.toList
  let (pairs, sections) := partition (← linesOf? (cs.length + 1) cs)
  Table.ofSections? pairs sections

end CallFlow.Toml
