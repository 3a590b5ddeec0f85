import CallFlow.Toml.Value

/-!
# Assembling TOML tables

A document is assembled from pairs, whose keys may be paths, and from headers that open a table or
the next table of an array. No key is given twice: a table is opened by a header at most once, and
it is extended by paths of keys only while it was made by such paths itself.
-/

namespace CallFlow.Toml

/-- What made a table. -/
inductive Origin
  /-- The header of the table itself. -/
  | header
  /-- The header of a table inside it. -/
  | longerHeader
  /-- A path of keys that leads through it. -/
  | keys
deriving DecidableEq, Repr, Inhabited

/-- What a key stands for while a document is assembled. -/
inductive Item
  | value (value : Value)
  | table (origin : Origin) (entries : List (String × Item))
  /-- Tables of an array that headers opened. -/
  | tables (elements : List (List (String × Item)))
deriving Inhabited

/-- Keys with what they stand for. -/
abbrev Items := List (String × Item)

/-- A value with the path of keys that leads to it. -/
structure Pair where
  path : List String
  key : String
  value : Value
deriving Repr, Inhabited

/-- The header of a table, or of the next table of an array. -/
structure Header where
  path : List String
  key : String
  isArray : Bool
deriving DecidableEq, Repr, Inhabited

/-- A header with the pairs below it. -/
structure Section where
  header : Header
  pairs : List Pair
deriving Repr, Inhabited

namespace Items

def get? (items : Items) (key : String) : Option Item :=
  (items.find? fun entry => entry.1 = key).map Prod.snd

/-- Puts another item at the place of a key. -/
def replace (items : Items) (key : String) (item : Item) : Items :=
  items.map fun entry => if entry.1 = key then (key, item) else entry

def erase (items : Items) (key : String) : Items :=
  items.filter fun entry => entry.1 ≠ key

/-- Changes the table to which a path leads. Tables that are missing on the way are made, with the
given origin; in an array the path leads to the last table. A path of keys does not lead through a
table that has a header. -/
def changeAt (made : Origin) (change : Origin → Items → Option Items) :
    Origin → List String → Items → Option Items
  | origin, [], items => change origin items
  | _, key :: path, items =>
    match items.get? key with
    | none =>
      (changeAt made change made path []).map fun inner => items ++ [(key, .table made inner)]
    | some (.table origin inner) =>
      if made = .keys ∧ origin = .header then none
      else (changeAt made change origin path inner).map fun inner =>
        items.replace key (.table origin inner)
    | some (.tables elements) =>
      (changeAt made change .header path (elements.getLast?.getD [])).map fun inner =>
        items.replace key (.tables (elements.dropLast ++ [inner]))
    | some (.value _) => none

/-- Gives a key its value. A path of keys may only end in a table that such paths made. -/
def addPair (items : Items) (pair : Pair) : Option Items :=
  let add (origin : Origin) (inner : Items) : Option Items :=
    if pair.path ≠ [] ∧ origin ≠ .keys then none
    else if (inner.get? pair.key).isSome then none
    else some (inner ++ [(pair.key, .value pair.value)])
  changeAt .keys add .header pair.path items

def addPairs (items : Items) (pairs : List Pair) : Option Items :=
  pairs.foldlM addPair items

/-- Puts the table of a section into the table that holds it. A table that longer headers have made
moves to the end. -/
def addTable (part : Section) (items : Items) : Option Items :=
  let key := part.header.key
  if part.header.isArray then
    match items.get? key with
    | none => (addPairs [] part.pairs).map fun inner => items ++ [(key, .tables [inner])]
    | some (.tables elements) =>
      (addPairs [] part.pairs).map fun inner => items.replace key (.tables (elements ++ [inner]))
    | some _ => none
  else
    match items.get? key with
    | none => (addPairs [] part.pairs).map fun inner => items ++ [(key, .table .header inner)]
    | some (.table .longerHeader inner) =>
      (addPairs inner part.pairs).map fun inner => items.erase key ++ [(key, .table .header inner)]
    | some _ => none

def addSection (items : Items) (part : Section) : Option Items :=
  changeAt .longerHeader (fun _ => addTable part) .header part.header.path items

end Items

mutual

/-- The value that an item stands for at the end. -/
def Item.toValue : Item → Value
  | .value v => v
  | .table _ entries => .table (Items.toTable entries)
  | .tables elements => .array (Items.toElements elements)

/-- The values of all items. -/
def Items.toTable : List (String × Item) → Table
  | [] => []
  | (key, item) :: rest => (key, item.toValue) :: Items.toTable rest

/-- The values of several tables. -/
def Items.toElements : List (List (String × Item)) → List Value
  | [] => []
  | entries :: rest => .table (Items.toTable entries) :: Items.toElements rest

end

/-- The table of pairs, if each has a key of its own. -/
def Table.ofPairs? (pairs : List Pair) : Option Table :=
  (Items.addPairs [] pairs).map Items.toTable

/-- The table of the pairs before the first header and of all sections. -/
def Table.ofSections? (pairs : List Pair) (sections : List Section) : Option Table := do
  let items ← Items.addPairs [] pairs
  return Items.toTable (← sections.foldlM Items.addSection items)

end CallFlow.Toml
