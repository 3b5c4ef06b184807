import ElmAtlas.Toml.Value

/-!
# The outline of a document

While a document is read, its tables remember how they came about, because that
decides what may still be added.  A table named by a header is complete once
another header follows; a table that a header only passes through may still get
a header of its own; a table made by a dotted key may grow by dotted keys only.
-/

namespace ElmAtlas.Toml

inductive Origin where
  | header
  | passed
  | dotted
  deriving DecidableEq, Repr

inductive Item where
  | value (content : Value)
  | table (origin : Origin) (entries : List (String × Item))
  | tables (elements : List (List (String × Item)))

namespace Item

mutual

/-- Forgets how the tables came about. -/
def toValue : Item → Value
  | .value scalar => scalar
  | .table _ entries => .table (entriesToValues entries)
  | .tables elements => .array (elementsToValues elements)

def entriesToValues : List (String × Item) → List (String × Value)
  | [] => []
  | (key, item) :: rest => (key, item.toValue) :: entriesToValues rest

def elementsToValues : List (List (String × Item)) → List Value
  | [] => []
  | entries :: rest => .table (entriesToValues entries) :: elementsToValues rest

end

end Item

namespace Outline

abbrev Entries := List (String × Item)

/-- Replaces the item of a key that is there. -/
def replace (key : String) (item : Item) : Entries → Entries
  | [] => []
  | (head, old) :: rest =>
      if head == key then (head, item) :: rest else (head, old) :: replace key item rest

/-- Changes the table at the end of a path of keys.  Missing tables are made
with origin `made`; of an array of tables the last element counts.  A dotted
path does not enter a table that has a header. -/
def change (made : Origin) (action : Origin → Entries → Option Entries) :
    (path : List String) → (origin : Origin) → Entries → Option Entries
  | [], origin, entries => action origin entries
  | key :: path, _, entries =>
      match entries.lookup key with
      | none => do
          let inner ← change made action path made []
          return entries ++ [(key, .table made inner)]
      | some (.value _) => none
      | some (.table origin inner) =>
          if made == .dotted && origin == .header then
            none
          else do
            return replace key (.table origin (← change made action path origin inner)) entries
      | some (.tables elements) =>
          match elements.getLast? with
          | none => none
          | some last => do
              let inner ← change made action path .header last
              return replace key (.tables (elements.dropLast ++ [inner])) entries

/-- Adds a value under a key that is not taken yet.  Behind a dotted path the
table must have been made by dotted keys. -/
def insertAt (path : List String) (key : String) (value : Value) (entries : Entries) :
    Option Entries :=
  change .dotted
    (fun origin inner =>
      if !path.isEmpty && origin != .dotted then none
      else if (inner.lookup key).isSome then none
      else some (inner ++ [(key, .value value)]))
    path .header entries

/-- Adds a value under a dotted key, whose last part names the value. -/
def insert (keys : List String) (value : Value) (entries : Entries) : Option Entries :=
  match keys.getLast? with
  | some key => insertAt keys.dropLast key value entries
  | none => none

/-- Opens the table of a header. -/
def openTable (keys : List String) (entries : Entries) : Option Entries := do
  let key ← keys.getLast?
  change .passed
    (fun _ inner =>
      match inner.lookup key with
      | none => some (inner ++ [(key, .table .header [])])
      | some (.table .passed found) => some (replace key (.table .header found) inner)
      | some _ => none)
    keys.dropLast .header entries

/-- Opens a new element of an array of tables. -/
def openElement (keys : List String) (entries : Entries) : Option Entries := do
  let key ← keys.getLast?
  change .passed
    (fun _ inner =>
      match inner.lookup key with
      | none => some (inner ++ [(key, .tables [[]])])
      | some (.tables elements) => some (replace key (.tables (elements ++ [[]])) inner)
      | some _ => none)
    keys.dropLast .header entries

/-- Adds a value below the table that was opened last. -/
def insertBelow (header keys : List String) (value : Value) (entries : Entries) :
    Option Entries :=
  change .passed (fun _ inner => insert keys value inner) header .header entries

end Outline

end ElmAtlas.Toml
