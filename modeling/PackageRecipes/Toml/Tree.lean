import PackageRecipes.Toml.Value

/-! The tree of a document while it is read. Tables remember how they came to be, as
that decides what may still be added to them. -/

namespace PackageRecipes.Toml

/-- How a table came to be: by a header or braces of its own, as the parent in some
header, or as the parent in a dotted key. -/
inductive Origin where
  | explicit
  | header
  | dotted
  deriving DecidableEq

inductive Item where
  | value (value : Value)
  | table (origin : Origin) (entries : List (String × Item))
  | tables (elements : List (List (String × Item)))

abbrev Entries := List (String × Item)

mutual

def Item.toValue : Item → Value
  | .value value => value
  | .table _ entries => .table (entryValues entries)
  | .tables elements => .array (tableValues elements)

def entryValues : Entries → List (String × Value)
  | [] => []
  | (key, item) :: rest => (key, item.toValue) :: entryValues rest

def tableValues : List Entries → List Value
  | [] => []
  | entries :: rest => .table (entryValues entries) :: tableValues rest

end

namespace Entries

def find? (key : String) (entries : Entries) : Option Item :=
  (List.find? (fun entry => entry.1 == key) entries).map (·.2)

def put (key : String) (item : Item) : Entries → Entries
  | [] => [(key, item)]
  | (other, old) :: rest =>
    if other == key then (key, item) :: rest else (other, old) :: put key item rest

def remove (key : String) (entries : Entries) : Entries :=
  entries.filter fun entry => entry.1 != key

/-- What a change does to the table at the end of a path. Tables on the way that are
not there yet come to be; of an array of tables the last one is meant. A dotted
key may not go through a table that has a header of its own. -/
def changeAt (parent : Origin) (change : Origin → Entries → Option Entries) :
    List String → Origin → Entries → Option Entries
  | [], origin, entries => change origin entries
  | key :: path, _, entries =>
    match entries.find? key with
    | none => do
      let child ← changeAt parent change path parent []
      return put key (.table parent child) entries
    | some (.table origin inner) =>
      if parent = .dotted ∧ origin = .explicit then none
      else do
        let child ← changeAt parent change path origin inner
        return put key (.table origin child) entries
    | some (.tables elements) => do
      let last ← elements.getLast?
      let child ← changeAt parent change path .explicit last
      return put key (.tables (elements.dropLast ++ [child])) entries
    | some (.value _) => none

/-- Adds a value under a key. Under a dotted key the last table has to be one that
dotted keys made. -/
def addValue (path : List String) (key : String) (value : Item) (entries : Entries) :
    Option Entries :=
  changeAt .dotted
    (fun origin inner =>
      if (origin = .dotted ↔ path = []) ∨ (inner.find? key).isSome then none
      else some (inner ++ [(key, value)]))
    path .explicit entries

/-- Adds the table of a header. A table that only was the parent in other headers
gets its own entries now. -/
def addTable (path : List String) (key : String) (fill : Entries → Option Entries)
    (entries : Entries) : Option Entries :=
  changeAt .header
    (fun _ inner =>
      match inner.find? key with
      | none => do return inner ++ [(key, .table .explicit (← fill []))]
      | some (.table .header existing) => do
        return remove key inner ++ [(key, .table .explicit (← fill existing))]
      | some _ => none)
    path .explicit entries

def addElement (path : List String) (key : String) (fill : Entries → Option Entries)
    (entries : Entries) : Option Entries :=
  changeAt .header
    (fun _ inner =>
      match inner.find? key with
      | none => do return inner ++ [(key, .tables [← fill []])]
      | some (.tables elements) => do return put key (.tables (elements ++ [← fill []])) inner
      | some _ => none)
    path .explicit entries

end Entries

end PackageRecipes.Toml
