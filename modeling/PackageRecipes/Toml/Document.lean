import PackageRecipes.Toml.Date
import PackageRecipes.Toml.Number
import PackageRecipes.Toml.Quoted
import PackageRecipes.Toml.Tree

/-! Reading TOML documents. -/

namespace PackageRecipes.Toml

/-- Arrays, inline tables and dotted keys are refused at this depth. -/
def depthLimit : Nat := 80

def isBareKeyCharacter (c : Char) : Bool :=
  Text.isAlphanumeric c || c == '_' || c == '-'

def readSimpleKey : Reader String := fun text =>
  let bare := text.takeWhile isBareKeyCharacter
  if bare.isEmpty then readShortString text
  else some (String.ofList bare, text.dropWhile isBareKeyCharacter)

def readKey : Reader (List String × String) := fun text => do
  let (parts, rest) ← readSeparated '.' (fun text => do
    let (part, rest) ← readSimpleKey (skipSpaces text)
    return (part, skipSpaces rest)) text
  let last ← parts.getLast?
  if parts.length ≥ depthLimit then none
  return ((parts.dropLast, last), rest)

def readEntry (value : Reader Value) : Reader ((List String × String) × Value) := fun text => do
  let (key, rest) ← readKey text
  match rest with
  | '=' :: rest => do
    let (value, rest) ← value (skipSpaces rest)
    return ((key, value), rest)
  | _ => none

def collect (entries : List ((List String × String) × Value)) (start : Entries) : Option Entries :=
  entries.foldlM (fun table ((path, key), value) => table.addValue path key (.value value)) start

/-- The items of an array behind its bracket. The last may have a comma after it. -/
def readArray (value : Reader Value) : Reader Value := fun text => do
  let item := fun text => do
    let (value, rest) ← value (skipLines text)
    return (value, skipLines rest)
  match readSeparated ',' item text with
  | some (items, ',' :: rest) =>
    match skipLines rest with
    | ']' :: rest => return (.array items, rest)
    | _ => none
  | some (items, ']' :: rest) => return (.array items, rest)
  | some _ => none
  | none =>
    match skipLines text with
    | ']' :: rest => return (.array [], rest)
    | _ => none

/-- The entries of an inline table behind its brace, all on one line. -/
def readInlineTable (value : Reader Value) : Reader Value := fun text => do
  let entry := fun text => do
    let (entry, rest) ← readEntry value text
    return (entry, skipSpaces rest)
  match readSeparated ',' entry text with
  | some (entries, '\x7d' :: rest) =>
    let table ← collect entries []
    return (.table (entryValues table), rest)
  | some _ => none
  | none =>
    match skipSpaces text with
    | '\x7d' :: rest => return (.table [], rest)
    | _ => none

def readScalar : Reader Value := fun text =>
  match text with
  | 't' :: 'r' :: 'u' :: 'e' :: rest => some (.boolean true, rest)
  | 'f' :: 'a' :: 'l' :: 's' :: 'e' :: rest => some (.boolean false, rest)
  | c :: _ =>
    if c == '"' || c == '\'' then
      (readString text).map fun (text, rest) => (.string text, rest)
    else if isDayStart text || isTimeStart text then
      (readDate .written text).map fun (date, rest) => (.date (String.ofList date), rest)
    else readNumber text
  | [] => none

/-- A value with so many levels of arrays and inline tables in it at most. -/
def readValue : Nat → Reader Value
  | 0, text =>
    match text with
    | '[' :: _ | '\x7b' :: _ => none
    | _ => readScalar text
  | depth + 1, text =>
    match text with
    | '[' :: rest => readArray (readValue depth) rest
    | '\x7b' :: rest => readInlineTable (readValue depth) rest
    | _ => readScalar text

/-- What one line of a document says, or several lines of one value. -/
inductive Line where
  | blank
  | entry (path : List String) (key : String) (value : Value)
  | table (path : List String) (key : String)
  | element (path : List String) (key : String)

/-- The rest of a line once its content has been read. -/
def endLine (line : Line) (rest : List Char) : Option (Line × List Char) :=
  (lineEnd? rest).map fun rest => (line, rest)

def readLineAt : Reader Line := fun text =>
  match skipSpaces text with
  | [] => none
  | '[' :: '[' :: rest => do
    let ((path, key), rest) ← readKey rest
    match rest with
    | ']' :: ']' :: rest => endLine (.element path key) rest
    | _ => none
  | '[' :: rest => do
    let ((path, key), rest) ← readKey rest
    match rest with
    | ']' :: rest => endLine (.table path key) rest
    | _ => none
  | c :: rest =>
    if c == '#' || c == '\n' || c == '\r' then endLine .blank (c :: rest)
    else do
      let (((path, key), value), rest) ← readEntry (readValue (depthLimit - 1)) (c :: rest)
      endLine (.entry path key value) rest

def fillTable : List Line → Entries → Option Entries
  | .entry path key value :: rest, entries => do
    fillTable rest (← entries.addValue path key (.value value))
  | .blank :: rest, entries => fillTable rest entries
  | _, entries => some entries

def fillTables : List Line → Entries → Option Entries
  | [], entries => some entries
  | .table path key :: rest, entries => do
    fillTables rest (← entries.addTable path key (fillTable rest))
  | .element path key :: rest, entries => do
    fillTables rest (← entries.addElement path key (fillTable rest))
  | _ :: rest, entries => fillTables rest entries

def parse (text : String) : Option (List (String × Value)) := do
  let content := match text.toList with
    | '\ufeff' :: rest => rest
    | characters => characters
  let (lines, rest) := readAll readLineAt content
  if !(skipSpaces rest).isEmpty then none
  let root ← fillTable lines []
  let entries ← fillTables lines root
  return entryValues entries

end PackageRecipes.Toml
