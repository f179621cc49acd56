import PackageRecipes.Toml.Lexis
import PackageRecipes.Toml.Value

/-! The text of TOML values on one line, strings excepted that have line ends in
them. A string is written in the way that saves escapes. -/

namespace PackageRecipes.Toml

/-- A character of a basic string that is no quote, escaped where it has to be. -/
def escapeCharacter (multiline : Bool) (c : Char) : List Char :=
  match c with
  | '\x08' => ['\\', 'b']
  | '\t' => ['\\', 't']
  | '\n' => if multiline then ['\n'] else ['\\', 'n']
  | '\x0c' => ['\\', 'f']
  | '\r' => ['\\', 'r']
  | '\\' => ['\\', '\\']
  | _ =>
    if isPlain c then [c]
    else '\\' :: 'u' :: Text.padLeft 4 '0' (Text.digitsOf 16 true c.toNat)

/-- The inside of a basic string. Up to `room` quotes in a row stand as they are; an
escaped one begins the count anew. -/
def escape (multiline : Bool) (room : Nat) : Nat → List Char → List Char
  | _, [] => []
  | run, '"' :: rest =>
    if run < room then '"' :: escape multiline room (run + 1) rest
    else '\\' :: '"' :: escape multiline room 0 rest
  | _, c :: rest => escapeCharacter multiline c ++ escape multiline room 0 rest

def longestRun (mark : Char) (text : List Char) : Nat :=
  let (longest, _) := text.foldl
    (fun (longest, run) c => if c == mark then (max longest (run + 1), run + 1) else (longest, 0))
    (0, 0)
  longest

/-- How a string is written: with escapes or literally, with one quote or with three
around it. -/
inductive Quoting where
  | basic
  | literal
  | longBasic
  | longLiteral

/-- The first way that needs no escapes, tabs excepted, short ways before long ones and
basic strings before literal ones. Where all need some, a text of several lines gets
three quotes. -/
def Quoting.of (text : List Char) : Quoting :=
  let several := text.contains '\n'
  let coded := text.any fun c => !isPlain c && c != '\n'
  let escaped := coded || text.contains '\\'
  let quotes := longestRun '"' text
  let apostrophes := longestRun '\'' text
  if !escaped && quotes = 0 && !several then .basic
  else if !coded && apostrophes = 0 && !several then .literal
  else if !escaped && quotes ≤ 2 then .longBasic
  else if !coded && apostrophes ≤ 2 then .longLiteral
  else if several then .longBasic
  else .basic

/-- A string value. Behind three quotes a text of several lines begins on a new one. -/
def stringText (text : List Char) : List Char :=
  let start := if text.contains '\n' then ['\n'] else []
  match Quoting.of text with
  | .basic => '"' :: escape false 0 0 text ++ ['"']
  | .literal => '\'' :: text ++ ['\'']
  | .longBasic => ['"', '"', '"'] ++ start ++ escape true 2 0 text ++ ['"', '"', '"']
  | .longLiteral => ['\'', '\'', '\''] ++ start ++ text ++ ['\'', '\'', '\'']

/-- A key: bare where that is possible, else a string on one line, which is literal
where that saves escapes. -/
def keyText (key : List Char) : List Char :=
  if !key.isEmpty && key.all (fun c => Text.isAlphanumeric c || c == '_' || c == '-') then key
  else if (key.contains '"' || key.contains '\\') && key.all (fun c => isPlain c && c != '\'') then
    '\'' :: key ++ ['\'']
  else '"' :: escape false 0 0 key ++ ['"']

def FloatValue.text : FloatValue → String
  | .nan => "nan"
  | .infinity negative => if negative then "-inf" else "inf"
  | .number negative magnitude => (if negative then "-" else "") ++ magnitude.text

def orderEntries (entries : List (String × String)) : List String :=
  let sorted := entries.mergeSort fun left right => (compare left.1 right.1).isLE
  sorted.map fun (key, text) => String.ofList (keyText key.toList) ++ " = " ++ text

mutual

def Value.text : Value → String
  | .string text => String.ofList (stringText text.toList)
  | .integer value => toString value
  | .float value => value.text
  | .boolean value => if value then "true" else "false"
  | .date text => text
  | .array items => "[" ++ ", ".intercalate (itemTexts items) ++ "]"
  | .table entries =>
    match entryTexts entries with
    | [] => "\x7b\x7d"
    | texts => "\x7b " ++ ", ".intercalate (orderEntries texts) ++ " \x7d"

def itemTexts : List Value → List String
  | [] => []
  | item :: rest => item.text :: itemTexts rest

def entryTexts : List (String × Value) → List (String × String)
  | [] => []
  | (key, value) :: rest => (key, value.text) :: entryTexts rest

end

end PackageRecipes.Toml
