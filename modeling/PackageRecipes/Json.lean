import PackageRecipes.Text

/-! JSON documents and their text with one item a line. -/

namespace PackageRecipes

inductive Json where
  | null
  | boolean (value : Bool)
  | number (value : Nat)
  | string (text : String)
  | array (items : List Json)
  | object (members : List (String × Json))

namespace Json

def escape (c : Char) : List Char :=
  match c with
  | '"' => ['\\', '"']
  | '\\' => ['\\', '\\']
  | '\x08' => ['\\', 'b']
  | '\t' => ['\\', 't']
  | '\n' => ['\\', 'n']
  | '\x0c' => ['\\', 'f']
  | '\r' => ['\\', 'r']
  | _ =>
    if c.val < 0x20 then '\\' :: 'u' :: Text.padLeft 4 '0' (Text.digitsOf 16 false c.toNat)
    else [c]

def quoted (text : String) : String :=
  String.ofList ('"' :: (text.toList.flatMap escape ++ ['"']))

/-- A name in front of the first line of its value. -/
def withName (name : String) : List String → List String
  | [] => []
  | first :: rest => (quoted name ++ ": " ++ first) :: rest

/-- The lines of neighbouring items, indented, a comma after every item but the last. -/
def itemLines : List (List String) → List String
  | [] => []
  | [last] => last.map ("  " ++ ·)
  | item :: rest =>
    let lines := item.map ("  " ++ ·)
    lines.dropLast ++ [lines.getLast?.getD "" ++ ","] ++ itemLines rest

/-- Items between brackets. Without items the brackets stand together. -/
def bracketed (opening closing : String) : List (List String) → List String
  | [] => [opening ++ closing]
  | items => [opening] ++ itemLines items ++ [closing]

mutual

def lines : Json → List String
  | null => ["null"]
  | boolean value => [if value then "true" else "false"]
  | number value => [toString value]
  | string text => [quoted text]
  | array items => bracketed "[" "]" (arrayLines items)
  | object members => bracketed "\x7b" "\x7d" (objectLines members)

def arrayLines : List Json → List (List String)
  | [] => []
  | item :: rest => item.lines :: arrayLines rest

def objectLines : List (String × Json) → List (List String)
  | [] => []
  | (name, value) :: rest => withName name value.lines :: objectLines rest

end

def text (document : Json) : String :=
  "\n".intercalate document.lines

def optional : Option String → Json
  | some text => string text
  | none => null

end Json

end PackageRecipes
