import PackageRecipes.Toml.Lexis

/-! Strings in TOML: basic ones, in which a backslash begins an escape, and literal
ones, on one line or on several. -/

namespace PackageRecipes.Toml

/-- The character that so many hexadecimal digits denote. -/
def readCodePoint (count : Nat) : Reader Char := fun text =>
  let digits := text.take count
  let value := Text.digitsValue 16 digits
  if digits.length = count && digits.all (fun c => (Text.hexValue? c).isSome) && value.isValidChar then
    some (Char.ofNat value, text.drop count)
  else none

def readEscape : Reader Char
  | 'b' :: rest => some ('\x08', rest)
  | 't' :: rest => some ('\t', rest)
  | 'n' :: rest => some ('\n', rest)
  | 'f' :: rest => some ('\x0c', rest)
  | 'r' :: rest => some ('\r', rest)
  | '"' :: rest => some ('"', rest)
  | '\\' :: rest => some ('\\', rest)
  | 'u' :: rest => readCodePoint 4 rest
  | 'U' :: rest => readCodePoint 8 rest
  | _ => none

def skipBreaks (text : List Char) : List Char :=
  (readAll (fun text => match text with
    | c :: rest => if isSpace c then some ((), rest) else (newline? text).map fun rest => ((), rest)
    | [] => none) text).2

def readBasicCharacter : Reader (List Char)
  | '\\' :: rest => (readEscape rest).map fun (c, rest) => ([c], rest)
  | c :: rest => if isPlain c && c != '"' then some ([c], rest) else none
  | [] => none

def readLiteralCharacter : Reader (List Char)
  | c :: rest => if isPlain c && c != '\'' then some ([c], rest) else none
  | [] => none

/-- A backslash at the end of a line, which takes the line end and all blanks after
it away. -/
def readContinuation : Reader (List Char)
  | '\\' :: rest =>
    match newline? (skipSpaces rest) with
    | some rest => some ([], skipBreaks rest)
    | none => none
  | _ => none

/-- One or two quotes that do not end a string on several lines. -/
def readInnerQuotes (quote : Char) : Reader (List Char) := fun text =>
  let count := (text.takeWhile (· == quote)).length
  if count = 1 || count = 2 then some (List.replicate count quote, text.drop count) else none

/-- One character, line end, continuation or run of quotes of a string on several
lines. Every line end is read as the same one. -/
def readLineCharacter (quote : Char) (character : Reader (List Char)) : Reader (List Char) := fun text =>
  match newline? text with
  | some rest => some (['\n'], rest)
  | none =>
    match (if quote == '"' then readContinuation text else none) with
    | some found => some found
    | none =>
      match character text with
      | some found => some found
      | none => readInnerQuotes quote text

/-- The three quotes that end a string on several lines, and up to two before them
that belong to it. -/
def readClosing (quote : Char) : Reader (List Char) := fun text =>
  let count := (text.takeWhile (· == quote)).length
  if count < 3 || count > 5 then none
  else some (List.replicate (count - 3) quote, text.drop count)

/-- A string on several lines behind its three quotes. A line end right there does
not count. -/
def readLines (quote : Char) (character : Reader (List Char)) : Reader String := fun text => do
  let (parts, rest) := readAll (readLineCharacter quote character) ((newline? text).getD text)
  let (ending, rest) ← readClosing quote rest
  return (String.ofList (parts.flatten ++ ending), rest)

def readLine (quote : Char) (character : Reader (List Char)) : Reader String := fun text =>
  match readAll character text with
  | (parts, c :: rest) => if c == quote then some (String.ofList parts.flatten, rest) else none
  | (_, []) => none

def readShortString : Reader String
  | '"' :: rest => readLine '"' readBasicCharacter rest
  | '\'' :: rest => readLine '\'' readLiteralCharacter rest
  | _ => none

def readString : Reader String
  | '"' :: '"' :: '"' :: rest => readLines '"' readBasicCharacter rest
  | '\'' :: '\'' :: '\'' :: rest => readLines '\'' readLiteralCharacter rest
  | text => readShortString text

end PackageRecipes.Toml
