import PackageRecipes.Text

/-! The small parts of TOML's grammar: blanks, line ends and comments, and repetition
of a reader over a text. A reader gives what it has read and the rest. -/

namespace PackageRecipes.Toml

abbrev Reader (α : Type) := List Char → Option (α × List Char)

def isSpace (c : Char) : Bool :=
  c == ' ' || c == '\t'

def skipSpaces (text : List Char) : List Char :=
  text.dropWhile isSpace

/-- A character that may stand in a comment or literal: a tab or anything printable. -/
def isPlain (c : Char) : Bool :=
  c == '\t' || (c.val ≥ 0x20 && c.val != 0x7F)

def newline? : List Char → Option (List Char)
  | '\n' :: rest => some rest
  | '\r' :: '\n' :: rest => some rest
  | _ => none

def skipComment : List Char → List Char
  | '#' :: rest => rest.dropWhile isPlain
  | text => text

/-- The text of the next line, once nothing but blanks and a comment is left of
this one. -/
def lineEnd? (text : List Char) : Option (List Char) :=
  match skipComment (skipSpaces text) with
  | [] => some []
  | rest => newline? rest

def skipLines (text : List Char) : List Char :=
  match _found : skipComment (skipSpaces text) with
  | '\n' :: rest => skipLines rest
  | '\r' :: '\n' :: rest => skipLines rest
  | rest => rest
termination_by text.length
decreasing_by
  all_goals
    have blanks := Text.length_dropWhile_le isSpace text
    have comment : (skipComment (skipSpaces text)).length ≤ (skipSpaces text).length := by
      unfold skipComment
      split
      · next rest found =>
        rw [found]
        have plain := Text.length_dropWhile_le isPlain rest
        simp only [List.length_cons]
        omega
      · exact Nat.le_refl _
    rw [_found] at comment
    simp only [List.length_cons, skipSpaces] at comment blanks
    omega

/-- The readings of `step`, one after the other, for as long as it succeeds and takes
something off the text. -/
def readAll {α : Type} (step : Reader α) (text : List Char) : List α × List Char :=
  match step text with
  | none => ([], text)
  | some (value, rest) =>
    if _shorter : rest.length < text.length then
      let (others, last) := readAll step rest
      (value :: others, last)
    else ([], text)
termination_by text.length

/-- Readings of `step` with separators between them, at least one. -/
def readSeparated {α : Type} (separator : Char) (step : Reader α) : Reader (List α) := fun text => do
  let (first, rest) ← step text
  let (others, rest) := readAll
    (fun text => match text with
      | c :: rest => if c == separator then step rest else none
      | [] => none) rest
  return (first :: others, rest)

end PackageRecipes.Toml
