/-! Texts: the ASCII letters and digits with their case and their values, white space as
Unicode's `White_Space` property has it, and texts cut at a separator or after a run. -/

namespace PackageRecipes.Text

def isDigit (c : Char) : Bool :=
  '0' ≤ c && c ≤ '9'

def isLetter (c : Char) : Bool :=
  ('a' ≤ c && c ≤ 'z') || ('A' ≤ c && c ≤ 'Z')

def isAlphanumeric (c : Char) : Bool :=
  isLetter c || isDigit c

def hexValue? (c : Char) : Option Nat :=
  if isDigit c then some (c.toNat - '0'.toNat)
  else if 'a' ≤ c && c ≤ 'f' then some (c.toNat - 'a'.toNat + 10)
  else if 'A' ≤ c && c ≤ 'F' then some (c.toNat - 'A'.toNat + 10)
  else none

def lower (c : Char) : Char :=
  if 'A' ≤ c && c ≤ 'Z' then Char.ofNat (c.toNat + 32) else c

def lowerText (text : String) : String :=
  String.ofList (text.toList.map lower)

/-- Two texts that differ in the case of ASCII letters only. -/
def sameIgnoringCase (left right : String) : Bool :=
  left.toList.map lower == right.toList.map lower

/-- The number that a list of digits in `base` denotes; a character that is not
such a digit counts as zero. -/
def digitsValue (base : Nat) (digits : List Char) : Nat :=
  digits.foldl (fun value c => value * base + (hexValue? c).getD 0) 0

def hexDigit (value : Nat) (upper : Bool) : Char :=
  if value < 10 then Char.ofNat ('0'.toNat + value)
  else Char.ofNat ((if upper then 'A' else 'a').toNat + (value - 10))

/-- The digits of `value` in `base`, without leading zeros; zero is one digit. -/
def digitsOf (base : Nat) (upper : Bool) (value : Nat) : List Char :=
  if _small : base < 2 ∨ value < base then [hexDigit value upper]
  else digitsOf base upper (value / base) ++ [hexDigit (value % base) upper]
termination_by value
decreasing_by exact Nat.div_lt_self (by omega) (by omega)

/-- Zeros in front until the text has `width` characters. -/
def padLeft (width : Nat) (fill : Char) (text : List Char) : List Char :=
  List.replicate (width - text.length) fill ++ text

/-- The characters of Unicode's `White_Space` property. -/
def isBlank (c : Char) : Bool :=
  (0x09 ≤ c.val && c.val ≤ 0x0D) || c.val == 0x20 || c.val == 0x85 || c.val == 0xA0 ||
  c.val == 0x1680 || (0x2000 ≤ c.val && c.val ≤ 0x200A) || c.val == 0x2028 || c.val == 0x2029 ||
  c.val == 0x202F || c.val == 0x205F || c.val == 0x3000

def trimList (text : List Char) : List Char :=
  ((text.dropWhile isBlank).reverse.dropWhile isBlank).reverse

def trim (text : String) : String :=
  String.ofList (trimList text.toList)

/-- Nothing is left of the text once its white space is trimmed away. -/
def isBlankText (text : String) : Bool :=
  text.toList.all isBlank

/-- The parts of a text between the separators; there is one part more than
there are separators. -/
def fields (separator : Char) : List Char → List (List Char)
  | [] => [[]]
  | c :: rest =>
    if c = separator then [] :: fields separator rest
    else match fields separator rest with
      | [] => [[c]]
      | first :: others => (c :: first) :: others

/-- The lines of a text that a line end follows. A carriage return right in front of a
line end belongs to it. -/
def lines (text : String) : List String :=
  (fields '\n' text.toList).map fun line =>
    String.ofList (if line.getLast? == some '\r' then line.dropLast else line)

/-- The text before and after the first separator, if there is one. -/
def cutOnce (separator : Char) : List Char → Option (List Char × List Char)
  | [] => none
  | c :: rest =>
    if c = separator then some ([], rest)
    else (cutOnce separator rest).map fun (before, after) => (c :: before, after)

/-- Whether `part` occurs in `text` as a run of neighbouring characters. -/
def contains (part : List Char) : List Char → Bool
  | [] => part.isEmpty
  | c :: rest => part.isPrefixOf (c :: rest) || contains part rest

/-- Dropping a run never makes a text longer, which bounds the readers that
proceed run by run. -/
theorem length_dropWhile_le (inRun : Char → Bool) (text : List Char) :
    (text.dropWhile inRun).length ≤ text.length :=
  (List.dropWhile_sublist inRun).length_le

end PackageRecipes.Text
