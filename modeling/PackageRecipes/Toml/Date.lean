import PackageRecipes.Toml.Lexis
import PackageRecipes.Toml.Value

/-! Dates and times in TOML, read for their normal text. A table may stand for a
date-time: its first key says so, and its text is read with wider bounds. -/

namespace PackageRecipes.Toml

/-- What hours and offsets may be. -/
structure ClockBounds where
  lastHour : Nat
  offsetFits (hour minute : Nat) : Bool

/-- The bounds of a date-time in a document. -/
def ClockBounds.written : ClockBounds :=
  ⟨23, fun hour minute => hour ≤ 23 && minute ≤ 59⟩

/-- The bounds of a date-time that a table stands for: hour 24 is taken, and an offset
is one of up to a day. -/
def ClockBounds.stored : ClockBounds :=
  ⟨24, fun hour minute => hour * 60 + minute ≤ 24 * 60⟩

/-- Exactly `count` digits and the number they make. -/
def readFixed (count : Nat) : Reader Nat := fun text =>
  let digits := text.take count
  if digits.length = count && digits.all Text.isDigit then
    some (Text.digitsValue 10 digits, text.drop count)
  else none

def readCharacter (accepted : List Char) : Reader Char
  | c :: rest => if accepted.contains c then some (c, rest) else none
  | [] => none

def isLeapYear (year : Nat) : Bool :=
  year % 4 = 0 && (year % 100 != 0 || year % 400 = 0)

def daysIn (year month : Nat) : Nat :=
  if month = 2 then (if isLeapYear year then 29 else 28)
  else if [4, 6, 9, 11].contains month then 30
  else 31

def padded (width value : Nat) : List Char :=
  Text.padLeft width '0' (Text.digitsOf 10 false value)

def readDay : Reader (List Char) := fun text => do
  let (year, rest) ← readFixed 4 text
  let (_, rest) ← readCharacter ['-'] rest
  let (month, rest) ← readFixed 2 rest
  let (_, rest) ← readCharacter ['-'] rest
  let (day, rest) ← readFixed 2 rest
  if month < 1 || month > 12 || day < 1 || day > daysIn year month then none
  return (padded 4 year ++ '-' :: padded 2 month ++ '-' :: padded 2 day, rest)

/-- The digits behind a second's point, at most nine, without zeros at the end. -/
def readSecondFraction : List Char → List Char × List Char
  | '.' :: text =>
    let digits := text.takeWhile Text.isDigit
    if digits.isEmpty then ([], '.' :: text)
    else
      let kept := ((digits.take 9).reverse.dropWhile (· == '0')).reverse
      (if kept.isEmpty then [] else '.' :: kept, text.dropWhile Text.isDigit)
  | text => ([], text)

def readTime (bounds : ClockBounds) : Reader (List Char) := fun text => do
  let (hour, rest) ← readFixed 2 text
  let (_, rest) ← readCharacter [':'] rest
  let (minute, rest) ← readFixed 2 rest
  let (_, rest) ← readCharacter [':'] rest
  let (second, rest) ← readFixed 2 rest
  if hour > bounds.lastHour || minute > 59 || second > 60 then none
  let (fraction, rest) := readSecondFraction rest
  return (padded 2 hour ++ ':' :: padded 2 minute ++ ':' :: padded 2 second ++ fraction, rest)

/-- A distance from universal time; one of nothing is written with a plus. -/
def readOffset (bounds : ClockBounds) : Reader (List Char) := fun text => do
  let (mark, rest) ← readCharacter ['Z', 'z', '+', '-'] text
  if mark == 'Z' || mark == 'z' then return (['Z'], rest)
  let (hour, rest) ← readFixed 2 rest
  let (_, rest) ← readCharacter [':'] rest
  let (minute, rest) ← readFixed 2 rest
  if !bounds.offsetFits hour minute then none
  let distance := hour * 60 + minute
  let sign := if distance = 0 then '+' else mark
  return (sign :: padded 2 (distance / 60) ++ ':' :: padded 2 (distance % 60), rest)

/-- The text begins like a day: four digits and a hyphen. -/
def isDayStart (text : List Char) : Bool :=
  (text.take 4).all Text.isDigit && text[4]? == some '-'

/-- The text begins like a time: two digits and a colon. -/
def isTimeStart (text : List Char) : Bool :=
  (text.take 2).all Text.isDigit && text[2]? == some ':'

/-- A day, perhaps with a time, which perhaps has an offset, or a time alone. -/
def readDate (bounds : ClockBounds) : Reader (List Char) := fun text =>
  if isDayStart text then do
    let (day, rest) ← readDay text
    match rest with
    | mark :: after =>
      if ['T', 't', ' '].contains mark && isTimeStart after then
        let (time, rest) ← readTime bounds after
        match rest with
        | c :: _ =>
          if ['Z', 'z', '+', '-'].contains c then
            let (offset, rest) ← readOffset bounds rest
            return (day ++ 'T' :: time ++ offset, rest)
          else return (day ++ 'T' :: time, rest)
        | [] => return (day ++ 'T' :: time, rest)
      else return (day, rest)
    | [] => return (day, rest)
  else if isTimeStart text then readTime bounds text
  else none

/-- The date-time that a text stored in a table is. -/
def storedDate? : Value → Option Value
  | .string text =>
    match readDate .stored text.toList with
    | some (date, []) => some (.date (String.ofList date))
    | _ => none
  | _ => none

mutual

/-- A value with a date-time in place of every table that stands for one, which is a
table whose first key is the one for that. Such a table has no other entry, and what
it holds has to be a date-time. -/
def Value.withDates? : Value → Option Value
  | .array items => (itemsWithDates? items).map .array
  | .table [] => some (.table [])
  | .table ((key, value) :: rest) =>
    if key == dateKey then (if rest.isEmpty then storedDate? value else none)
    else (entriesWithDates? ((key, value) :: rest)).map .table
  | value => some value

def itemsWithDates? : List Value → Option (List Value)
  | [] => some []
  | item :: rest => do return (← item.withDates?) :: (← itemsWithDates? rest)

def entriesWithDates? : List (String × Value) → Option (List (String × Value))
  | [] => some []
  | (key, value) :: rest => do return (key, ← value.withDates?) :: (← entriesWithDates? rest)

end

end PackageRecipes.Toml
