import PackageRecipes.Toml.Lexis
import PackageRecipes.Toml.Value

/-! Numbers in TOML: integers of 64 bits in four bases, and floats. An underscore may
stand between two digits. -/

namespace PackageRecipes.Toml

/-- Digits with single underscores between them, the underscores left out. -/
def readDigits (isDigit : Char → Bool) : Reader (List Char) := fun text =>
  match text with
  | c :: rest =>
    if isDigit c then
      let (others, rest) := readAll
        (fun text => match text with
          | '_' :: digit :: rest => if isDigit digit then some (digit, rest) else none
          | digit :: rest => if isDigit digit then some (digit, rest) else none
          | [] => none) rest
      some (c :: others, rest)
    else none
  | [] => none

def readSign : List Char → Bool × List Char
  | '+' :: rest => (false, rest)
  | '-' :: rest => (true, rest)
  | text => (false, text)

/-- Decimal digits, of which the first is zero only if it stands alone. -/
def readWhole : Reader (List Char)
  | '0' :: rest => some (['0'], rest)
  | text => readDigits Text.isDigit text

def fitsInteger (value : Int) : Bool :=
  let limit : Int := Nat.pow 2 63
  value < limit && -limit ≤ value

/-- An integer in a base given by a letter, without a sign. -/
def readBased (base : Nat) : Reader Int := fun text => do
  let (digits, rest) ← readDigits (fun c => (Text.hexValue? c).any (· < base)) text
  let value : Int := Text.digitsValue base digits
  if fitsInteger value then some (value, rest) else none

def readInteger : Reader Int
  | '0' :: 'x' :: rest => readBased 16 rest
  | '0' :: 'o' :: rest => readBased 8 rest
  | '0' :: 'b' :: rest => readBased 2 rest
  | text => do
    let (negative, rest) := readSign text
    let (digits, rest) ← readWhole rest
    let magnitude : Int := Text.digitsValue 10 digits
    let value := if negative then -magnitude else magnitude
    if fitsInteger value then some (value, rest) else none

/-- The digits behind a decimal point; none if there is no point. -/
def readFraction : Reader (List Char)
  | '.' :: rest => readDigits Text.isDigit rest
  | text => some ([], text)

/-- The exponent behind an `e`, if there is one. -/
def readExponent : Reader (Option Int)
  | 'e' :: rest | 'E' :: rest => do
    let (negative, rest) := readSign rest
    let (digits, rest) ← readDigits Text.isDigit rest
    let magnitude : Int := Text.digitsValue 10 digits
    return (some (if negative then -magnitude else magnitude), rest)
  | text => some (none, text)

/-- The value of a float's digits. One that is too large is refused, but below zero
it is the infinity. -/
def floatValue (negative : Bool) (digits : List Char) (exponent : Int) : Option FloatValue :=
  match Decimal.Binary64.nearest? (Text.digitsValue 10 digits) exponent with
  | some magnitude => some (.number negative magnitude)
  | none => if negative then some (.infinity true) else none

def isFloatStart (text : List Char) : Bool :=
  match readWhole (readSign text).2 with
  | some (_, c :: _) => c == '.' || c == 'e' || c == 'E'
  | _ => false

def readFloatDigits : Reader FloatValue := fun text => do
  let (negative, rest) := readSign text
  let (whole, rest) ← readWhole rest
  let (fraction, rest) ← readFraction rest
  let (exponent, rest) ← readExponent rest
  let value ← floatValue negative (whole ++ fraction) (exponent.getD 0 - fraction.length)
  return (value, rest)

def readSpecialFloat : Reader FloatValue := fun text =>
  match readSign text with
  | (negative, 'i' :: 'n' :: 'f' :: rest) => some (.infinity negative, rest)
  | (_, 'n' :: 'a' :: 'n' :: rest) => some (.nan, rest)
  | _ => none

def readNumber : Reader Value := fun text =>
  if isFloatStart text then (readFloatDigits text).map fun (value, rest) => (.float value, rest)
  else match readSpecialFloat text with
    | some (value, rest) => some (.float value, rest)
    | none => (readInteger text).map fun (value, rest) => (.integer value, rest)

end PackageRecipes.Toml
