import PackageRecipes.Text

/-! Numbers of 53 significant bits, as floating-point literals denote them: the one
nearest to a decimal, and the fewest decimal digits that read back as the same
number. All arithmetic is on naturals and exact. -/

namespace PackageRecipes.Decimal

/-- A finite number that is not negative, `significand * 2 ^ exponent`. -/
structure Binary64 where
  significand : Nat
  exponent : Int
  deriving DecidableEq

namespace Binary64

def zero : Binary64 := ⟨0, 0⟩

def leastExponent : Int := -1074

def greatestExponent : Int := 971

/-- The quotient rounded to the nearest natural, a tie to the even one. -/
def roundQuotient (numerator denominator : Nat) : Nat :=
  let quotient := numerator / denominator
  let twice := 2 * (numerator % denominator)
  if twice > denominator || (twice == denominator && quotient % 2 == 1) then quotient + 1
  else quotient

/-- The exponent at which a positive fraction has 53 significant bits. -/
def exponentOf (numerator denominator : Nat) : Int :=
  let guess : Int := numerator.log2 - denominator.log2 - 52
  let scaled := numerator * Nat.pow 2 (-guess).toNat
  if scaled < Nat.pow 2 52 * (denominator * Nat.pow 2 guess.toNat) then guess - 1 else guess

def ofFraction? (numerator denominator : Nat) : Option Binary64 :=
  let exponent := max (exponentOf numerator denominator) leastExponent
  let rounded :=
    roundQuotient (numerator * Nat.pow 2 (-exponent).toNat) (denominator * Nat.pow 2 exponent.toNat)
  let (significand, exponent) :=
    if rounded = Nat.pow 2 53 then (Nat.pow 2 52, exponent + 1) else (rounded, exponent)
  if exponent > greatestExponent then none else some ⟨significand, exponent⟩

/-- The number nearest to `digits * 10 ^ exponent`, unless that is too large. -/
def nearest? (digits : Nat) (exponent : Int) : Option Binary64 :=
  let size := exponent + (Text.digitsOf 10 false digits).length
  if digits = 0 || size < -400 then some zero
  else if size > 400 then none
  else ofFraction? (digits * Nat.pow 10 exponent.toNat) (Nat.pow 10 (-exponent).toNat)

/-- The least power of ten above a positive number. -/
def decimalScale (number : Binary64) : Int :=
  let whole := number.significand * Nat.pow 2 number.exponent.toNat / Nat.pow 2 (-number.exponent).toNat
  if whole > 0 then (Text.digitsOf 10 false whole).length
  else
    let places := (List.range 400).find? fun places =>
      number.significand * Nat.pow 10 places ≥ Nat.pow 2 (-number.exponent).toNat
    1 - (places.getD 400 : Int)

/-- A multiple of the grid rounds to the number. The number is the fraction of
`numerator` and `denominator` in units of the grid. Just below a power of two
numbers lie twice as close. -/
def readsBack (number : Binary64) (numerator denominator candidate : Nat) : Bool :=
  let quarters := 4 * number.significand
  let below :=
    if number.significand = Nat.pow 2 52 && number.exponent > leastExponent then 1 else 2
  let value := candidate * denominator * quarters
  let low := numerator * (quarters - below)
  let high := numerator * (quarters + 2)
  if number.significand % 2 = 0 then low ≤ value && value ≤ high
  else low < value && value < high

/-- A decimal of so many digits that reads back as the number, if there is one; the
nearer of two, and of equally near ones the greater. -/
def withDigits? (number : Binary64) (scale : Int) (count : Nat) : Option (Nat × Int) :=
  let grid := scale - count
  let numerator := number.significand * Nat.pow 2 number.exponent.toNat * Nat.pow 10 (-grid).toNat
  let denominator := Nat.pow 2 (-number.exponent).toNat * Nat.pow 10 grid.toNat
  let low := numerator / denominator
  match number.readsBack numerator denominator low,
      number.readsBack numerator denominator (low + 1) with
  | true, true => some (if 2 * numerator < (2 * low + 1) * denominator then low else low + 1, grid)
  | true, false => some (low, grid)
  | false, true => some (low + 1, grid)
  | false, false => none

/-- The fewest digits that read back as the number, times a power of ten. -/
def shortest (number : Binary64) : Nat × Int :=
  if number.significand = 0 then (0, 0)
  else ((List.range 17).findSome? fun less => number.withDigits? number.decimalScale (less + 1)).getD
    (number.significand * Nat.pow 2 number.exponent.toNat * Nat.pow 5 (-number.exponent).toNat,
      min number.exponent 0)

/-- The digits before and after the decimal point, without an exponent. A whole
number has one zero behind the point. -/
def text (number : Binary64) : String :=
  let (digits, exponent) := number.shortest
  let places := (-exponent).toNat
  let shown := Text.padLeft (places + 1) '0'
    (Text.digitsOf 10 false digits ++ List.replicate exponent.toNat '0')
  let whole := shown.take (shown.length - places)
  let fraction := ((shown.drop (shown.length - places)).reverse.dropWhile (· == '0')).reverse
  String.ofList (whole ++ '.' :: if fraction.isEmpty then ['0'] else fraction)

end Binary64

end PackageRecipes.Decimal
