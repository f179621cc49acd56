import PackageRecipes.Error
import PackageRecipes.Text
import PackageRecipes.Url.Percent

/-! Hosts of URLs: names, and Internet addresses in the forms that people write. -/

namespace PackageRecipes.Url

def allDigits (base : Nat) (digits : List Char) : Bool :=
  digits.all fun c => (Text.hexValue? c).any (· < base)

/-- One number of an IPv4 address: decimal, hexadecimal after `0x`, octal after `0`. -/
def ipv4Number? : List Char → Option Nat
  | [] => none
  | '0' :: 'x' :: digits | '0' :: 'X' :: digits =>
    if allDigits 16 digits then some (Text.digitsValue 16 digits) else none
  | '0' :: digit :: digits =>
    if allDigits 8 (digit :: digits) then some (Text.digitsValue 8 (digit :: digits)) else none
  | digits => if allDigits 10 digits then some (Text.digitsValue 10 digits) else none

def labels (host : List Char) : List (List Char) :=
  let parts := Text.fields '.' host
  if parts.getLast? == some [] then parts.dropLast else parts

/-- The last label is a number, so that the host can only be an IPv4 address. -/
def endsInNumber (host : List Char) : Bool :=
  match (labels host).getLast? with
  | some last => !last.isEmpty && (last.all Text.isDigit || (ipv4Number? last).isSome)
  | none => false

/-- The address that up to four numbers make; the last one fills what the others
leave. -/
def ipv4Value? (host : List Char) : Option Nat := do
  let parts := labels host
  if parts.length > 4 then none
  let numbers ← parts.mapM ipv4Number?
  let last ← numbers.getLast?
  let leading := numbers.dropLast
  if leading.any (· > 255) || last ≥ Nat.pow 256 (4 - leading.length) then none
  return leading.zipIdx.foldl (fun value (number, index) => value + number * Nat.pow 256 (3 - index)) last

def decimalText (value : Nat) : List Char :=
  Text.digitsOf 10 false value

def ipv4Text (value : Nat) : List Char :=
  ['.'].intercalate ([3, 2, 1, 0].map fun place => decimalText (value / Nat.pow 256 place % 256))

/-- One number of a dotted address inside an IPv6 address: decimal, at most 255,
without a leading zero. -/
def dottedNumber? (digits : List Char) : Option Nat :=
  let value := Text.digitsValue 10 digits
  if digits.isEmpty || !digits.all Text.isDigit || value > 255 then none
  else if digits.head? == some '0' && digits.length > 1 then none
  else some value

/-- The two pieces that a dotted address at the end of an IPv6 address stands for. -/
def dottedPieces? (text : List Char) : Option (List Nat) := do
  match ← (Text.fields '.' text).mapM dottedNumber? with
  | [first, second, third, fourth] => some [first * 256 + second, third * 256 + fourth]
  | _ => none

def hexPiece? (digits : List Char) : Option Nat :=
  if digits.isEmpty || digits.length > 4 || !allDigits 16 digits then none
  else some (Text.digitsValue 16 digits)

/-- The pieces between colons; the last may be a dotted address if `dotted` says so. -/
def ipv6Pieces? (dotted : Bool) (text : List Char) : Option (List Nat) :=
  if text.isEmpty then some []
  else do
    let parts := Text.fields ':' text
    let last ← parts.getLast?
    let pieces ← parts.dropLast.mapM hexPiece?
    let ending ←
      if dotted && last.contains '.' then dottedPieces? last else (hexPiece? last).map ([·])
    return pieces ++ ending

/-- The text before and after the first `::`. -/
def cutDoubleColon : List Char → Option (List Char × List Char)
  | ':' :: ':' :: rest => some ([], rest)
  | c :: rest => (cutDoubleColon rest).map fun (before, after) => (c :: before, after)
  | [] => none

/-- The eight pieces of an IPv6 address; `::` stands for at least one zero piece. -/
def ipv6Value? (text : List Char) : Option (List Nat) :=
  match cutDoubleColon text with
  | some (before, after) => do
    let front ← ipv6Pieces? false before
    let back ← ipv6Pieces? true after
    if front.length + back.length > 7 then none
    else some (front ++ List.replicate (8 - front.length - back.length) 0 ++ back)
  | none => do
    let pieces ← ipv6Pieces? true text
    if pieces.length = 8 then some pieces else none

def zeroRun (pieces : List Nat) : Nat :=
  (pieces.takeWhile (· == 0)).length

/-- The start and length of the longest run of zeros, the first of equals. -/
def longestZeroRun (pieces : List Nat) : Nat × Nat :=
  (List.range pieces.length).foldl
    (fun (start, length) index =>
      let run := zeroRun (pieces.drop index)
      if run > length then (index, run) else (start, length)) (0, 0)

def hexPieces (pieces : List Nat) : List Char :=
  [':'].intercalate (pieces.map (Text.digitsOf 16 false))

/-- The normal text of an address: the longest run of two or more zeros becomes `::`. -/
def ipv6Text (pieces : List Nat) : List Char :=
  let (start, length) := longestZeroRun pieces
  if length < 2 then hexPieces pieces
  else hexPieces (pieces.take start) ++ [':', ':'] ++ hexPieces (pieces.drop (start + length))

def readBracketed (host : List Char) : Except UrlFault (List Char) :=
  if host.getLast? != some ']' then .error .ipv6Invalid
  else match ipv6Value? (host.drop 1).dropLast with
    | some pieces => .ok ('[' :: ipv6Text pieces ++ [']'])
    | none => .error .ipv6Invalid

def forbiddenInHost (c : Char) : Bool :=
  ['\x00', '\t', '\n', '\r', ' ', '#', '/', ':', '<', '>', '?', '@', '[', '\\', ']', '^', '|'].contains c

def forbiddenInDomain (c : Char) : Bool :=
  forbiddenInHost c || isControl c || c == '%'

/-- A host under one of the schemes that know what hosts are: a domain name in lower
case or an address. -/
def readDomain (host : List Char) : Except UrlFault (List Char) :=
  if host.head? == some '[' then readBracketed host
  else match decodeAscii? host with
    | none => .error .hostNameInvalid
    | some decoded =>
      let name := decoded.map Text.lower
      if name.any forbiddenInDomain then .error .hostNameInvalid
      else if name.isEmpty then .error .hostEmpty
      else if endsInNumber name then
        match ipv4Value? name with
        | some value => .ok (ipv4Text value)
        | none => .error .ipv4Invalid
      else .ok name

/-- A host under any other scheme, which keeps its spelling. -/
def readOpaqueHost (host : List Char) : Except UrlFault (List Char) :=
  if host.head? == some '[' then readBracketed host
  else if host.any forbiddenInHost then .error .hostCharacterInvalid
  else .ok (encode escapedInOpaque host)

end PackageRecipes.Url
