import PackageRecipes.Text

/-! Percent encoding: which characters each part of a URL has to escape, and the
escapes themselves. A character outside ASCII is always escaped. -/

namespace PackageRecipes.Url

def isControl (c : Char) : Bool :=
  c.val < 0x20 || c.val == 0x7F

def escapedInOpaque (c : Char) : Bool :=
  isControl c || c.val > 0x7F

def escapedInFragment (c : Char) : Bool :=
  escapedInOpaque c || [' ', '"', '<', '>', '\x60'].contains c

def escapedInPath (c : Char) : Bool :=
  escapedInFragment c || ['#', '?', '\x7b', '\x7d'].contains c

def escapedInUserinfo (c : Char) : Bool :=
  escapedInPath c || ['/', ':', ';', '=', '@', '[', '\\', ']', '^', '|'].contains c

def escapedInQuery (c : Char) : Bool :=
  escapedInOpaque c || [' ', '"', '#', '<', '>'].contains c

def escapedInSpecialQuery (c : Char) : Bool :=
  escapedInQuery c || c == '\''

def escapeByte (byte : UInt8) : List Char :=
  ['%', Text.hexDigit (byte.toNat / 16) true, Text.hexDigit (byte.toNat % 16) true]

/-- The character itself, or the escapes of its bytes. -/
def encodeCharacter (escaped : Char → Bool) (c : Char) : List Char :=
  if escaped c then (String.singleton c).toUTF8.toList.flatMap escapeByte else [c]

def encode (escaped : Char → Bool) (text : List Char) : List Char :=
  text.flatMap (encodeCharacter escaped)

/-- The text with its escapes resolved, as long as nothing but ASCII comes out. A
percent sign that begins no escape stands for itself. -/
def decodeAscii? : List Char → Option (List Char)
  | '%' :: high :: low :: rest =>
    match Text.hexValue? high, Text.hexValue? low with
    | some upper, some lower =>
      if upper < 8 then (decodeAscii? rest).map (Char.ofNat (upper * 16 + lower) :: ·) else none
    | _, _ => (decodeAscii? (high :: low :: rest)).map ('%' :: ·)
  | c :: rest => if c.val < 0x80 then (decodeAscii? rest).map (c :: ·) else none
  | [] => some []

end PackageRecipes.Url
