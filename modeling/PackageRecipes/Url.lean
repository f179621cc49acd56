import PackageRecipes.Url.Host
import PackageRecipes.Url.Path

/-! Absolute URLs and their normal text. -/

namespace PackageRecipes

/-- Who serves a URL: user information with its `@`, the host and an unusual port. -/
structure Authority where
  userinfo : List Char
  host : List Char
  port : Option Nat

structure Url where
  scheme : String
  authority : Option Authority
  path : List Char
  query : Option (List Char)
  fragment : Option (List Char)

namespace Authority

def text (authority : Authority) : List Char :=
  authority.userinfo ++ authority.host ++
    (authority.port.map fun port => ':' :: Url.decimalText port).getD []

end Authority

namespace Url

/-- The normal text. A path with two slashes in front would read as an authority, so
`/.` separates it where there is none. -/
def text (url : Url) : String :=
  let before := match url.authority with
    | some authority => '/' :: '/' :: authority.text
    | none => if ['/', '/'].isPrefixOf url.path then ['/', '.'] else []
  let query := (url.query.map ('?' :: ·)).getD []
  let fragment := (url.fragment.map ('#' :: ·)).getD []
  url.scheme ++ ":" ++ String.ofList (before ++ url.path ++ query ++ fragment)

def isPadding (c : Char) : Bool :=
  c.val ≤ 0x20

def trim (input : List Char) : List Char :=
  ((input.dropWhile isPadding).reverse.dropWhile isPadding).reverse

def isSchemeCharacter (c : Char) : Bool :=
  Text.isAlphanumeric c || c == '+' || c == '-' || c == '.'

def cutScheme? (input : List Char) : Option (String × List Char) :=
  let inScheme := fun c => isSchemeCharacter c || isIgnored c
  match withoutIgnored (input.takeWhile inScheme), input.dropWhile inScheme with
  | first :: others, ':' :: rest =>
    if Text.isLetter first then some (String.ofList ((first :: others).map Text.lower), rest)
    else none
  | _, _ => none

def readEnding (kind : SchemeKind) (rest : List Char) :
    Option (List Char) × Option (List Char) :=
  let escapedQuery := if kind.isSpecial then escapedInSpecialQuery else escapedInQuery
  let fragment := fun rest : List Char => match rest with
    | '#' :: text => some (encode escapedInFragment text)
    | _ => none
  match rest with
  | '?' :: text =>
    (some (encode escapedQuery (text.takeWhile (· != '#'))), fragment (text.dropWhile (· != '#')))
  | _ => (none, fragment rest)

def ofParts (scheme : String) (authority : Option Authority) (path rest : List Char) : Url :=
  let (query, fragment) := readEnding (schemeKind scheme) (withoutIgnored rest)
  ⟨scheme, authority, path, query, fragment⟩

/-- The part of the input that the authority can take. -/
def endsAuthority (kind : SchemeKind) (c : Char) : Bool :=
  endsSegment kind c || endsPath c

def cutLastAt (text : List Char) : Option (List Char × List Char) :=
  if text.contains '@' then
    let after := (text.reverse.takeWhile (· != '@')).reverse
    some (text.take (text.length - after.length - 1), after)
  else none

/-- User information as it is kept: an empty password loses its colon, and nothing
at all loses the `@`. -/
def userinfoText (userinfo : List Char) : List Char :=
  let user := userinfo.takeWhile (· != ':')
  let secret := (userinfo.dropWhile (· != ':')).drop 1
  if user.isEmpty && secret.isEmpty then []
  else
    let kept := encode escapedInUserinfo user
    let hidden := if secret.isEmpty then [] else ':' :: encode escapedInUserinfo secret
    kept ++ hidden ++ ['@']

/-- The host before a port or path. Colons between square brackets belong to it. -/
def cutHost (kind : SchemeKind) (bracketed : Bool) : List Char → List Char × List Char
  | [] => ([], [])
  | c :: rest =>
    if (c == ':' && !bracketed) || endsAuthority kind c then ([], c :: rest)
    else
      let (host, after) := cutHost kind (if c == '[' then true else if c == ']' then false else bracketed) rest
      (c :: host, after)

/-- Reads digits up to the end of the port. The port of a URL is below 65536. -/
def readPort (scheme : String) (input : List Char) : Except UrlFault (Option Nat × List Char) :=
  let digits := input.takeWhile Text.isDigit
  let rest := input.dropWhile Text.isDigit
  let port := Text.digitsValue 10 digits
  if port > 65535 then .error .portInvalid
  else if rest.head?.any fun c => !(c == '/' || c == '\\' || endsPath c) then .error .portInvalid
  else .ok (if digits.isEmpty || defaultPort? scheme == some port then none else some port, rest)

/-- Reads the path that follows an authority. -/
def readPathAfter (kind : SchemeKind) (input : List Char) : List Char × Bool × List Char :=
  if kind.isSpecial then
    match input with
    | c :: rest => if endsSegment kind c then readPath kind ['/'] rest else readPath kind ['/'] input
    | [] => readPath kind ['/'] []
  else match input with
    | [] => ([], true, [])
    | c :: _ =>
      if endsPath c then ([], true, input)
      else if c == '/' then readPath kind [] input
      else readPath kind ['/'] input

def readAuthority (scheme : String) (input : List Char) : Except UrlFault Url := do
  let kind := schemeKind scheme
  let inAuthority := fun c => !endsAuthority kind c
  let (userinfo, named, input) ← match cutLastAt (input.takeWhile inAuthority) with
    | none => .ok ([], false, input)
    | some (userinfo, after) =>
      let rest := after ++ input.dropWhile inAuthority
      if userinfo.isEmpty && rest.head?.any (endsAuthority kind) then
        .error .hostEmpty
      else
        let kept := userinfoText userinfo
        .ok (kept, !kept.isEmpty, rest)
  let (host, rest) := cutHost kind false input
  if kind.isSpecial && host.isEmpty then .error .hostEmpty
  let host ← if kind.isSpecial then readDomain host else readOpaqueHost host
  if host.isEmpty && rest.head? == some ':' then .error .hostEmpty
  let (port, rest) ← match rest with
    | ':' :: digits => readPort scheme digits
    | _ => .ok (none, rest)
  if host.isEmpty && named then .error .hostEmpty
  let (path, _, rest) := readPathAfter kind rest
  return ofParts scheme (some ⟨userinfo, host, port⟩) path rest

def cutSlash (input : List Char) : Bool × List Char :=
  match input.dropWhile isIgnored with
  | c :: rest => if endsSegment .file c then (true, rest) else (false, c :: rest)
  | [] => (false, [])

/-- A `file` URL with a host or none, from the text of its path below the root. -/
def fileAt (host input : List Char) : Url :=
  let (path, keepsHost, rest) := readPath .file ['/'] input
  ofParts "file" (some ⟨[], if keepsHost then host else [], none⟩) path rest

/-- Reads what follows the two slashes of a `file` URL. The host `localhost` is the
same as none, and a drive letter in place of a host begins the path. -/
def readFileHost (input : List Char) : Except UrlFault Url := do
  let inHost := fun c => !endsAuthority .file c
  let text := withoutIgnored (input.takeWhile inHost)
  let rest := input.dropWhile inHost
  if isDrive text then return fileAt [] input
  let host ← if text.isEmpty then .ok [] else readDomain text
  if host.isEmpty || host == "localhost".toList then return fileAt [] rest
  return fileAt host (cutSlash rest).2

def readFile (input : List Char) : Except UrlFault Url :=
  let (slashed, below) := cutSlash input
  let (doubled, further) := cutSlash below
  if slashed && doubled then readFileHost further
  else .ok (fileAt [] below)

/-- Reads a URL whose scheme is not special. Without a slash in front its path is
opaque. -/
def readOther (scheme : String) (input : List Char) : Except UrlFault Url :=
  match input with
  | '/' :: '/' :: rest => readAuthority scheme rest
  | '/' :: rest =>
    let (path, _, rest) := readPath .other ['/'] rest
    .ok (ofParts scheme none path rest)
  | _ =>
    let path := encode escapedInOpaque (input.takeWhile fun c => !endsPath c)
    .ok (ofParts scheme none path (input.dropWhile fun c => !endsPath c))

def parse (input : String) : Except UrlFault Url :=
  match cutScheme? (trim input.toList) with
  | none => .error .relative
  | some (scheme, rest) =>
    match schemeKind scheme with
    | .file => readFile rest
    | .network =>
      readAuthority scheme ((withoutIgnored rest).dropWhile fun c => c == '/' || c == '\\')
    | .other => readOther scheme (withoutIgnored rest)

end Url

end PackageRecipes
