import PackageRecipes.Text
import PackageRecipes.Url.Percent

/-! Paths of URLs: segments between slashes, with `.` and `..` resolved as they are
read. A drive letter at the top of a `file` URL is written `C:`, and `..` does not
lead out of one. Special schemes are those whose URLs have a host, a path and known ports,
and a backslash in them counts as a slash. -/

namespace PackageRecipes.Url

inductive SchemeKind where
  | file
  | network
  | other
  deriving DecidableEq

def schemeKind (scheme : String) : SchemeKind :=
  if scheme == "file" then .file
  else if ["http", "https", "ws", "wss", "ftp"].contains scheme then .network
  else .other

def SchemeKind.isSpecial : SchemeKind → Bool
  | .other => false
  | _ => true

def defaultPort? (scheme : String) : Option Nat :=
  if scheme == "http" || scheme == "ws" then some 80
  else if scheme == "https" || scheme == "wss" then some 443
  else if scheme == "ftp" then some 21
  else none

/-- A tab or a line break, which a URL may have anywhere without a meaning. -/
def isIgnored (c : Char) : Bool :=
  c == '\t' || c == '\n' || c == '\r'

def withoutIgnored (input : List Char) : List Char :=
  input.filter fun c => !isIgnored c

def endsSegment (kind : SchemeKind) (c : Char) : Bool :=
  c == '/' || (c == '\\' && kind.isSpecial)

def endsPath (c : Char) : Bool :=
  c == '?' || c == '#'

def isDrive (segment : List Char) : Bool :=
  match segment with
  | [letter, mark] => Text.isLetter letter && (mark == ':' || mark == '|')
  | _ => false

def isNormalDrive (segment : List Char) : Bool :=
  isDrive segment && segment.getLast? == some ':'

/-- The path goes down to a drive letter before anything else. -/
def beginsWithDrive (path : List Char) : Bool :=
  match path with
  | '/' :: letter :: mark :: rest =>
    isDrive [letter, mark] &&
      (rest.isEmpty || rest.head?.any fun c => c == '/' || c == '\\' || endsPath c)
  | _ => false

def isHere (segment : List Char) : Bool :=
  [".", "%2e"].contains (String.ofList (segment.map Text.lower))

def isUp (segment : List Char) : Bool :=
  ["..", "%2e%2e", "%2e.", ".%2e"].contains (String.ofList (segment.map Text.lower))

def lastSegment (path : List Char) : List Char :=
  (path.takeWhile (· != '/')).reverse

/-- The slash at the end of a path may go, unless it is the first one or follows a
drive letter. The path behind it is written backwards. -/
def slashMayGo (path : List Char) : Bool :=
  path.contains '/' && !beginsWithDrive ('/' :: lastSegment path ++ ['/'])

/-- A path without its last segment, both written backwards; a drive letter in a `file`
URL stays. -/
def shorten (kind : SchemeKind) (path : List Char) : List Char :=
  if kind == .file && isNormalDrive (lastSegment path) then path
  else path.dropWhile (· != '/')

/-- A path being read: the text above its current segment and that segment, both
backwards, whether a host may stand before it, and whether the last character was an
ignored one. -/
structure Reading where
  above : List Char
  segment : List Char
  keepsHost : Bool
  paused : Bool

namespace Reading

/-- The current segment is a drive letter right below the root of a `file` URL. -/
def isAtDrive (kind : SchemeKind) (reading : Reading) : Bool :=
  kind == .file && reading.above == ['/'] && isDrive reading.segment.reverse

/-- Cuts a drive letter off the segment that goes on behind its colon. -/
def divide (reading : Reading) : Reading :=
  { reading with
    above := reading.segment.drop 1 ++ reading.above
    segment := '/' :: reading.segment.take 1 }

/-- Adds a character to the current segment. Where an ignored character stands behind
a drive letter and its colon, a slash goes before what follows. -/
def push (kind : SchemeKind) (reading : Reading) (c : Char) : Reading :=
  if isIgnored c then { reading with paused := true }
  else
    let resumed := reading.paused && reading.segment.head? == some ':' && reading.isAtDrive kind
    let reading := if resumed then reading.divide else reading
    { reading with
      segment := (encodeCharacter escapedInPath c).reverse ++ reading.segment
      paused := false }

/-- The path above the next segment, backwards, when the current one has ended. A slash
follows it or not. A drive letter below the root gets its colon. -/
def closed (kind : SchemeKind) (slash : Bool) (reading : Reading) : List Char :=
  let segment := reading.segment.reverse
  let ending := if slash then ['/'] else []
  if isUp segment then
    let path := shorten kind (match reading.above with
      | '/' :: path => if slashMayGo path then path else '/' :: path
      | path => path)
    if path.head? == some '/' then path else ending ++ path
  else if isHere segment then
    if reading.above.head? == some '/' then reading.above else '/' :: reading.above
  else if reading.isAtDrive kind then ending ++ ':' :: segment.take 1 ++ reading.above
  else ending ++ reading.segment ++ reading.above

/-- Ends the current segment. No host may stand before a drive letter. -/
def close (kind : SchemeKind) (slash : Bool) (reading : Reading) : Reading :=
  { above := reading.closed kind slash
    segment := []
    keepsHost := reading.keepsHost && !reading.isAtDrive kind
    paused := false }

end Reading

/-- Reads segments up to a query, a fragment or the end; gives what follows too. -/
def readSegments (kind : SchemeKind) (reading : Reading) (input : List Char) :
    Reading × List Char :=
  let inSegment := fun c => !endsSegment kind c && !endsPath c
  let filled := (input.takeWhile inSegment).foldl (Reading.push kind) reading
  match _found : input.dropWhile inSegment with
  | [] => (filled.close kind false, [])
  | c :: rest =>
    if endsPath c then (filled.close kind false, c :: rest)
    else readSegments kind (filled.close kind true) rest
termination_by input.length
decreasing_by
  have run := Text.length_dropWhile_le inSegment input
  rw [_found] at run
  simp only [List.length_cons] at run
  omega

/-- A path read behind the text `before`, whether the host before it stays, and what
follows the path. A `file` URL's path has one slash in front. -/
def readPath (kind : SchemeKind) (before input : List Char) : List Char × Bool × List Char :=
  let (reading, rest) := readSegments kind ⟨before.reverse, [], true, false⟩ input
  let path := reading.above.reverse
  let path := if kind == .file then '/' :: path.dropWhile (· == '/') else path
  (path, reading.keepsHost, rest)

end PackageRecipes.Url
