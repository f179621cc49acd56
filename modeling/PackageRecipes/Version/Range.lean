import PackageRecipes.Text
import PackageRecipes.Version

/-! Ranges of versions. An upper bound admits, besides the versions up to it, every
version that it is a prefix of: `:1.2` holds `1.2.7`, and the lone version
`1.2` stands for the range `1.2:1.2`. -/

namespace PackageRecipes

/-- The versions between two bounds; a missing bound excludes nothing. -/
structure VersionRange where
  lower : Option Version
  upper : Option Version
  deriving BEq

namespace Version

/-- Of two upper bounds the one that admits fewer versions. -/
def tighterUpper (left right : Version) : Version :=
  if left.isPrefixOf right then right
  else if right.isPrefixOf left then left
  else if compare left right = .gt then right
  else left

/-- Of two lower bounds the one that admits fewer versions; the second of equals. -/
def tighterLower (left right : Version) : Version :=
  if compare left right = .gt then left else right

/-- The version is at most the bound, or extends it. -/
def isWithinUpper (version bound : Version) : Bool :=
  (compare version bound).isLE || bound.isPrefixOf version

end Version

namespace VersionRange

instance : Ord VersionRange := ⟨compareLex (compareOn lower) (compareOn upper)⟩

instance : Std.TransOrd VersionRange :=
  inferInstanceAs (Std.TransCmp (compareLex (compareOn lower) (compareOn upper)))

def any : VersionRange := ⟨none, none⟩

def exact (version : Version) : VersionRange := ⟨some version, some version⟩

def isAny (range : VersionRange) : Bool :=
  range.lower.isNone && range.upper.isNone

def admitsBelow (range : VersionRange) (version : Version) : Bool :=
  range.upper.all version.isWithinUpper

def contains (range : VersionRange) (version : Version) : Bool :=
  range.lower.all (fun bound => (compare bound version).isLE) && range.admitsBelow version

/-- No version lies in the range; the lower bound decides, as every version above
it that the upper bound admits makes the lower bound itself admitted. -/
def isEmpty (range : VersionRange) : Bool :=
  match range.lower with
  | some bound => !range.admitsBelow bound
  | none => false

/-- The bound that two optional bounds make together. -/
def joinBounds (tighter : Version → Version → Version) :
    Option Version → Option Version → Option Version
  | some left, some right => some (tighter left right)
  | some left, none => some left
  | none, right => right

/-- The overlap of two ranges, if some version lies in both. -/
def intersect (left right : VersionRange) : Option VersionRange :=
  let overlap : VersionRange :=
    ⟨joinBounds Version.tighterLower left.lower right.lower,
      joinBounds Version.tighterUpper left.upper right.upper⟩
  if overlap.isEmpty then none else some overlap

/-- Whether the bounds of `outer` leave `inner` whole. -/
def within (inner outer : VersionRange) : Bool :=
  (match outer.lower, inner.lower with
    | none, _ => true
    | some _, none => false
    | some outside, some inside => (compare outside inside).isLE) &&
  (match outer.upper, inner.upper with
    | none, _ => true
    | some _, none => false
    | some outside, some inside => Version.tighterUpper outside inside == inside)

/-- The text of a range: a lone version if both bounds are equal. -/
def text (range : VersionRange) : String :=
  match range.lower, range.upper with
  | some lower, some upper =>
    if lower == upper then lower.text else lower.text ++ ":" ++ upper.text
  | some lower, none => lower.text ++ ":"
  | none, some upper => ":" ++ upper.text
  | none, none => ":"

instance : ToString VersionRange := ⟨text⟩

/-- Reads one bound of a range; nothing but white space is no bound. -/
def parseBound (text : List Char) : Except Error (Option Version) :=
  if text.all Text.isBlank then .ok none
  else (Version.parse (String.ofList text)).map some

/-- Reads a lone version or two bounds around a colon. A range that admits no
version is refused. -/
def parse (text : List Char) : Except Error VersionRange :=
  match Text.cutOnce ':' text with
  | none => (Version.parse (String.ofList text)).map exact
  | some (before, after) => do
    let lower ← parseBound before
    let upper ← parseBound after
    let range : VersionRange := ⟨lower, upper⟩
    if range.isEmpty then .error (.version (String.ofList text)) else .ok range

end VersionRange

end PackageRecipes
