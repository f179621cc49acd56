import PackageRecipes.Version.Range

/-! Unions of version ranges, as constraint expressions write them after an `@`. -/

namespace PackageRecipes

/-- The versions in at least one of the ranges. -/
structure VersionList where
  ranges : List VersionRange
  deriving BEq

namespace VersionList

instance : Ord VersionList := ⟨compareOn ranges⟩

instance : Std.TransOrd VersionList :=
  inferInstanceAs (Std.TransCmp (compareOn ranges))

def any : VersionList := ⟨[.any]⟩

instance : Inhabited VersionList := ⟨any⟩

def isAny (list : VersionList) : Bool :=
  list.ranges.any (·.isAny)

def contains (list : VersionList) (version : Version) : Bool :=
  list.ranges.any (·.contains version)

/-- The ranges in order and each once. A range without bounds covers all others
and stands alone. -/
def normalize (ranges : List VersionRange) : VersionList :=
  if ranges.any (·.isAny) then any
  else ⟨(ranges.mergeSort fun left right => (compare left right).isLE).eraseReps⟩

/-- The versions that two lists both admit, if there are any. -/
def intersect (left right : VersionList) : Option VersionList :=
  if left.isAny then some right
  else if right.isAny then some left
  else
    let overlaps := left.ranges.flatMap fun range => right.ranges.filterMap range.intersect
    if overlaps.isEmpty then none else some (normalize overlaps)

/-- Each range of `inner` lies within a range of `outer`. -/
def within (inner outer : VersionList) : Bool :=
  outer.isAny || inner.ranges.all fun range => outer.ranges.any range.within

def text (list : VersionList) : String :=
  ",".intercalate (list.ranges.map (·.text))

instance : ToString VersionList := ⟨text⟩

def parse (text : String) : Except Error VersionList := do
  let ranges ← (Text.fields ',' text.toList).mapM fun part =>
    let trimmed := Text.trimList part
    if trimmed.isEmpty then .error (.version text) else VersionRange.parse trimmed
  return normalize ranges

end VersionList

end PackageRecipes
