import PackageRecipes.Error
import PackageRecipes.Text

/-! Package versions. A version is read from its text character by character, as runs of
digits and of letters; what separates them is no part of its value, so two spellings
with the same runs are the same version. -/

namespace PackageRecipes

/-- One run of a version's text. -/
inductive Segment where
  | word (letters : String)
  | number (value : Nat)
  deriving DecidableEq

namespace Segment

/-- A word comes before every number. -/
protected def compare : Segment → Segment → Ordering
  | word left, word right => Ord.compare left right
  | word _, number _ => .lt
  | number _, word _ => .gt
  | number left, number right => Ord.compare left right

instance : Ord Segment := ⟨Segment.compare⟩

instance : Std.TransOrd Segment where
  eq_swap := by
    intro left right
    cases left with
    | word letters =>
      cases right with
      | word others => exact @Std.OrientedCmp.eq_swap String Ord.compare _ _ _
      | number => rfl
    | number value =>
      cases right with
      | word => rfl
      | number other => exact @Std.OrientedCmp.eq_swap Nat Ord.compare _ _ _
  isLE_trans := by
    intro left middle right
    cases left with
    | word first =>
      cases middle with
      | word second =>
        cases right with
        | word third => exact @Std.TransCmp.isLE_trans String Ord.compare _ _ _ _
        | number => exact fun _ _ => rfl
      | number =>
        cases right with
        | word => exact fun _ impossible => nomatch impossible
        | number => exact fun _ _ => rfl
    | number first =>
      cases middle with
      | word => exact fun impossible => nomatch impossible
      | number second =>
        cases right with
        | word => exact fun _ impossible => nomatch impossible
        | number third => exact @Std.TransCmp.isLE_trans Nat Ord.compare _ _ _ _

instance : Std.LawfulEqOrd Segment where
  compare_self := by
    intro segment
    cases segment with
    | word letters => exact @Std.ReflCmp.compare_self String Ord.compare _ _
    | number value => exact @Std.ReflCmp.compare_self Nat Ord.compare _ _
  eq_of_compare := by
    intro left right same
    cases left with
    | word letters =>
      cases right with
      | word others =>
        exact congrArg word (@Std.LawfulEqCmp.eq_of_compare String Ord.compare _ _ _ same)
      | number => nomatch same
    | number value =>
      cases right with
      | word => nomatch same
      | number other =>
        exact congrArg number (@Std.LawfulEqCmp.eq_of_compare Nat Ord.compare _ _ _ same)

end Segment

namespace Version

/-- Numbers in a version stay below this limit. -/
def numberLimit : Nat := Nat.pow 2 64

def isSeparator (c : Char) : Bool :=
  c == '.' || c == '-' || c == '_'

/-- How far a text has been read: the segments in it and the run that may go on. -/
structure Reading where
  segments : List Segment
  run : List Char

namespace Reading

/-- The run, if there is one, becomes a segment. -/
def flush (reading : Reading) : Option Reading :=
  if reading.run.isEmpty then some reading
  else if reading.run.all Text.isDigit then
    let value := Text.digitsValue 10 reading.run
    if value < numberLimit then some ⟨reading.segments ++ [.number value], []⟩ else none
  else some ⟨reading.segments ++ [.word (String.ofList reading.run)], []⟩

/-- A digit does not go on a run of letters, nor a letter one of digits. -/
def switches (reading : Reading) (c : Char) : Bool :=
  reading.run.getLast?.any fun last => Text.isDigit last != Text.isDigit c

def step (reading : Reading) (c : Char) : Option Reading :=
  if isSeparator c then reading.flush
  else if Text.isAlphanumeric c then do
    let ready ← if reading.switches c then reading.flush else some reading
    return { ready with run := ready.run ++ [c] }
  else none

end Reading

/-- The segments of a version's text. There is no version without one. -/
def segments? (text : List Char) : Option (List Segment) := do
  let reading ← text.foldlM Reading.step ⟨[], []⟩
  let finished ← reading.flush
  if finished.segments.isEmpty then none else some finished.segments

end Version

/-- A version as written, with the segments that its text reads as. -/
structure Version where
  text : String
  segments : List Segment
  read : Version.segments? text.toList = some segments

namespace Version

instance : ToString Version := ⟨text⟩

/-- Versions are equal when their segments are, however they are written. -/
instance : BEq Version := ⟨fun left right => left.segments == right.segments⟩

instance : Ord Version := ⟨compareOn segments⟩

instance : Std.TransOrd Version :=
  inferInstanceAs (Std.TransCmp (compareOn segments))

def parse (text : String) : Except Error Version :=
  let trimmed := Text.trim text
  if trimmed.isEmpty then .error (.version text)
  else match read : segments? trimmed.toList with
    | some segments => .ok ⟨trimmed, segments, read⟩
    | none => .error (.version trimmed)

/-- The segments of the first version begin the second: `1.2` extends to `1.2.4`. -/
def isPrefixOf (short long : Version) : Bool :=
  short.segments.isPrefixOf long.segments

end Version

end PackageRecipes
