import PackageRecipes.Proofs.SpecEquality
import PackageRecipes.Version.Range

/-! Upper bounds form a total order by what they admit. A bound admits its extensions,
so of two bounds where one extends the other the longer one is tighter: the end
of a bound comes behind every segment. The tighter of two bounds is the lesser. -/

namespace PackageRecipes.Version
open Std

/-- The order of upper bounds, tightest first. -/
def compareUpperSegments : List Segment → List Segment → Ordering
  | [], [] => .eq
  | [], _ :: _ => .gt
  | _ :: _, [] => .lt
  | left :: lefts, right :: rights => (compare left right).then (compareUpperSegments lefts rights)

def compareUpper (left right : Version) : Ordering :=
  compareUpperSegments left.segments right.segments

instance : TransCmp compareUpperSegments where
  eq_swap {left right} := by
    induction left generalizing right with
    | nil => cases right <;> rfl
    | cons first rest ih =>
      cases right with
      | nil => rfl
      | cons other others =>
        simp only [compareUpperSegments, Ordering.swap_then, ← ih]
        rw [OrientedOrd.eq_swap (a := first)]
  isLE_trans {left middle right} below above := by
    induction left generalizing middle right with
    | nil =>
      cases middle with
      | nil => exact above
      | cons => cases below
    | cons first rest ih =>
      cases right with
      | nil => rfl
      | cons last others =>
        cases middle with
        | nil => cases above
        | cons second between =>
          simp only [compareUpperSegments, Ordering.isLE_then_iff_and] at below above ⊢
          refine ⟨TransCmp.isLE_trans below.1 above.1, ?_⟩
          rcases below.2 with less | tail
          · exact .inl (TransCmp.lt_of_lt_of_isLE less above.1)
          · rcases above.2 with less | later
            · exact .inl (TransCmp.lt_of_isLE_of_lt below.1 less)
            · exact .inr (ih tail later)

instance : LawfulEqCmp compareUpperSegments where
  eq_of_compare {left right} same := by
    induction left generalizing right with
    | nil =>
      cases right with
      | nil => rfl
      | cons => cases same
    | cons first rest ih =>
      cases right with
      | nil => cases same
      | cons other others =>
        simp only [compareUpperSegments, Ordering.then_eq_eq] at same
        rw [LawfulEqOrd.eq_of_compare same.1, ih same.2]

instance : TransCmp compareUpper where
  eq_swap := (inferInstance : TransCmp compareUpperSegments).eq_swap
  isLE_trans := (inferInstance : TransCmp compareUpperSegments).isLE_trans

theorem compareUpper_eq_iff {left right : Version} : compareUpper left right = .eq ↔ left == right := by
  rw [beq_eq, beq_iff_eq]
  constructor
  · exact (inferInstance : LawfulEqCmp compareUpperSegments).eq_of_compare
  · exact (inferInstance : ReflCmp compareUpperSegments).cmp_eq_of_eq

private theorem prefix_not_tighter {short long : List Segment} (starts : short.isPrefixOf long = true) :
    compareUpperSegments short long ≠ .lt := by
  induction short generalizing long with
  | nil => cases long <;> simp [compareUpperSegments]
  | cons first rest ih =>
    cases long with
    | nil => cases starts
    | cons other others =>
      simp only [List.isPrefixOf, Bool.and_eq_true, beq_iff_eq] at starts
      obtain ⟨rfl, tail⟩ := starts
      simpa [compareUpperSegments, ReflOrd.compare_self] using ih tail

private theorem extension_tighter {short long : List Segment} (starts : short.isPrefixOf long = true)
    (proper : long.isPrefixOf short = false) : compareUpperSegments long short = .lt := by
  induction short generalizing long with
  | nil =>
    cases long with
    | nil => cases proper
    | cons => rfl
  | cons first rest ih =>
    cases long with
    | nil => cases starts
    | cons other others =>
      simp only [List.isPrefixOf, Bool.and_eq_true, beq_iff_eq] at starts
      obtain ⟨rfl, tail⟩ := starts
      simp only [List.isPrefixOf, BEq.rfl, Bool.true_and] at proper
      simpa [compareUpperSegments, ReflOrd.compare_self] using ih tail proper

/-- Bounds neither of which extends the other part at a segment, which decides. -/
private theorem compareUpperSegments_eq_compare {left right : List Segment}
    (forth : left.isPrefixOf right = false) (back : right.isPrefixOf left = false) :
    compareUpperSegments left right = compare left right := by
  induction left generalizing right with
  | nil => cases forth
  | cons first rest ih =>
    cases right with
    | nil => cases back
    | cons other others =>
      change _ = List.compareLex compare (first :: rest) (other :: others)
      rw [List.compareLex_cons_cons, compareUpperSegments]
      by_cases same : first = other
      · subst other
        simp only [List.isPrefixOf, BEq.rfl, Bool.true_and] at forth back
        rw [ih forth back]
        rfl
      · have apart : compare first other ≠ .eq := fun equal => same (LawfulEqOrd.eq_of_compare equal)
        cases order : compare first other <;> simp_all

theorem tighterUpper_eq (left right : Version) :
    tighterUpper left right = if compareUpper left right = .lt then left else right := by
  unfold tighterUpper compareUpper isPrefixOf
  by_cases forth : left.segments.isPrefixOf right.segments = true
  · simp [forth, prefix_not_tighter forth]
  · rw [Bool.not_eq_true] at forth
    by_cases back : right.segments.isPrefixOf left.segments = true
    · simp [forth, back, extension_tighter back forth]
    · rw [Bool.not_eq_true] at back
      simp only [forth, back, compareUpperSegments_eq_compare forth back]
      change (if compare left.segments right.segments = .gt then right else left) = _
      have apart : compare left.segments right.segments ≠ .eq := by
        intro same
        have whole := List.isPrefixOf_iff_prefix.mpr (List.prefix_refl right.segments)
        rw [LawfulEqOrd.eq_of_compare same, whole] at forth
        cases forth
      cases order : compare left.segments right.segments <;> simp_all

theorem compareUpper_tighterUpper (left right : Version) :
    (compareUpper (tighterUpper left right) left).isLE ∧
      (compareUpper (tighterUpper left right) right).isLE := by
  rw [tighterUpper_eq]
  split
  next less => exact ⟨ReflCmp.isLE_rfl, by rw [less]; rfl⟩
  next notLess => exact ⟨OrientedCmp.isGE_iff_isLE.mp (by cases order : compareUpper left right <;> simp_all),
      ReflCmp.isLE_rfl⟩

theorem compareUpper_tighterUpper_of_le {bound left right : Version}
    (first : (compareUpper bound left).isLE) (second : (compareUpper bound right).isLE) :
    (compareUpper bound (tighterUpper left right)).isLE := by
  rw [tighterUpper_eq]
  split <;> assumption

/-- A version is within a bound unless it departs from it upwards. -/
def isWithinUpperSegments : List Segment → List Segment → Bool
  | [], _ | _, [] => true
  | first :: rest, bound :: bounds =>
    match compare first bound with
    | .lt => true
    | .eq => isWithinUpperSegments rest bounds
    | .gt => false

private theorem isWithinUpper_eq (version bound : Version) :
    version.isWithinUpper bound = isWithinUpperSegments version.segments bound.segments := by
  change ((compare version.segments bound.segments).isLE || bound.segments.isPrefixOf version.segments) = _
  generalize version.segments = segments
  generalize bound.segments = bounds
  induction segments generalizing bounds with
  | nil => cases bounds <;> rfl
  | cons first rest ih =>
    cases bounds with
    | nil => simp [isWithinUpperSegments]
    | cons limit limits =>
      change ((List.compareLex compare (first :: rest) (limit :: limits)).isLE || _) = _
      rw [List.compareLex_cons_cons, isWithinUpperSegments, ← ih]
      cases order : compare first limit with
      | eq =>
        rw [LawfulEqOrd.eq_of_compare order]
        simp [List.isPrefixOf]
        rfl
      | lt => rfl
      | gt =>
        have apart : (limit == first) = false := by
          rw [beq_eq_false_iff_ne]
          rintro rfl
          rw [ReflOrd.compare_self] at order
          cases order
        simp [List.isPrefixOf, apart]

private theorem isWithinUpperSegments_of_le {lower version bound : List Segment}
    (below : (List.compareLex compare lower version).isLE)
    (inside : isWithinUpperSegments version bound = true) : isWithinUpperSegments lower bound = true := by
  induction lower generalizing version bound with
  | nil => simp [isWithinUpperSegments]
  | cons first rest ih =>
    cases bound with
    | nil => simp [isWithinUpperSegments]
    | cons limit limits =>
      cases version with
      | nil => simp [List.compareLex_cons_nil] at below
      | cons middle between =>
        rw [List.compareLex_cons_cons, Ordering.isLE_then_iff_and] at below
        unfold isWithinUpperSegments at inside ⊢
        split at inside
        next less =>
          rw [TransCmp.lt_of_isLE_of_lt below.1 less]
        next same =>
          rcases below.2 with less | tail
          · rw [TransCmp.lt_of_lt_of_eq less same]
          · rw [← TransCmp.congr_right same]
            cases order : compare first middle with
            | lt => rfl
            | eq => exact ih tail inside
            | gt => rw [order] at below; cases below.1
        next => cases inside

private theorem isWithinUpperSegments_mono {version bound outer : List Segment}
    (tighter : (compareUpperSegments bound outer).isLE)
    (inside : isWithinUpperSegments version bound = true) : isWithinUpperSegments version outer = true := by
  induction version generalizing bound outer with
  | nil => simp [isWithinUpperSegments]
  | cons first rest ih =>
    cases outer with
    | nil => simp [isWithinUpperSegments]
    | cons limit limits =>
      cases bound with
      | nil => cases tighter
      | cons middle between =>
        rw [compareUpperSegments, Ordering.isLE_then_iff_and] at tighter
        unfold isWithinUpperSegments at inside ⊢
        split at inside
        next less =>
          rw [TransCmp.lt_of_lt_of_isLE less tighter.1]
        next same =>
          rw [TransCmp.congr_left same]
          rcases tighter.2 with less | tail
          · rw [less]
          · cases order : compare middle limit with
            | lt => rfl
            | eq => exact ih tail inside
            | gt => rw [order] at tighter; cases tighter.1
        next => cases inside

theorem isWithinUpper_of_le {lower version bound : Version} (below : (compare lower version).isLE)
    (inside : version.isWithinUpper bound = true) : lower.isWithinUpper bound = true := by
  rw [isWithinUpper_eq] at inside ⊢
  exact isWithinUpperSegments_of_le below inside

theorem isWithinUpper_mono {version bound outer : Version} (tighter : (compareUpper bound outer).isLE)
    (inside : version.isWithinUpper bound = true) : version.isWithinUpper outer = true := by
  rw [isWithinUpper_eq] at inside ⊢
  exact isWithinUpperSegments_mono tighter inside

@[simp] theorem isWithinUpper_self (version : Version) : version.isWithinUpper version = true := by
  simp [isWithinUpper, ReflOrd.compare_self]

/-- What the tighter of two bounds admits is what both of them admit. -/
theorem isWithinUpper_tighterUpper (version left right : Version) :
    version.isWithinUpper (tighterUpper left right) = (version.isWithinUpper left && version.isWithinUpper right) := by
  rw [Bool.eq_iff_iff, Bool.and_eq_true]
  constructor
  · intro inside
    have tighter := compareUpper_tighterUpper left right
    exact ⟨isWithinUpper_mono tighter.1 inside, isWithinUpper_mono tighter.2 inside⟩
  · rintro ⟨first, second⟩
    rw [tighterUpper_eq]
    split <;> assumption

end PackageRecipes.Version
