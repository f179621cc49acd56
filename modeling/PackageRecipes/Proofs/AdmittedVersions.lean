import PackageRecipes.Proofs.ObtainableSpecs

/-! What intersections admit. A range without a version is known by its lower bound, as an
upper bound that admits any version above the lower bound admits the lower bound too.
So an intersection is missing only where no version is admitted by both sides, and
otherwise admits just the versions that both sides admit. -/

namespace PackageRecipes
open Std

/-- An intersection admits exactly what both sides admit, and there is one exactly if they
admit some version together. -/
structure IsIntersection {α : Type} (admits : α → Version → Bool) (left right : α) (both : Option α) : Prop where
  admits_eq : ∀ found, both = some found → ∀ version, admits found version = (admits left version && admits right version)
  none_iff : both = none ↔ ∀ version, (admits left version && admits right version) = false

instance : Nonempty Version := ⟨⟨"0", [.number 0], by decide +kernel⟩⟩

namespace VersionRange
open Version

/-- What the tighter of two lower bounds admits is what both of them admit. -/
private theorem isLE_compare_tighterLower (left right version : Version) :
    (compare (tighterLower left right) version).isLE = ((compare left version).isLE && (compare right version).isLE) := by
  rw [Bool.eq_iff_iff, Bool.and_eq_true]
  constructor
  · intro above
    obtain ⟨first, second⟩ := lowerMeet.below (rfl : some (tighterLower left right) = _)
    exact ⟨TransOrd.isLE_trans first above, TransOrd.isLE_trans second above⟩
  · intro ⟨first, second⟩
    unfold tighterLower
    split <;> assumption

private theorem all_joinBounds {tighter : Version → Version → Version} (admits : Version → Bool)
    (both : ∀ left right, admits (tighter left right) = (admits left && admits right)) (left right : Option Version) :
    (joinBounds tighter left right).all admits = (left.all admits && right.all admits) := by
  cases left <;> cases right <;> simp [joinBounds, both]

private theorem contains_joinBounds (left right : VersionRange) (version : Version) :
    contains ⟨joinBounds tighterLower left.lower right.lower, joinBounds tighterUpper left.upper right.upper⟩ version =
      (left.contains version && right.contains version) := by
  have lower := all_joinBounds (fun bound => (compare bound version).isLE)
    (isLE_compare_tighterLower · · version) left.lower right.lower
  have upper := all_joinBounds version.isWithinUpper (isWithinUpper_tighterUpper version) left.upper right.upper
  simp only [contains, admitsBelow, lower, upper]
  ac_rfl

/-- A range that admits any version at all admits one of its bounds, unless it has none. -/
theorem exists_contains {range : VersionRange} (inhabited : range.isEmpty = false) :
    ∃ version, range.contains version = true := by
  obtain ⟨lower, upper⟩ := range
  cases lower with
  | some bound =>
    have below : admitsBelow ⟨some bound, upper⟩ bound = true := by simpa [isEmpty] using inhabited
    exact ⟨bound, by simp [contains, below, ReflOrd.compare_self]⟩
  | none =>
    cases upper with
    | some bound => exact ⟨bound, by simp [contains, admitsBelow]⟩
    | none =>
      obtain ⟨version⟩ := (inferInstance : Nonempty Version)
      exact ⟨version, rfl⟩

private theorem admitsBelow_of_contains {range : VersionRange} {bound version : Version}
    (lower : range.lower = some bound)
    (admitted : range.contains version = true) : range.admitsBelow bound = true := by
  obtain ⟨above, below⟩ := Bool.and_eq_true_iff.mp admitted
  rw [lower] at above
  unfold admitsBelow at below ⊢
  cases upper : range.upper with
  | none => rfl
  | some limit =>
    rw [upper] at below
    exact isWithinUpper_of_le above below

theorem isEmpty_iff {range : VersionRange} : range.isEmpty = true ↔ ∀ version, range.contains version = false := by
  constructor
  · intro empty version
    unfold isEmpty at empty
    split at empty
    next bound lower =>
      rw [Bool.eq_false_iff]
      intro admitted
      rw [admitsBelow_of_contains lower admitted] at empty
      cases empty
    next => cases empty
  · intro none
    rw [← Bool.not_eq_false]
    intro inhabited
    obtain ⟨version, admitted⟩ := exists_contains inhabited
    rw [none] at admitted
    cases admitted

private theorem intersect_eq_none_iff {left right : VersionRange} :
    left.intersect right = none ↔
      isEmpty ⟨joinBounds tighterLower left.lower right.lower, joinBounds tighterUpper left.upper right.upper⟩ = true := by
  simp [intersect]

theorem isIntersection_intersect (left right : VersionRange) :
    IsIntersection contains left right (left.intersect right) where
  admits_eq both found version := by
    rw [(intersect_eq_some_iff.mp found).1]
    exact contains_joinBounds left right version
  none_iff := by
    rw [intersect_eq_none_iff, isEmpty_iff]
    simp only [contains_joinBounds]

theorem contains_of_within {inner outer : VersionRange} (inside : inner.within outer = true) {version : Version}
    (admitted : inner.contains version = true) : outer.contains version = true := by
  obtain ⟨innerLower, innerUpper⟩ := inner
  obtain ⟨outerLower, outerUpper⟩ := outer
  obtain ⟨lower, upper⟩ := within_iff.mp inside
  obtain ⟨above, below⟩ := Bool.and_eq_true_iff.mp admitted
  apply Bool.and_eq_true_iff.mpr
  constructor
  · cases outerLower with
    | none => rfl
    | some outside =>
      obtain ⟨bound, rfl, tighter⟩ := exists_of_meetsOptional lower
      exact TransOrd.isLE_trans tighter above
  · cases outerUpper with
    | none => rfl
    | some outside =>
      obtain ⟨bound, rfl, tighter⟩ := exists_of_meetsOptional upper
      exact isWithinUpper_mono (upperMeets_iff.mp tighter) below

end VersionRange

namespace VersionList
open VersionRange

variable {left right both : VersionList} {version : Version}

theorem contains_iff {list : VersionList} :
    list.contains version = true ↔ ∃ range ∈ list.ranges, range.contains version = true :=
  List.any_eq_true

theorem contains_of_within {inner outer : VersionList} (inside : inner.within outer = true)
    (admitted : inner.contains version = true) : outer.contains version = true := by
  obtain ⟨range, member, admits⟩ := contains_iff.mp admitted
  obtain ⟨other, present, covers⟩ := within_iff.mp inside range member
  exact contains_iff.mpr ⟨other, present, VersionRange.contains_of_within covers admits⟩

theorem Proper.exists_contains {list : VersionList} (proper : list.Proper) :
    ∃ version, list.contains version = true := by
  obtain ⟨range, member⟩ := List.exists_mem_of_ne_nil list.ranges proper.nonempty
  obtain ⟨version, admits⟩ := VersionRange.exists_contains (proper.ranges range member)
  exact ⟨version, contains_iff.mpr ⟨range, member, admits⟩⟩

/-- A version that two lists admit is admitted by an overlap of their ranges. -/
private theorem exists_overlap (inLeft : left.contains version = true) (inRight : right.contains version = true) :
    ∃ overlap ∈ left.overlaps right, overlap.contains version = true := by
  obtain ⟨first, member, admitsFirst⟩ := contains_iff.mp inLeft
  obtain ⟨second, present, admitsSecond⟩ := contains_iff.mp inRight
  have exact := isIntersection_intersect first second
  cases found : first.intersect second with
  | none =>
    have apart := exact.none_iff.mp found version
    rw [admitsFirst, admitsSecond] at apart
    cases apart
  | some overlap =>
    have admits : overlap.contains version = true := by rw [exact.admits_eq overlap found, admitsFirst, admitsSecond]; rfl
    exact ⟨overlap, mem_overlaps.mpr ⟨first, member, second, present, found⟩, admits⟩

private theorem contains_of_intersect (found : left.intersect right = some both) (inLeft : left.contains version = true)
    (inRight : right.contains version = true) : both.contains version = true := by
  rcases intersect_cases found with ⟨_, rfl⟩ | ⟨_, rfl⟩ | ⟨_, rfl⟩
  · exact inRight
  · exact inLeft
  · obtain ⟨overlap, member, admits⟩ := exists_overlap inLeft inRight
    obtain ⟨normal, kept, covers⟩ := exists_mem_normalize member
    exact contains_iff.mpr ⟨normal, kept, VersionRange.contains_of_within covers admits⟩

theorem contains_intersect (found : left.intersect right = some both) (version : Version) :
    both.contains version = (left.contains version && right.contains version) := by
  obtain ⟨first, second⟩ := listMeet.below found
  rw [Bool.eq_iff_iff, Bool.and_eq_true]
  exact ⟨fun admits => ⟨contains_of_within first admits, contains_of_within second admits⟩,
    fun admits => contains_of_intersect found admits.1 admits.2⟩

theorem isIntersection_intersect (first : left.Proper) (second : right.Proper) :
    IsIntersection contains left right (left.intersect right) where
  admits_eq both found := contains_intersect found
  none_iff := by
    constructor
    · intro none version
      rw [Bool.eq_false_iff]
      intro admits
      obtain ⟨inLeft, inRight⟩ := Bool.and_eq_true_iff.mp admits
      obtain ⟨overlap, member, _⟩ := exists_overlap inLeft inRight
      obtain ⟨one, inLeft, other, inRight, found⟩ := mem_overlaps.mp member
      obtain ⟨both, whole⟩ := exists_intersect ⟨one, inLeft, other, inRight, overlap, found, BEq.refl overlap⟩
      cases none.symm.trans whole
    · intro apart
      rw [Option.eq_none_iff_forall_ne_some]
      intro both found
      obtain ⟨version, admitted⟩ := (proper_intersect first second found).exists_contains
      rw [contains_intersect found, apart] at admitted
      cases admitted

inductive Obtainable : VersionList → Prop where
  | any : Obtainable any
  | parsed {text : String} {list : VersionList} (read : parse text = .ok list) : Obtainable list
  | intersected {left right both : VersionList} (first : Obtainable left) (second : Obtainable right)
      (found : left.intersect right = some both) : Obtainable both

theorem Obtainable.normal {list : VersionList} (obtainable : list.Obtainable) : list.Normal := by
  induction obtainable with
  | any => exact normal_any
  | parsed read => exact normal_of_parse read
  | intersected _ _ found first second => exact normal_intersect first second found

end VersionList

theorem Spec.admitsVersion_of_constrain {left right both : Spec} (run : left.constrain right = .ok both)
    (version : Version) :
    both.admitsVersion version = (left.admitsVersion version && right.admitsVersion version) := by
  obtain ⟨node, _⟩ := narrow_eq_ok_iff.mp (constrain_eq_ok_iff.mp run)
  obtain ⟨_, listed, _⟩ := Node.narrow_eq_ok_iff.mp node
  exact VersionList.contains_intersect listed version

/-- Ranges, lists of ranges and expressions narrow to what admits the versions that both
sides admit, and ranges and lists have no intersection only where there are none. -/
theorem intersections_are_exact :
    (∀ left right : VersionRange, IsIntersection VersionRange.contains left right (left.intersect right)) ∧
    (∀ left right : VersionList, left.Obtainable → right.Obtainable →
      IsIntersection VersionList.contains left right (left.intersect right)) ∧
    ∀ left right both : Spec, left.constrain right = .ok both →
      ∀ version, both.admitsVersion version = (left.admitsVersion version && right.admitsVersion version) :=
  ⟨VersionRange.isIntersection_intersect,
    fun _ _ first second => VersionList.isIntersection_intersect first.normal.toProper second.normal.toProper,
    fun _ _ _ => Spec.admitsVersion_of_constrain⟩

theorem prefix_bounds_intersect :
    ∃ left right both : VersionList,
      VersionList.parse "1.2.3:1.2" = .ok left ∧ VersionList.parse ":1.2.5" = .ok right ∧
      left.intersect right = some both ∧
      (∀ version, both.contains version = (left.contains version && right.contains version)) ∧
      ∃ spec other narrowed : Spec,
        Spec.parse "zlib@1.2.3:1.2 %gcc" = .ok spec ∧ Spec.parse "@:1.2.5 +pic" = .ok other ∧
        spec.constrain other = .ok narrowed ∧
        ∀ version, narrowed.admitsVersion version = (spec.admitsVersion version && other.admitsVersion version) := by
  have overlap : (do
      let left ← (VersionList.parse "1.2.3:1.2").toOption
      let right ← (VersionList.parse ":1.2.5").toOption
      left.intersect right).isSome = true := by decide +kernel
  have narrows : (do
      let spec ← Spec.parse "zlib@1.2.3:1.2 %gcc"
      let other ← Spec.parse "@:1.2.5 +pic"
      spec.constrain other).isOk = true := by decide +kernel
  obtain ⟨_, lists, specs⟩ := intersections_are_exact
  obtain ⟨both, found⟩ := Option.isSome_iff_exists.mp overlap
  obtain ⟨left, readLeft, found⟩ := Option.bind_eq_some_iff.mp found
  obtain ⟨right, readRight, found⟩ := Option.bind_eq_some_iff.mp found
  have readLeft := toOption_eq_some.mp readLeft
  have readRight := toOption_eq_some.mp readRight
  obtain ⟨narrowed, run⟩ := isOk_iff.mp narrows
  obtain ⟨spec, readSpec, run⟩ := bind_eq_ok.mp run
  obtain ⟨other, readOther, run⟩ := bind_eq_ok.mp run
  exact ⟨left, right, both, readLeft, readRight, found,
    (lists left right (.parsed readLeft) (.parsed readRight)).admits_eq both found,
    spec, other, narrowed, readSpec, readOther, run, specs spec other narrowed run⟩

end PackageRecipes
