import PackageRecipes.Proofs.AdmittedVersions
import PackageRecipes.Proofs.NormalVersions

/-! A range lies within another one where their overlap is the range itself. This is how
an order and its meet belong together, and holds for every partial meet. Upper bounds
are the part in which prefixes are mixed with the order of versions: the tighter of two
is their minimum in the total order of upper bounds. -/

namespace PackageRecipes
open Std

theorem PartialMeet.meets_iff_narrow {α : Type} [BEq α] [EquivBEq α] {meets : α → α → Bool} {proper : α → Prop}
    {narrow : α → α → Option α} (meet : PartialMeet meets proper narrow)
    (ofEqual : ∀ {left right}, (left == right) = true → meets left right = true)
    (antisymm : ∀ {left right}, meets left right = true → meets right left = true → (left == right) = true)
    {value other : α} (valid : proper value) :
    meets value other = true ↔ (narrow value other == some value) = true := by
  constructor
  · intro inside
    obtain ⟨both, narrowed, below⟩ := meet.greatest valid (meet.refl value) inside
    rw [narrowed]
    exact antisymm (meet.below narrowed).1 below
  · intro unchanged
    cases narrowed : narrow value other with
    | none =>
      rw [narrowed] at unchanged
      cases unchanged
    | some both =>
      rw [narrowed] at unchanged
      exact meet.trans (ofEqual (BEq.symm unchanged)) (meet.below narrowed).2

/-- `least` is the minimum of two values in a total order that tells apart what `==` does. -/
structure IsMinimum {α : Type} [BEq α] (order : α → α → Ordering) (least : α → α → α) : Prop extends TransCmp order where
  eq_iff_beq : ∀ {left right}, order left right = .eq ↔ (left == right) = true
  either : ∀ left right, least left right = left ∨ least left right = right
  isLE_iff : ∀ {bound left right},
    (order bound (least left right)).isLE = true ↔ (order bound left).isLE = true ∧ (order bound right).isLE = true

section Minimum

variable {α : Type} [BEq α] {order : α → α → Ordering} {least : α → α → α}

private theorem IsMinimum.beq_of_bounds (minimum : IsMinimum order least) {left right : α}
    (bounds : ∀ bound, (order bound left).isLE = true ↔ (order bound right).isLE = true) :
    (left == right) = true := by
  have ordered := minimum.toTransCmp
  refine minimum.eq_iff_beq.mp (OrientedCmp.isLE_antisymm ?_ ?_)
  · exact (bounds left).mp ReflCmp.isLE_rfl
  · exact (bounds right).mpr ReflCmp.isLE_rfl

theorem IsMinimum.comm (minimum : IsMinimum order least) (left right : α) :
    (least left right == least right left) = true :=
  minimum.beq_of_bounds fun bound => by
    rw [minimum.isLE_iff, minimum.isLE_iff]
    exact and_comm

theorem IsMinimum.assoc (minimum : IsMinimum order least) (first second third : α) :
    (least (least first second) third == least first (least second third)) = true :=
  minimum.beq_of_bounds fun bound => by
    simp only [minimum.isLE_iff]
    exact and_assoc

theorem IsMinimum.idem (minimum : IsMinimum order least) (value : α) : (least value value == value) = true :=
  minimum.beq_of_bounds fun bound => by
    rw [minimum.isLE_iff]
    exact and_self_iff

end Minimum

namespace Version

theorem tighterUpper_isMinimum : IsMinimum compareUpper tighterUpper where
  eq_iff_beq := compareUpper_eq_iff
  either left right := by
    rw [tighterUpper_eq]
    split
    next => exact .inl rfl
    next => exact .inr rfl
  isLE_iff {bound left right} := by
    obtain ⟨first, second⟩ := compareUpper_tighterUpper left right
    constructor
    · intro below
      exact ⟨TransCmp.isLE_trans below first, TransCmp.isLE_trans below second⟩
    · rintro ⟨belowFirst, belowSecond⟩
      exact compareUpper_tighterUpper_of_le belowFirst belowSecond

end Version

namespace VersionRange
open Version

/-- A range that admits a version lies within another one exactly if it equals their overlap. -/
theorem within_iff_intersect {inner outer : VersionRange} {version : Version}
    (admitted : inner.contains version = true) :
    inner.within outer = true ↔ (inner.intersect outer == some inner) = true := by
  refine rangeMeet.meets_iff_narrow within_of_beq beq_of_within ?_
  rw [← Bool.not_eq_true]
  intro empty
  rw [isEmpty_iff.mp empty version] at admitted
  cases admitted

/-- Containment of ranges is what their overlaps say it is, as the tighter of two upper
bounds is a minimum of bounds that admits what both of them do. -/
theorem containment_agrees_with_overlap :
    (∀ inner outer : VersionRange, (∃ version, inner.contains version = true) →
      (inner.within outer = true ↔ (inner.intersect outer == some inner) = true)) ∧
    IsMinimum compareUpper tighterUpper ∧
    (∀ left right, (tighterUpper left right == tighterUpper right left) = true) ∧
    (∀ first second third,
      (tighterUpper (tighterUpper first second) third == tighterUpper first (tighterUpper second third)) = true) ∧
    (∀ bound, (tighterUpper bound bound == bound) = true) ∧
    ∀ version left right : Version,
      (version.isWithinUpper left = true ∧ version.isWithinUpper right = true) ↔
        version.isWithinUpper (tighterUpper left right) = true := by
  have minimum := tighterUpper_isMinimum
  refine ⟨?_, minimum, minimum.comm, minimum.assoc, minimum.idem, ?_⟩
  · rintro inner outer ⟨version, admitted⟩
    exact within_iff_intersect admitted
  · intro version left right
    rw [isWithinUpper_tighterUpper, Bool.and_eq_true]

/-- A bound that extends another one is the tighter of both, though it comes behind it. -/
theorem extended_bound_is_overlap : ∃ inner outer version,
    parse "1.2.3:1.2.9".toList = .ok inner ∧ parse ":1.2".toList = .ok outer ∧
      inner.contains version = true ∧ inner.within outer = true ∧ (inner.intersect outer == some inner) = true := by
  have inside : (do
      let inner ← parse "1.2.3:1.2.9".toList
      let outer ← parse ":1.2".toList
      let version ← Version.parse "1.2.5"
      return inner.contains version && inner.within outer).toOption = some true := by decide +kernel
  obtain ⟨inner, readInner, inside⟩ := bind_eq_ok.mp (toOption_eq_some.mp inside)
  obtain ⟨outer, readOuter, inside⟩ := bind_eq_ok.mp inside
  obtain ⟨version, _, inside⟩ := bind_eq_ok.mp inside
  obtain ⟨admitted, within⟩ := Bool.and_eq_true_iff.mp (Except.ok.inj inside)
  exact ⟨inner, outer, version, readInner, readOuter, admitted, within,
    (containment_agrees_with_overlap.1 inner outer ⟨version, admitted⟩).mp within⟩

end VersionRange

end PackageRecipes
