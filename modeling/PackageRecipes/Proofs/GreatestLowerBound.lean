import PackageRecipes.Proofs.ObtainableSpecs

/-! Narrowing and satisfaction are two separate recursions over expressions. They agree:
narrowing fails only where nothing satisfies both sides, and otherwise gives the
weakest expression that does. -/

namespace PackageRecipes.Spec

theorem intersects_iff {left right : Spec} :
    left.intersects right = true ↔ ∃ both, left.constrain right = .ok both := by
  simp only [intersects, isOk_iff, constrain_eq_ok_iff]

theorem satisfies_of_constrain {left right both : Spec} (run : left.constrain right = .ok both) :
    both.satisfies left = true ∧ both.satisfies right = true :=
  specMeet.below (toOption_eq_some.mpr (constrain_eq_ok_iff.mp run))

private theorem exists_constrain {spec left right : Spec} (obtainable : spec.Obtainable)
    (first : spec.satisfies left = true) (second : spec.satisfies right = true) :
    ∃ both, left.constrain right = .ok both ∧ spec.satisfies both = true := by
  obtain ⟨both, narrowed, least⟩ := specMeet.greatest obtainable.proper first second
  exact ⟨both, constrain_eq_ok_iff.mpr (toOption_eq_some.mp narrowed), least⟩

theorem intersects_iff_satisfied {left right : Spec} (first : left.Obtainable) (second : right.Obtainable) :
    left.intersects right = true ↔
      ∃ spec : Spec, spec.Obtainable ∧ spec.satisfies left = true ∧ spec.satisfies right = true := by
  rw [intersects_iff]
  constructor
  · rintro ⟨both, run⟩
    exact ⟨both, .constrained first second run, satisfies_of_constrain run⟩
  · rintro ⟨spec, obtainable, inLeft, inRight⟩
    obtain ⟨both, run, _⟩ := exists_constrain obtainable inLeft inRight
    exact ⟨both, run⟩

/-- Constraining one expression by another gives a greatest lower bound of the two
under satisfaction, and exactly when they have a lower bound at all. -/
theorem constrain_is_greatest_lower_bound {left right : Spec} (first : left.Obtainable)
    (second : right.Obtainable) :
    left.satisfies left = true ∧
    (∀ spec : Spec, spec.satisfies left = true → left.satisfies right = true → spec.satisfies right = true) ∧
    (∀ both, left.constrain right = .ok both → both.satisfies left = true ∧ both.satisfies right = true) ∧
    (∀ spec : Spec, spec.Obtainable → spec.satisfies left = true → spec.satisfies right = true →
      ∃ both, left.constrain right = .ok both ∧ spec.satisfies both = true) ∧
    (left.intersects right = true ↔
      ∃ spec : Spec, spec.Obtainable ∧ spec.satisfies left = true ∧ spec.satisfies right = true) ∧
    (left.satisfies right = true → left.intersects right = true) ∧
    left.intersects right = right.intersects left := by
  refine ⟨specMeet.refl left, fun _ => specMeet.trans, fun _ => satisfies_of_constrain,
    fun _ => exists_constrain, intersects_iff_satisfied first second, ?_, ?_⟩
  · intro inside
    exact (intersects_iff_satisfied first second).mpr ⟨left, first, specMeet.refl left, inside⟩
  · rw [Bool.eq_iff_iff, intersects_iff_satisfied first second, intersects_iff_satisfied second first]
    constructor
    all_goals
      rintro ⟨spec, obtainable, one, other⟩
      exact ⟨spec, obtainable, other, one⟩

theorem overlapping_ranges_narrow :
    ∃ left right both : Spec,
      parse "zlib@1.2: %gcc@4: ^zstd@:1" = .ok left ∧ parse "zlib@:1.4 +shared ^zstd@1.0" = .ok right ∧
      left.constrain right = .ok both ∧ both.satisfies left = true ∧ both.satisfies right = true ∧
      right.intersects left = true := by
  have narrowed : (do
      let left ← parse "zlib@1.2: %gcc@4: ^zstd@:1"
      let right ← parse "zlib@:1.4 +shared ^zstd@1.0"
      left.constrain right).isOk = true := by decide +kernel
  obtain ⟨both, run⟩ := isOk_iff.mp narrowed
  obtain ⟨left, readLeft, run⟩ := bind_eq_ok.mp run
  obtain ⟨right, readRight, run⟩ := bind_eq_ok.mp run
  obtain ⟨_, _, below, _, overlap, _, symmetric⟩ :=
    constrain_is_greatest_lower_bound (.parsed readLeft) (.parsed readRight)
  have inside := below both run
  have reached : both.Obtainable := .constrained (.parsed readLeft) (.parsed readRight) run
  exact ⟨left, right, both, readLeft, readRight, run, inside.1, inside.2, symmetric ▸ overlap.mpr ⟨both, reached, inside⟩⟩

end PackageRecipes.Spec
