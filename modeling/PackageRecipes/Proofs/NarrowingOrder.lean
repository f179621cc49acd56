import PackageRecipes.Proofs.SpecMerge

/-! Constraining expressions by one another in any order and grouping. The results are
equal range by range, and where one order clashes every other does, although each
may find another clash first. -/

namespace PackageRecipes.Spec

theorem toOption_constrain (left right : Spec) : (left.constrain right).toOption = (left.narrow right).toOption :=
  toOption_mapError

/-- Constraining is commutative and associative, clashes included. -/
theorem constrain_in_any_order {first second third : Spec} (one : first.Obtainable) (two : second.Obtainable)
    (three : third.Obtainable) :
    SameOutcome (first.constrain second) (second.constrain first) ∧
    SameOutcome (first.constrain second >>= (·.constrain third)) (second.constrain third >>= first.constrain) := by
  unfold SameOutcome
  simp only [toOption_bind, toOption_constrain]
  exact ⟨specMerge.rel_comm one.normal two.normal, specMerge.rel_assoc one.normal two.normal three.normal⟩

theorem three_constraints_in_any_order :
    ∃ first second third clashing : Spec,
      parse "mpich@1:3 +verbs ^hwloc@:1" = .ok first ∧ parse "@2: %gcc@4.9: ^hwloc@1.11" = .ok second ∧
      parse "mpich@:3.2 %gcc@:7" = .ok third ∧ parse "mpich@1.5" = .ok clashing ∧
      (first.constrain second >>= (·.constrain third)).isOk = true ∧
      SameOutcome (first.constrain second >>= (·.constrain third)) (second.constrain third >>= first.constrain) ∧
      (first.constrain clashing).isOk = true ∧ (second.constrain clashing).isOk = false ∧
      SameOutcome (second.constrain clashing) (clashing.constrain second) := by
  have checked : (do
      let first ← parse "mpich@1:3 +verbs ^hwloc@:1"
      let second ← parse "@2: %gcc@4.9: ^hwloc@1.11"
      let third ← parse "mpich@:3.2 %gcc@:7"
      let clashing ← parse "mpich@1.5"
      return ((first.constrain second >>= (·.constrain third)).isOk, (first.constrain clashing).isOk,
        (second.constrain clashing).isOk)).toOption = some (true, true, false) := by decide +kernel
  obtain ⟨first, readFirst, checked⟩ := bind_eq_ok.mp (toOption_eq_some.mp checked)
  obtain ⟨second, readSecond, checked⟩ := bind_eq_ok.mp checked
  obtain ⟨third, readThird, checked⟩ := bind_eq_ok.mp checked
  obtain ⟨clashing, readClashing, checked⟩ := bind_eq_ok.mp checked
  obtain ⟨narrows, overlaps, clashes⟩ := by simpa using Except.ok.inj checked
  have grouped := constrain_in_any_order (.parsed readFirst) (.parsed readSecond) (.parsed readThird)
  have swapped := constrain_in_any_order (.parsed readSecond) (.parsed readClashing) (.parsed readFirst)
  exact ⟨first, second, third, clashing, readFirst, readSecond, readThird, readClashing, narrows, grouped.2, overlaps,
    clashes, swapped.1⟩

end PackageRecipes.Spec
