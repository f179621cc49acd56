import PackageRecipes.Proofs.AdmittedVersions

/-! Satisfaction as a preorder and what it says about versions. It compares the bounds of
ranges and never a version, but an expression that satisfies another admits no
version that the other does not, neither of the package nor of a compiler or a
dependency that the other constrains. -/

namespace PackageRecipes

namespace CompilerSpec

/-- The same compiler in no other versions. -/
structure AdmitsWithin (inner outer : CompilerSpec) : Prop where
  name : inner.name = outer.name
  versions : ∀ version, inner.versions.contains version = true → outer.versions.contains version = true

theorem admitsWithin_of_satisfies {inner outer : CompilerSpec} (inside : inner.satisfies outer = true) :
    inner.AdmitsWithin outer := by
  obtain ⟨named, versions⟩ := satisfies_iff.mp inside
  exact ⟨named, fun _ => VersionList.contains_of_within versions⟩

end CompilerSpec

namespace Node

/-- The same package in no other versions, built by no other compiler where one is asked for. -/
structure AdmitsWithin (inner outer : Node) : Prop where
  versions : ∀ version, inner.versions.contains version = true → outer.versions.contains version = true
  compiler : ∀ constraint, outer.compiler = some constraint →
    ∃ own, inner.compiler = some own ∧ own.AdmitsWithin constraint

theorem admitsWithin_of_satisfies {inner outer : Node} (inside : inner.satisfies outer = true) :
    inner.AdmitsWithin outer := by
  obtain ⟨_, compiler, versions, _⟩ := satisfies_iff.mp inside
  constructor
  · exact fun _ => VersionList.contains_of_within versions
  · intro constraint present
    rw [present] at compiler
    obtain ⟨own, found, meets⟩ := exists_of_meetsOptional compiler
    exact ⟨own, found, CompilerSpec.admitsWithin_of_satisfies meets⟩

end Node

namespace Spec

/-- The package, its compiler and each dependency that is asked for in no other versions. -/
structure AdmitsWithin (inner outer : Spec) : Prop where
  versions : ∀ version, inner.admitsVersion version = true → outer.admitsVersion version = true
  compiler : ∀ constraint, outer.node.compiler = some constraint →
    ∃ own, inner.node.compiler = some own ∧ own.AdmitsWithin constraint
  dependencies : ∀ name node, outer.dependencies.find? name = some node →
    ∃ own, inner.dependencies.find? name = some own ∧ own.AdmitsWithin node

theorem admitsWithin_of_satisfies {inner outer : Spec} (inside : inner.satisfies outer = true) :
    inner.AdmitsWithin outer := by
  obtain ⟨node, dependencies⟩ := satisfies_iff.mp inside
  have within := Node.admitsWithin_of_satisfies node
  refine ⟨within.versions, within.compiler, ?_⟩
  intro name node found
  obtain ⟨own, present, meets⟩ := exists_of_meetsEntries dependencies found
  exact ⟨own, present, Node.admitsWithin_of_satisfies meets⟩

/-- Satisfaction is reflexive and transitive, and what satisfies an expression admits
versions within those that the expression admits. -/
theorem satisfaction_is_sound_preorder :
    (∀ spec : Spec, spec.satisfies spec = true) ∧
    (∀ first second third : Spec, first.satisfies second = true → second.satisfies third = true →
      first.satisfies third = true) ∧
    ∀ inner outer : Spec, inner.satisfies outer = true → inner.AdmitsWithin outer :=
  ⟨specMeet.refl, fun _ _ _ => specMeet.trans, fun _ _ => admitsWithin_of_satisfies⟩

theorem nested_bounds_satisfy :
    ∃ first second third : Spec,
      parse "hdf5@1.10.5:1.10 %gcc@9.2 ^mpich@3.2.1" = .ok first ∧
      parse "hdf5@1.10 %gcc@9: ^mpich@:3.2" = .ok second ∧ parse "@:1.10 %gcc ^mpich@:3" = .ok third ∧
      first.satisfies second = true ∧ second.satisfies third = true ∧
      first.satisfies third = true ∧ first.AdmitsWithin third := by
  have checked : (do
      let first ← parse "hdf5@1.10.5:1.10 %gcc@9.2 ^mpich@3.2.1"
      let second ← parse "hdf5@1.10 %gcc@9: ^mpich@:3.2"
      let third ← parse "@:1.10 %gcc ^mpich@:3"
      return first.satisfies second && second.satisfies third).toOption = some true := by decide +kernel
  obtain ⟨first, readFirst, checked⟩ := bind_eq_ok.mp (toOption_eq_some.mp checked)
  obtain ⟨second, readSecond, checked⟩ := bind_eq_ok.mp checked
  obtain ⟨third, readThird, checked⟩ := bind_eq_ok.mp checked
  obtain ⟨early, late⟩ := Bool.and_eq_true_iff.mp (Except.ok.inj checked)
  obtain ⟨_, trans, sound⟩ := satisfaction_is_sound_preorder
  have whole := trans first second third early late
  exact ⟨first, second, third, readFirst, readSecond, readThird, early, late, whole, sound first third whole⟩

end Spec

end PackageRecipes
