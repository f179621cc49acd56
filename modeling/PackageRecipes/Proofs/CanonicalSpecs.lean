import PackageRecipes.Proofs.AdmittedVersions
import PackageRecipes.Proofs.NestedSpecs
import PackageRecipes.Proofs.NormalText

/-! The form of the expressions that can be made, whatever has been read, anchored and narrowed
in whatever order. Equality, the keys of maps and the shortcuts for lists without bounds rely on
it, and a constraint that clashes does not spoil it. -/

namespace PackageRecipes
open Std

namespace VersionList

/-- The ranges are in order and each is there once. All admit something, and one without bounds
stands alone. -/
structure Canonical (list : VersionList) : Prop where
  nonempty : list.ranges ≠ []
  increasing : Increasing list.ranges
  distinct : list.ranges.Pairwise fun first second => (first == second) = false
  inhabited : ∀ range ∈ list.ranges, ∃ version, range.contains version = true
  alone : ∀ range ∈ list.ranges, range.isAny = true → list.ranges = [.any]

theorem Normal.canonical {list : VersionList} (normal : list.Normal) : list.Canonical where
  nonempty := normal.nonempty
  increasing := normal.increasing
  distinct := normal.increasing.imp fun less => Bool.eq_false_iff.mpr fun same => by
    rw [LawfulBEqOrd.compare_eq_iff_beq.mpr same] at less
    cases less
  inhabited range member := VersionRange.exists_contains (normal.ranges range member)
  alone range member unbounded := congrArg ranges (normal.unbounded (List.any_eq_true.mpr ⟨range, member, unbounded⟩))

end VersionList

namespace VariantSetting

def Canonical : VariantSetting → Prop
  | enabled _ => True
  | values list => Increasing list ∧ list.Nodup ∧ "" ∉ list

theorem IsRead.canonical {setting : VariantSetting} (read : setting.IsRead) : setting.Canonical := by
  have written := read.written
  cases setting with
  | enabled => trivial
  | values list =>
    refine ⟨written.1, written.1.imp ?_, fun empty => (written.2 "" empty).1 rfl⟩
    rintro first _ less rfl
    rw [ReflOrd.compare_self] at less
    cases less

end VariantSetting

namespace Node

structure Canonical (node : Node) : Prop where
  versions : node.versions.Canonical
  compiler : ∀ compiler, node.compiler = some compiler → compiler.versions.Canonical
  settings : node.variants.All fun _ setting => setting.Canonical

/-- A property of settings that are read is one of all settings in an expression, as narrowing
makes no new ones. -/
private theorem ownerInvariant_of_settings {holds : VariantSetting → Prop}
    (read : ∀ {setting : VariantSetting}, setting.IsRead → holds setting) :
    OwnerInvariant fun node => node.variants.All fun _ setting => holds setting where
  unconstrained := OrderedMap.all_empty _
  versions before _ := before
  variant before _ listed := before.upsert (read listed) fun _ _ _ _ => read listed
  compiler before _ _ := before
  named before _ := before
  narrow first second run := by
    obtain ⟨_, _, merged, _⟩ := narrow_eq_ok_iff.mp run
    exact all_of_narrowVariants first second merged
  owned before := before

private theorem canonical_of_parts {node : Node} (normal : node.Normal)
    (settings : node.variants.All fun _ setting => setting.Canonical) : node.Canonical where
  versions := normal.versions.canonical
  compiler compiler present := (normal.compiler compiler present).canonical
  settings := settings

end Node

namespace NestedSpec

/-- The form of an expression: each dependency is named once and has no constraints below it, and
all nodes are in canonical form. -/
structure Canonical (spec : NestedSpec) : Prop where
  own : ∀ entry ∈ spec.dependencies, entry.2.node.name = some entry.1
  flat : ∀ entry ∈ spec.dependencies, entry.2.dependencies = []
  names : Increasing (spec.dependencies.map (·.1))
  node : spec.node.Canonical
  nodes : ∀ entry ∈ spec.dependencies, entry.2.node.Canonical

theorem canonical_ofSpec {spec : Spec} (obtainable : spec.Obtainable) : (ofSpec spec).Canonical := by
  have normal := obtainable.each Node.ownerInvariant_normal
  have settings := obtainable.each (Node.ownerInvariant_of_settings VariantSetting.IsRead.canonical)
  exact {
    own := List.forall_mem_map.mpr fun entry member => (normal.dependencies entry member).1
    flat := List.forall_mem_map.mpr fun _ _ => rfl
    names := by
      change Increasing ((leaves spec.dependencies.entries).map (·.1))
      rw [leaves, List.map_map]
      exact spec.dependencies.increasing_keys
    node := Node.canonical_of_parts normal.node settings.node
    nodes := List.forall_mem_map.mpr fun entry member =>
      Node.canonical_of_parts (normal.dependencies entry member).2 (settings.dependencies entry member).2 }

/-- Whatever is read, named, anchored and narrowed, with or without clashes on the way, what comes
out is in canonical form, and is the tree of an expression that is kept as nodes. -/
theorem obtainable_trees_are_canonical {tree : NestedSpec} (obtainable : tree.Obtainable) :
    tree.Canonical ∧ ∃ spec : Spec, spec.Obtainable ∧ ofSpec spec = tree := by
  obtain ⟨spec, made, rfl⟩ := obtainable_iff.mp obtainable
  exact ⟨canonical_ofSpec made, spec, made, rfl⟩

/-- A condition on another package, which is hung below the owner together with its own clause, and
a constraint that clashes with the clause. -/
theorem clashing_condition_is_canonical :
    ∃ condition other, anonymous "hdf5@1.8: fabrics=psm,verbs ^mpich@3: ^mpich@:3.2" "app" = some condition ∧
      parse "^mpich@2" = some other ∧ (condition.narrow other).isOk = false ∧
      condition.dependencies.map (·.1) = ["hdf5", "mpich"] ∧ (condition.constrained other).Canonical := by
  have checked : (do
      let condition ← anonymous "hdf5@1.8: fabrics=psm,verbs ^mpich@3: ^mpich@:3.2" "app"
      let other ← parse "^mpich@2"
      return ((condition.narrow other).isOk, condition.dependencies.map (·.1))) =
        some (false, ["hdf5", "mpich"]) := by decide +kernel
  obtain ⟨condition, read, checked⟩ := Option.bind_eq_some_iff.mp checked
  obtain ⟨other, readOther, checked⟩ := Option.bind_eq_some_iff.mp checked
  obtain ⟨clashes, names⟩ := Prod.mk.inj (Option.some.inj checked)
  exact ⟨condition, other, read, readOther, clashes, names,
    (obtainable_trees_are_canonical (.constrained (.anonymous read) (.parsed readOther))).1⟩

end NestedSpec

end PackageRecipes
