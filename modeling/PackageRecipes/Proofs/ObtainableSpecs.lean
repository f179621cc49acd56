import PackageRecipes.Builder
import PackageRecipes.Proofs.NormalVersions
import PackageRecipes.Proofs.ReadExpressions
import PackageRecipes.Proofs.TextFields

/-! The expressions that reading, naming, anchoring and narrowing give. All their version
lists admit some version: an empty range is refused where it is read, and an
intersection leaves none. -/

namespace PackageRecipes

namespace VersionRange

private theorem isEmpty_of_parse {text : List Char} {range : VersionRange} (read : parse text = .ok range) :
    range.isEmpty = false := by
  unfold parse at read
  split at read
  next =>
    obtain ⟨version, _, rfl⟩ := map_eq_ok.mp read
    simp [isEmpty, exact, admitsBelow]
  next before after _ =>
    simp only [bind_eq_ok] at read
    obtain ⟨lower, _, upper, _, read⟩ := read
    split at read
    next => cases read
    next inhabited =>
      cases read
      simpa using inhabited

end VersionRange

theorem VersionList.normal_of_parse {text : String} {list : VersionList} (read : parse text = .ok list) :
    list.Normal := by
  rw [parse, bind_eq_ok] at read
  obtain ⟨ranges, parts, same⟩ := read
  cases same
  obtain ⟨length, origin⟩ := mapM_eq_ok parts
  refine normal_normalize ?_ ?_
  · intro none
    rw [none] at length
    exact Text.fields_ne_nil ',' text.toList (List.length_eq_zero_iff.mp length.symm)
  · intro range member
    obtain ⟨part, _, parsed⟩ := origin range member
    dsimp only at parsed
    split at parsed
    · cases parsed
    · exact VersionRange.isEmpty_of_parse parsed

theorem VersionList.IsRead.normal {list : VersionList} (read : list.IsRead) : list.Normal := by
  rcases read with rfl | ⟨text, parsed⟩
  · exact normal_any
  · exact normal_of_parse parsed

namespace Node

/-- What reading and narrowing keep, and giving the node any name. -/
structure OwnerInvariant (holds : Node → Prop) : Prop extends ReadInvariant holds where
  owned : ∀ {node name}, holds node → holds { node with name := some name }

theorem ownerInvariant_of_lists {holds : VersionList → Prop}
    (read : ∀ {list : VersionList}, list.IsRead → holds list)
    (intersected : ∀ {left right both}, holds left → holds right → left.intersect right = some both → holds both) :
    OwnerInvariant fun node => holds node.versions ∧ ∀ compiler, node.compiler = some compiler → holds compiler.versions where
  toReadInvariant := readInvariant_of_lists read intersected
  owned before := before

private theorem proper_iff (node : Node) :
    node.Proper ↔ node.versions.Proper ∧ ∀ compiler, node.compiler = some compiler → compiler.versions.Proper :=
  ⟨fun proper => ⟨proper.versions, proper.compiler⟩, fun both => ⟨both.1, both.2⟩⟩

theorem ownerInvariant_proper : OwnerInvariant Proper := by
  rw [funext fun node => propext (proper_iff node)]
  exact ownerInvariant_of_lists (fun read => read.normal.toProper) VersionList.proper_intersect

end Node

namespace Spec

section Anchoring

variable {holds : Node → Prop} {owner : String} (invariant : Node.ReadInvariant holds)
  (owned : ∀ {node}, holds node → holds { node with name := some owner })
include invariant owned

theorem each_named : (named owner).Each holds :=
  ⟨owned invariant.unconstrained, OrderedMap.all_empty _⟩

/-- Anchoring keeps what reading keeps and the owner may be called by. -/
theorem Each.anchor {spec anchored : Spec} (each : spec.Each holds) (run : spec.anchor owner = .ok anchored) :
    anchored.Each holds := by
  unfold Spec.anchor at run
  split at run
  next =>
    cases run
    exact ⟨owned each.node, each.dependencies⟩
  next name named =>
    split at run
    next =>
      cases run
      exact each
    next =>
      obtain ⟨start, added, run⟩ := bind_eq_ok.mp run
      have begins := (each_named invariant owned).addDependency invariant named each.node added
      refine foldlM_preserves (Each holds) (fun state entry after member kept step => ?_) begins run
      obtain ⟨named, before⟩ := each.dependencies entry member
      exact kept.addDependency invariant named before step

end Anchoring

inductive Obtainable : Spec → Prop where
  | parsed {expression : String} {spec : Spec} (read : parse expression = .ok spec) : Obtainable spec
  | named (name : String) : Obtainable (named name)
  | anchored {spec anchored : Spec} {owner : String} (obtained : Obtainable spec)
      (run : spec.anchor owner = .ok anchored) : Obtainable anchored
  | constrained {left right both : Spec} (first : Obtainable left) (second : Obtainable right)
      (run : left.constrain right = .ok both) : Obtainable both

theorem constrain_eq_ok_iff {left right both : Spec} :
    left.constrain right = .ok both ↔ left.narrow right = .ok both :=
  mapError_eq_ok

/-- What every way of making an expression keeps holds of all nodes of those that are made. -/
theorem Obtainable.each {holds : Node → Prop} (invariant : Node.OwnerInvariant holds) {spec : Spec}
    (obtainable : spec.Obtainable) : spec.Each holds := by
  induction obtainable with
  | parsed read => exact each_of_parse invariant.toReadInvariant read
  | named name => exact each_named invariant.toReadInvariant invariant.owned
  | anchored _ run ih => exact ih.anchor invariant.toReadInvariant invariant.owned run
  | constrained _ _ run first second => exact first.narrow invariant.toReadInvariant second (constrain_eq_ok_iff.mp run)

theorem Obtainable.proper {spec : Spec} (obtainable : spec.Obtainable) : spec.Proper :=
  have each := obtainable.each Node.ownerInvariant_proper
  ⟨each.node, fun _ _ found => (each.dependency found).2⟩

end Spec

section Texts

def Spec.IsRead (spec : Spec) : Prop :=
  ∃ expression, parse expression = .ok spec

theorem Condition.isRead_of_parse {condition : Condition} {when : Option Spec} (read : condition.parse = .ok when) :
    ∀ spec ∈ when, spec.IsRead := by
  rintro spec rfl
  unfold parse at read
  split at read
  · cases read
  · cases read
  · split at read
    next => cases read
    next =>
      obtain ⟨_, parsed, same⟩ := map_eq_ok.mp read
      cases same
      exact ⟨_, parsed⟩

theorem Builder.isRead_of_readTarget {expression : String} {target : Spec} (run : readTarget expression = .ok target) :
    target.IsRead := by
  obtain ⟨spec, read, named⟩ := bind_eq_ok.mp run
  split at named
  next =>
    cases named
    exact ⟨expression, read⟩
  next => cases named

end Texts

end PackageRecipes
