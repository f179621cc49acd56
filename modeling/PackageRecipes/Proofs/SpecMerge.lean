import PackageRecipes.Proofs.ObtainableSpecs

/-! Narrowing expressions by one another does not depend on the order, up to their
equality. All that stands in the way of the laws are version lists, which have to be
in normal form; they are in every expression that has been read. -/

namespace PackageRecipes
open Std

section Equality

variable {κ α : Type} [BEq α]

theorem beq_iff_rel {left right : Option α} :
    (left == right) = true ↔ Option.Rel (fun left right => (left == right) = true) left right := by
  constructor
  · intro same
    cases left with
    | none =>
      cases right with
      | none => exact .none
      | some => cases same
    | some first =>
      cases right with
      | none => cases same
      | some second => exact .some same
  · intro like
    cases like with
    | none => rfl
    | some same => exact same

/-- Values that are merged only with themselves. -/
theorem equalityMerge [LawfulBEq α] :
    CommutativeMerge (fun left right : α => (left == right) = true) (fun _ => True)
      fun left right => if left == right then some left else none :=
  (PartialMeet.equality fun _ => True).commutativeMerge ⟨BEq.refl, BEq.symm, BEq.trans⟩ id (fun forth _ => forth)
    fun _ => trivial

variable [Ord κ] [TransOrd κ] [BEq κ] [LawfulBEqOrd κ] {left right : OrderedMap κ α}

private theorem find?_of_membersIn (members : MembersIn left.entries right.entries) {key : κ} {value : α}
    (found : left.find? key = some value) : ∃ other, right.find? key = some other ∧ (value == other) = true := by
  obtain ⟨entry, member, same, rfl⟩ := left.find?_eq_some_iff.mp found
  obtain ⟨other, present, equal⟩ := members entry member
  obtain ⟨keys, values⟩ := Bool.and_eq_true_iff.mp equal
  refine ⟨other.2, right.find?_eq_some_iff.mpr ⟨other, present, ?_, rfl⟩, values⟩
  exact TransCmp.eq_trans same (compare_eq_iff_beq.mpr keys)

private theorem membersIn_of_alike (alike : AlikeEntries (fun left right => (left == right) = true) left right) :
    MembersIn left.entries right.entries := by
  intro entry member
  have like := alike entry.1
  rw [left.find?_of_mem member] at like
  cases found : right.find? entry.1 with
  | none =>
    rw [found] at like
    cases like
  | some value =>
    rw [found] at like
    obtain ⟨other, present, same, rfl⟩ := right.find?_eq_some_iff.mp found
    cases like with
    | some equal => exact ⟨other, present, Bool.and_eq_true_iff.mpr ⟨compare_eq_iff_beq.mp same, equal⟩⟩

/-- Maps are equal when they have equal values under the same keys. -/
theorem beq_iff_alikeEntries [Ord α] [TransOrd α] [LawfulBEqOrd α] :
    (left == right) = true ↔ AlikeEntries (fun left right => (left == right) = true) left right := by
  -- Entries are compared like maps, which is finer than the order of their keys.
  let entryOrder : Ord (κ × α) := ⟨compareLex (compareOn Prod.fst) (compareOn Prod.snd)⟩
  have : TransOrd (κ × α) := inferInstanceAs (TransCmp (compareLex (compareOn Prod.fst) (compareOn Prod.snd)))
  have : LawfulBEqOrd (κ × α) := ⟨fun {first second} => by
    refine compareLex_eq_eq.trans ?_
    exact (and_congr compare_eq_iff_beq compare_eq_iff_beq).trans (Bool.and_eq_true _ _ ▸ Iff.rfl)⟩
  have increasing : ∀ map : OrderedMap κ α, Increasing map.entries := fun map =>
    map.increasing.imp fun {first second} less => by
      change (compare first.1 second.1).then (compare first.2 second.2) = .lt
      rw [less]
      rfl
  constructor
  · intro same key
    have back : (right.entries == left.entries) = true := BEq.symm (a := left.entries) same
    cases found : left.find? key with
    | some value =>
      obtain ⟨other, again, equal⟩ := find?_of_membersIn (membersIn_of_beq same) found
      rw [again]
      exact .some equal
    | none =>
      cases again : right.find? key with
      | none => exact .none
      | some value =>
        obtain ⟨other, found', _⟩ := find?_of_membersIn (membersIn_of_beq back) again
        rw [found] at found'
        cases found'
  · intro alike
    refine beq_of_increasing (increasing left) (increasing right) (membersIn_of_alike alike) ?_
    refine membersIn_of_alike fun key => ?_
    have same : Equivalence (Option.Rel fun left right : α => (left == right) = true) :=
      rel_equivalence ⟨BEq.refl, BEq.symm, BEq.trans⟩
    exact same.symm (alike key)

end Equality

namespace CompilerSpec

theorem compilerMerge : CommutativeMerge (fun left right => (left == right) = true) (fun compiler => compiler.versions.Normal)
    fun left right => (narrow left right).toOption := by
  have merged : ∀ {left right both : CompilerSpec}, (narrow left right).toOption = some both ↔
      ((if left.name == right.name then some left.name else none).bind fun name =>
        (left.versions.intersect right.versions).map fun versions => (name, versions)) =
          some (both.name, both.versions) := by
    intro left right both
    rw [toOption_eq_some, narrow_eq_ok_iff, pair_eq_some_iff, Option.ite_none_right_eq_some, beq_iff_eq, and_assoc]
    simp only [Option.some.injEq, eq_comm]
  have laws := (equalityMerge.prod VersionList.listMerge).ofParts _
    (fun compiler : CompilerSpec => (compiler.name, compiler.versions)) (fun value => ⟨⟨value.1, value.2⟩, rfl⟩) merged
  simpa only [true_and, ← Bool.and_eq_true, ← beq_eq] using laws

end CompilerSpec

namespace Node

/-- The version lists of a node and of its compiler are in normal form. -/
structure Normal (node : Node) : Prop where
  versions : node.versions.Normal
  compiler : ∀ compiler, node.compiler = some compiler → compiler.versions.Normal

theorem normal_iff (node : Node) :
    node.Normal ↔ node.versions.Normal ∧ ∀ compiler, node.compiler = some compiler → compiler.versions.Normal :=
  ⟨fun normal => ⟨normal.versions, normal.compiler⟩, fun both => ⟨both.1, both.2⟩⟩

theorem ownerInvariant_normal : OwnerInvariant Normal := by
  rw [funext fun node => propext (normal_iff node)]
  exact ownerInvariant_of_lists VersionList.IsRead.normal VersionList.normal_intersect

theorem nodeMerge : CommutativeMerge (fun left right => (left == right) = true) Normal
    fun left right => (narrow left right).toOption := by
  have names := (equalityMerge (α := String)).optional
  have variants := (equalityMerge (α := VariantSetting)).entries narrowVariant_narrows.mergesEntries
  have parts := names.prod (VersionList.listMerge.prod (variants.prod CompilerSpec.compilerMerge.optional))
  have laws := parts.ofParts (fun left right => (narrow left right).toOption)
    (fun node : Node => (node.name, node.versions, node.variants, node.compiler))
    (fun value => ⟨⟨value.1, value.2.1, value.2.2.1, value.2.2.2⟩, rfl⟩) (by
      intro left right both
      rw [toOption_eq_some, narrow_eq_ok_iff, pair_eq_some_iff, pair_eq_some_iff, pair_eq_some_iff, narrowName_eq_ok_iff,
        narrowCompiler_eq_ok_iff, toOption_eq_some])
  rw [funext fun node => propext (normal_iff node)]
  simpa only [implies_true, true_and, ← beq_iff_rel, ← beq_iff_alikeEntries, ← Bool.and_eq_true, ← beq_eq] using laws

end Node

namespace Spec

structure Normal (spec : Spec) : Prop where
  node : spec.node.Normal
  dependencies : ∀ name node, spec.dependencies.find? name = some node → node.Normal

theorem normal_iff (spec : Spec) :
    spec.Normal ↔ spec.node.Normal ∧ ∀ name node, spec.dependencies.find? name = some node → node.Normal :=
  ⟨fun normal => ⟨normal.node, normal.dependencies⟩, fun both => ⟨both.1, both.2⟩⟩

/-- Narrowing expressions is commutative and associative, clashes included. -/
theorem specMerge : CommutativeMerge (fun left right => (left == right) = true) Normal
    fun left right => (narrow left right).toOption := by
  have parts := Node.nodeMerge.prod (Node.nodeMerge.entries narrowDependency_narrows.mergesEntries)
  have laws := parts.ofParts (fun left right => (narrow left right).toOption)
    (fun spec : Spec => (spec.node, spec.dependencies)) (fun value => ⟨⟨value.1, value.2⟩, rfl⟩) (by
      intro left right both
      rw [toOption_eq_some, narrow_eq_ok_iff, pair_eq_some_iff, toOption_eq_some, toOption_eq_some])
  rw [funext fun spec => propext (normal_iff spec)]
  simpa only [← beq_iff_alikeEntries, ← Bool.and_eq_true, ← beq_eq] using laws

theorem Each.normal {spec : Spec} (each : spec.Each Node.Normal) : spec.Normal :=
  ⟨each.node, fun _ _ found => (each.dependency found).2⟩

theorem normal_of_parse {expression : String} {spec : Spec} (read : parse expression = .ok spec) : spec.Normal :=
  (each_of_parse Node.ownerInvariant_normal.toReadInvariant read).normal

theorem Obtainable.normal {spec : Spec} (obtainable : spec.Obtainable) : spec.Normal :=
  (obtainable.each Node.ownerInvariant_normal).normal

end Spec

end PackageRecipes
