import PackageRecipes.Proofs.DirectiveUpdates
import PackageRecipes.Proofs.OrderedMapEntries
import PackageRecipes.Proofs.Outcome

/-! What each built-in directive records where it succeeds. One that fails records nothing,
but for the virtual packages in front of one that is refused. -/

namespace PackageRecipes

variable {before after : Descriptor}

section Updates

variable {update : Descriptor → Except Error Descriptor}

theorem Effect.ofUpdate_eq_ok (run : Effect.ofUpdate update before = (.ok (), after)) : update before = .ok after := by
  unfold ofUpdate at run
  cases updated : update before with
  | error error => simp [updated, writing] at run
  | ok written =>
    simp only [updated, writing, Prod.mk.injEq, true_and] at run
    rw [run]

/-- An update that fails leaves the descriptor as it is. -/
theorem Effect.holds_ofUpdate {holds : Descriptor → Prop} (unchanged : holds before)
    (updated : ∀ after, update before = .ok after → holds after) : holds (ofUpdate update before).2 := by
  unfold ofUpdate
  cases run : update before with
  | error error => exact unchanged
  | ok after => exact updated after run

end Updates

theorem targetName_eq_ok_iff {target : Spec} {name : String} :
    targetName target = .ok name ↔ target.name = some name := by
  unfold targetName
  cases target.name <;> simp

theorem Dependency.merge_eq_ok {left right both : Dependency} (run : left.merge right = .ok both) :
    ∃ target, left.target.constrain right.target = .ok target ∧
      both = {
        target
        types := left.types.union right.types
        patches := right.patches.entries.foldl
          (fun patches (condition, more) => patches.upsert condition fun existing => existing.getD [] ++ more)
          left.patches } := by
  rw [merge_eq] at run
  obtain ⟨target, constrained, same⟩ := bind_eq_ok.mp run
  exact ⟨target, constrained, (Except.ok.inj same).symm⟩

/-- What merging keeps holds of the requirement that is recorded, if it holds of those before
it and of its own part. -/
theorem Dependency.holds_mergedOnto {holds : Dependency → Prop} {required : OrderedMap Spec Dependency} {condition : Spec}
    {dependency merged : Dependency}
    (merge : ∀ {left right both : Dependency}, holds left → holds right → left.merge right = .ok both → holds both)
    (all : required.All fun _ dependency => holds dependency) (own : holds dependency)
    (merges : dependency.mergedOnto (required.find? condition) = .ok merged) : holds merged := by
  cases found : required.find? condition with
  | none =>
    rw [found] at merges
    cases merges
    exact own
  | some earlier =>
    rw [found] at merges
    obtain ⟨_, _, holdsEarlier⟩ := all.find? found
    exact merge holdsEarlier own merges

theorem DependencyDeclaration.record_eq_ok {requirement : DependencyDeclaration}
    (run : requirement.record before = .ok after) :
    ∃ target condition dependency merged, requirement.target.name = some target ∧ target ≠ before.name ∧
      anchorCondition requirement.when before.name = .ok condition ∧
      requirement.dependency target = .ok dependency ∧
      dependency.mergedOnto (((before.dependencies.find? target).getD .empty).find? condition) = .ok merged ∧
      after = { before with
        dependencies := before.dependencies.insert target
          (((before.dependencies.find? target).getD .empty).insert condition merged) } := by
  obtain ⟨target, named, run⟩ := bind_eq_ok.mp run
  have named := targetName_eq_ok_iff.mp named
  dsimp only at run
  split at run
  next => cases run
  next different =>
    have other : target ≠ before.name := by simpa using different
    obtain ⟨condition, anchored, run⟩ := bind_eq_ok.mp run
    obtain ⟨dependency, made, run⟩ := bind_eq_ok.mp run
    obtain ⟨merged, merges, same⟩ := bind_eq_ok.mp run
    exact ⟨target, condition, dependency, merged, named, other, anchored, made, merges, (Except.ok.inj same).symm⟩

theorem ExtensionDeclaration.record_eq_ok {extension : ExtensionDeclaration} {config : Config}
    (run : extension.record config before = .ok after) :
    ∃ name next, extension.target.name = some name ∧ extension.asDependency.record before = .ok next ∧
      ((∃ existing ∈ before.extendees.keys, existing ≠ name) ∧ after = next ∨
        (∀ existing ∈ before.extendees.keys, existing = name) ∧ after = extension.recordExtendee name next) := by
  obtain ⟨name, named, run⟩ := bind_eq_ok.mp run
  have named := targetName_eq_ok_iff.mp named
  split at run
  next existing present =>
    split at run
    next => cases run
    next =>
      have other := List.find?_some present
      exact ⟨name, after, named, run, .inl ⟨⟨existing, List.mem_of_find?_eq_some present, by simpa using other⟩, rfl⟩⟩
  next missing =>
    obtain ⟨next, recorded, same⟩ := bind_eq_ok.mp run
    refine ⟨name, next, named, recorded, .inr ⟨fun existing member => ?_, (Except.ok.inj same).symm⟩⟩
    simpa using List.find?_eq_none.mp missing existing member

theorem ConflictDeclaration.record_eq_ok {declared : ConflictDeclaration} (run : declared.record before = .ok after) :
    ∃ when, anchorCondition declared.when before.name = .ok when ∧
      after = { before with
        conflicts := before.conflicts.upsert declared.conflict fun existing =>
          let recorded := existing.getD []
          if recorded.contains ⟨when, declared.message⟩ then recorded
          else recorded ++ [⟨when, declared.message⟩] } := by
  obtain ⟨when, anchored, same⟩ := bind_eq_ok.mp run
  exact ⟨when, anchored, (Except.ok.inj same).symm⟩

theorem PatchDeclaration.record_eq_ok {declared : PatchDeclaration} (run : declared.record before = .ok after) :
    ∃ condition patch, anchorCondition declared.when before.name = .ok condition ∧
      Patch.create before.name declared.locator declared.level declared.details declared.directory = .ok patch ∧
      after = { before with patches := before.patches.push condition patch } := by
  obtain ⟨condition, anchored, run⟩ := bind_eq_ok.mp run
  obtain ⟨patch, made, same⟩ := bind_eq_ok.mp run
  exact ⟨condition, patch, anchored, made, (Except.ok.inj same).symm⟩

theorem Variant.record_eq_ok {variant : Variant} (run : variant.record before = .ok after) :
    isIdentifier variant.name = true ∧
      after = { before with variants := before.variants.insert variant.name variant } := by
  rw [record] at run
  split at run
  next valid => exact ⟨valid, (Except.ok.inj run).symm⟩
  next => cases run

theorem ResourceDeclaration.record_eq_ok {declared : ResourceDeclaration} (run : declared.record before = .ok after) :
    ∃ condition strategy, anchorCondition declared.when before.name = .ok condition ∧
      declared.fetch.strategy = .ok strategy ∧
      after = { before with
        resources := before.resources.push condition
          ⟨declared.name, strategy, declared.destination, declared.placement⟩ } := by
  obtain ⟨condition, anchored, run⟩ := bind_eq_ok.mp run
  obtain ⟨strategy, chosen, same⟩ := bind_eq_ok.mp run
  exact ⟨condition, strategy, anchored, chosen, (Except.ok.inj same).symm⟩

end PackageRecipes
