import PackageRecipes.Proofs.DependencyGrouping
import PackageRecipes.Proofs.EqualDeclarations
import PackageRecipes.Proofs.Rearrangement

/-! Recording requirements one after the other merges, for each target and condition by
itself, those that are on it. So a run succeeds in one order if it does in another,
and all that differs is the order of patches. -/

namespace PackageRecipes
open Std

/-- What a requirement is recorded as, and where. -/
structure DependencyDeclaration.Resolves (requirement : DependencyDeclaration) (package target : String)
    (condition : Spec) (dependency : Dependency) : Prop where
  named : requirement.target.name = some target
  other : target ≠ package
  anchored : anchorCondition requirement.when package = .ok condition
  made : requirement.dependency target = .ok dependency

/-- The requirements of one place merged into one, if there are any. -/
def mergeRequired : Option Dependency → Option Dependency → Option (Option Dependency) :=
  narrowOptional fun left right => (left.merge right).toOption

private theorem mergedOnto_eq_ok_iff {dependency merged : Dependency} {place : Option Dependency} :
    dependency.mergedOnto place = .ok merged ↔ mergeRequired place (some dependency) = some (some merged) := by
  cases place with
  | none => simp [Dependency.mergedOnto, mergeRequired, narrowOptional]
  | some earlier => simp [Dependency.mergedOnto, mergeRequired, narrowOptional, toOption_eq_some]

private theorem exists_merged {place result : Option Dependency} {dependency : Dependency}
    (found : mergeRequired place (some dependency) = some result) : ∃ merged, result = some merged := by
  cases place with
  | none =>
    cases found
    exact ⟨dependency, rfl⟩
  | some earlier =>
    obtain ⟨merged, _, rfl⟩ := Option.map_eq_some_iff.mp found
    exact ⟨merged, rfl⟩

private theorem Descriptor.dependency?_congr (descriptor : Descriptor) {target : String} {condition other : Spec}
    (same : compare condition other = .eq) : descriptor.dependency? target condition = descriptor.dependency? target other :=
  Option.bind_congr fun conditions _ => conditions.find?_congr same

private theorem Descriptor.dependency?_withDependency (descriptor : Descriptor) (target sought : String)
    (condition under : Spec)
    (dependency : Dependency) :
    (descriptor.withDependency target condition dependency).dependency? sought under =
      if sought = target ∧ compare under condition = .eq then some dependency
      else descriptor.dependency? sought under := by
  rw [dependency?, withDependency, OrderedMap.find?_insert]
  by_cases same : sought = target
  · subst same
    rw [if_pos ReflCmp.compare_self, Option.bind_some, OrderedMap.find?_insert, OrderedMap.find?_getD_empty]
    simp only [true_and]
    rfl
  · rw [if_neg fun equal => same (LawfulEqOrd.eq_of_compare equal), if_neg fun both => same both.1]
    rfl

theorem DependencyDeclaration.record_eq_ok_iff {requirement : DependencyDeclaration} {before after : Descriptor} :
    requirement.record before = .ok after ↔
      ∃ target condition dependency merged, requirement.Resolves before.name target condition dependency ∧
        mergeRequired (before.dependency? target condition) (some dependency) = some (some merged) ∧
        after = before.withDependency target condition merged := by
  constructor
  · intro run
    obtain ⟨target, condition, dependency, merged, named, other, anchored, made, combined, same⟩ := record_eq_ok run
    rw [OrderedMap.find?_getD_empty] at combined
    exact ⟨target, condition, dependency, merged, ⟨named, other, anchored, made⟩, mergedOnto_eq_ok_iff.mp combined, same⟩
  · rintro ⟨target, condition, dependency, merged, resolves, combined, rfl⟩
    have different : (target == before.name) = false := by simpa using resolves.other
    have merges := mergedOnto_eq_ok_iff.mpr combined
    refine bind_eq_ok.mpr ⟨target, targetName_eq_ok_iff.mpr resolves.named, ?_⟩
    simp only [different]
    refine bind_eq_ok.mpr ⟨condition, resolves.anchored, bind_eq_ok.mpr ⟨dependency, resolves.made, ?_⟩⟩
    rw [mergeUnder, OrderedMap.find?_getD_empty]
    exact bind_eq_ok.mpr ⟨merged, merges, rfl⟩

section Runs

variable {package target : String} {condition : Spec}

def DependencyDeclaration.requiredAt (package target : String) (condition : Spec) (requirement : DependencyDeclaration) :
    Option Dependency :=
  if requirement.target.name == some target && isUnder (anchorCondition · package) condition requirement.when then
    (requirement.dependency target).toOption
  else none

private theorem DependencyDeclaration.Resolves.requiredAt {requirement : DependencyDeclaration}
    {own : String} {under : Spec}
    {dependency : Dependency} (resolves : requirement.Resolves package own under dependency) :
    requirement.requiredAt package target condition =
      if target = own ∧ compare condition under = .eq then some dependency else none := by
  rw [DependencyDeclaration.requiredAt, resolves.named, isUnder_of_key (anchorCondition · package) resolves.anchored]
  by_cases same : target = own
  · subst same
    simp [resolves.made, Except.toOption]
  · simp [same, Ne.symm same]

def requiredAt (package target : String) (condition : Spec) (requirements : List DependencyDeclaration) :
    List (Option Dependency) :=
  requirements.filterMap fun requirement => (requirement.requiredAt package target condition).map some

private theorem requiredAt_cons {requirement : DependencyDeclaration} {own : String} {under : Spec}
    {dependency : Dependency}
    (resolves : requirement.Resolves package own under dependency) (rest : List DependencyDeclaration) :
    requiredAt package target condition (requirement :: rest) =
      (if target = own ∧ compare condition under = .eq then [some dependency] else []) ++
        requiredAt package target condition rest := by
  rw [requiredAt, List.filterMap_cons, resolves.requiredAt]
  by_cases here : target = own ∧ compare condition under = .eq
  · rw [if_pos here, if_pos here]
    rfl
  · rw [if_neg here, if_neg here]
    rfl

/-- A run that succeeds leaves in each place what the requirements on it merge to. -/
private theorem foldlM_record_eq_ok {requirements : List DependencyDeclaration} {before after : Descriptor}
    (run : requirements.foldlM (fun descriptor requirement => requirement.record descriptor) before = .ok after) :
    after.name = before.name ∧
      (∀ requirement ∈ requirements, ∃ target condition dependency,
        requirement.Resolves before.name target condition dependency) ∧
      ∀ target condition, (requiredAt before.name target condition requirements).foldlM mergeRequired
        (before.dependency? target condition) = some (after.dependency? target condition) := by
  induction requirements generalizing before with
  | nil =>
    cases run
    exact ⟨rfl, nofun, fun _ _ => rfl⟩
  | cons requirement rest ih =>
    rw [List.foldlM_cons, bind_eq_ok] at run
    obtain ⟨next, recorded, run⟩ := run
    obtain ⟨own, under, dependency, merged, resolves, combined, rfl⟩ :=
      DependencyDeclaration.record_eq_ok_iff.mp recorded
    obtain ⟨named, resolved, places⟩ := ih run
    refine ⟨named, List.forall_mem_cons.mpr ⟨⟨own, under, dependency, resolves⟩, resolved⟩, fun target condition => ?_⟩
    have place := places target condition
    rw [Descriptor.dependency?_withDependency] at place
    rw [requiredAt_cons resolves]
    by_cases here : target = own ∧ compare condition under = .eq
    · rw [if_pos here] at place ⊢
      rw [List.singleton_append, List.foldlM_cons, here.1, before.dependency?_congr here.2, combined, ← here.1]
      exact place
    · rw [if_neg here] at place ⊢
      exact place

/-- A run succeeds if all requirements can be recorded and those on each place can be merged. -/
private theorem foldlM_record_succeeds {requirements : List DependencyDeclaration} (before : Descriptor)
    (resolved : ∀ requirement ∈ requirements, ∃ target condition dependency,
      requirement.Resolves before.name target condition dependency)
    (places : ∀ target condition, ∃ merged, (requiredAt before.name target condition requirements).foldlM mergeRequired
      (before.dependency? target condition) = some merged) :
    ∃ after, requirements.foldlM (fun descriptor requirement => requirement.record descriptor) before = .ok after := by
  induction requirements generalizing before with
  | nil => exact ⟨before, rfl⟩
  | cons requirement rest ih =>
    obtain ⟨own, under, dependency, resolves⟩ := resolved requirement List.mem_cons_self
    have here := places own under
    rw [requiredAt_cons resolves, if_pos ⟨rfl, ReflCmp.compare_self⟩, List.singleton_append, List.foldlM_cons] at here
    obtain ⟨_, here⟩ := here
    obtain ⟨place, merges, _⟩ := Option.bind_eq_some_iff.mp here
    obtain ⟨merged, rfl⟩ := exists_merged merges
    have recorded := DependencyDeclaration.record_eq_ok_iff.mpr ⟨own, under, dependency, merged, resolves, merges, rfl⟩
    obtain ⟨after, run⟩ := ih (before.withDependency own under merged)
      (fun other member => resolved other (List.mem_cons_of_mem _ member)) fun target condition => by
        have place := places target condition
        rw [requiredAt_cons resolves] at place
        rw [Descriptor.dependency?_withDependency]
        by_cases here : target = own ∧ compare condition under = .eq
        · rw [if_pos here, List.singleton_append, List.foldlM_cons, here.1, before.dependency?_congr here.2, merges,
            ← here.1] at place
          rw [if_pos here]
          exact place
        · rw [if_neg here] at place ⊢
          exact place
    exact ⟨after, by rw [List.foldlM_cons, recorded]; exact run⟩

end Runs

section Order

variable {package : String} {directory : Option Directory}

private theorem DependencyDeclaration.target_of_dependency {requirement : DependencyDeclaration} {target : String}
    {dependency : Dependency} (made : requirement.dependency target = .ok dependency) :
    dependency.target = requirement.target := by
  obtain ⟨first, rest, alone, same⟩ := (Conjunction.single made).narrowed
  cases alone
  exact (Except.ok.inj same).symm

theorem DependencyDeclaration.Resolves.congr {requirement other : DependencyDeclaration} {target : String}
    {condition : Spec} {dependency : Dependency} (resolves : requirement.Resolves package target condition dependency)
    (same : (requirement == other) = true) (read : requirement.IsRead directory) (read' : other.IsRead directory) :
    ∃ condition' dependency', other.Resolves package target condition' dependency' ∧
      (condition == condition') = true ∧ dependency.Alike dependency' := by
  obtain ⟨dependency', made, alike⟩ := dependency_congr same read read' resolves.made
  rw [beq_eq, Bool.and_eq_true, Bool.and_eq_true] at same
  obtain ⟨targets, whens, _⟩ := same
  obtain ⟨condition', anchored, equal⟩ := anchorCondition_congr whens read.when read'.when resolves.anchored
  refine ⟨condition', dependency', ⟨?_, resolves.other, anchored, made⟩, equal, alike⟩
  rw [← resolves.named]
  exact (Spec.name_eq_of_beq targets).symm

/-- Equal requirements that can be recorded ask for the same in each place. -/
theorem DependencyDeclaration.Resolves.requiredAt_congr {requirement other : DependencyDeclaration} {target : String}
    {condition : Spec} {dependency : Dependency} (resolves : requirement.Resolves package target condition dependency)
    (same : (requirement == other) = true) (read : requirement.IsRead directory) (read' : other.IsRead directory)
    (sought : String) (under : Spec) :
    Option.Rel Dependency.Alike (requirement.requiredAt package sought under) (other.requiredAt package sought under) := by
  obtain ⟨condition', dependency', resolves', equal, alike⟩ := resolves.congr same read read'
  rw [resolves.requiredAt, resolves'.requiredAt, TransCmp.congr_right (compare_eq_iff_beq.mpr equal)]
  split
  · exact .some alike
  · exact .none

private theorem normal_of_mem_requiredAt {requirements : List DependencyDeclaration}
    (read : ∀ requirement ∈ requirements, requirement.IsRead directory) {target : String} {condition : Spec} :
    ∀ item ∈ requiredAt package target condition requirements, ∀ dependency, item = some dependency →
      dependency.target.Normal := by
  rintro item member dependency rfl
  obtain ⟨requirement, present, required⟩ := List.mem_filterMap.mp member
  obtain ⟨_, required, same⟩ := Option.map_eq_some_iff.mp required
  cases same
  rw [DependencyDeclaration.requiredAt, Option.ite_none_right_eq_some] at required
  rw [DependencyDeclaration.target_of_dependency (toOption_eq_some.mp required.2)]
  exact (read requirement present).target

/-- Requirements recorded in another order leave the same ones, clashes included. -/
theorem foldlM_record_rearranged {requirements others : List DependencyDeclaration} {after : Descriptor}
    (rearranged : Rearranged (fun left right => (left == right) = true) requirements others)
    (read : ∀ requirement ∈ requirements, requirement.IsRead directory)
    (read' : ∀ requirement ∈ others, requirement.IsRead directory)
    (run : requirements.foldlM (fun descriptor requirement => requirement.record descriptor) (.empty package) = .ok after) :
    ∃ after', others.foldlM (fun descriptor requirement => requirement.record descriptor) (.empty package) = .ok after' ∧
      ∀ target condition,
        Option.Rel Dependency.Alike (after.dependency? target condition) (after'.dependency? target condition) := by
  obtain ⟨_, resolved, places⟩ := foldlM_record_eq_ok run
  have laws := Dependency.dependencyMerge.optional
  have place : ∀ target condition, ∃ merged,
      (requiredAt package target condition others).foldlM mergeRequired none = some merged ∧
        Option.Rel Dependency.Alike (after.dependency? target condition) merged := by
    intro target condition
    refine laws.foldlM_rearranged nofun (normal_of_mem_requiredAt read) (normal_of_mem_requiredAt read') ?_
      (places target condition)
    refine rearranged.filterMap fun first member second present same => ?_
    obtain ⟨own, under, dependency, resolves⟩ := resolved first member
    exact rel_map_some (resolves.requiredAt_congr same (read first member) (read' second present) target condition)
  have resolved' : ∀ requirement ∈ others, ∃ target condition dependency,
      requirement.Resolves package target condition dependency := by
    intro other present
    obtain ⟨requirement, member, same⟩ := rearranged.exists_alike other present
    obtain ⟨own, under, dependency, resolves⟩ := resolved requirement member
    obtain ⟨under', dependency', resolves', _⟩ := resolves.congr same (read requirement member) (read' other present)
    exact ⟨own, under', dependency', resolves'⟩
  obtain ⟨after', run'⟩ := foldlM_record_succeeds (.empty package) resolved' fun target condition =>
    (place target condition).imp fun _ => And.left
  refine ⟨after', run', fun target condition => ?_⟩
  obtain ⟨merged, found, like⟩ := place target condition
  obtain ⟨_, _, places'⟩ := foldlM_record_eq_ok run'
  have found' := places' target condition
  cases found.symm.trans found'
  exact like

end Order

end PackageRecipes
