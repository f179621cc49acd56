import PackageRecipes.Directive.Effect
import PackageRecipes.Proofs.OrderedMapLookup

/-! The built-in directives as updates that take place at once or not at all. Replaying one
checks and writes step by step, and a requirement is written in two steps with a merge in
between that can fail. Still each comes to the same as its update, for whatever is written
before a check fails is what had been there; provided packages are the exception. -/

namespace PackageRecipes

namespace Effect

/-- Writes what there is to write, and otherwise leaves the descriptor as it was. -/
def writing (before : Descriptor) : Except Error Descriptor → Except Error Unit × Descriptor
  | .ok written => (.ok (), written)
  | .error error => (.error error, before)

/-- The effect that writes a new descriptor, or fails and writes nothing. -/
def ofUpdate (update : Descriptor → Except Error Descriptor) : Effect :=
  fun before => writing before (update before)

end Effect

section Steps
open Procedure

variable {α : Type} {before : Descriptor}

/-- A check in front of what is written at once can be one of its own. -/
private theorem Effect.outcome_check_bind {check : Except Error α} {next : α → Procedure Descriptor Unit}
    {update : α → Except Error Descriptor} (each : ∀ value, (next value).outcome before = writing before (update value)) :
    (liftM check >>= next).outcome before = writing before (check >>= update) := by
  rw [outcome_bind, outcome_check]
  cases check with
  | error error => rfl
  | ok value => exact each value

def Dependency.mergedOnto (dependency : Dependency) : Option Dependency → Except Error Dependency
  | some earlier => earlier.merge dependency
  | none => .ok dependency

namespace DependencyDeclaration

def mergeUnder (target : String) (condition : Spec) (dependency : Dependency) (descriptor : Descriptor) :
    Except Error Descriptor := do
  let existing := (descriptor.dependencies.find? target).getD .empty
  let merged ← dependency.mergedOnto (existing.find? condition)
  return descriptor.withDependency target condition merged

/-- Records the requirement, merged into an earlier one under the same condition. -/
def record (declared : DependencyDeclaration) (descriptor : Descriptor) : Except Error Descriptor := do
  let target ← targetName declared.target
  if target == descriptor.name then throw (.selfReference (.dependency target))
  let condition ← anchorCondition declared.when descriptor.name
  let dependency ← declared.dependency target
  mergeUnder target condition dependency descriptor

variable {target : String} {condition : Spec}

private theorem find?_upsert_entry :
    (before.dependencies.upsert target (·.getD .empty)).find? target =
      some ((before.dependencies.find? target).getD .empty) := by
  rw [OrderedMap.find?_upsert, if_pos Std.ReflCmp.compare_self]

private theorem withDependency_upsert_entry (dependency : Dependency) :
    { before with dependencies := before.dependencies.upsert target (·.getD .empty) }.withDependency target condition
        dependency = before.withDependency target condition dependency := by
  rw [Descriptor.withDependency, find?_upsert_entry, OrderedMap.insert, OrderedMap.upsert_upsert]
  rfl

private theorem withDependency_earlier {earlier : Dependency}
    (found : ((before.dependencies.find? target).getD .empty).find? condition = some earlier) :
    before.withDependency target condition earlier = before := by
  rw [Descriptor.withDependency, OrderedMap.insert_of_find? _ found]
  cases entry : before.dependencies.find? target with
  | none =>
    rw [entry] at found
    cases found
  | some required =>
    rw [Option.getD_some, before.dependencies.insert_of_find? entry]

theorem outcome_recordUnder (dependency : Dependency) :
    (recordUnder target condition dependency).outcome before =
      Effect.writing before (mergeUnder target condition dependency before) := by
  rw [recordUnder, outcome_modify_bind, outcome_get_bind, find?_upsert_entry, Option.getD_some, mergeUnder]
  cases found : ((before.dependencies.find? target).getD .empty).find? condition with
  | none => exact congrArg (Prod.mk _) (withDependency_upsert_entry dependency)
  | some earlier =>
    simp only [Dependency.outcome_absorb, Dependency.mergedOnto, outcome_modify_bind, outcome_check,
      withDependency_upsert_entry]
    cases earlier.merge dependency with
    | ok merged => rfl
    | error error =>
      -- What is written back is the earlier requirement, so the descriptor is the one before.
      simp only [withDependency_earlier found]
      rfl

theorem outcome_replay (declared : DependencyDeclaration) :
    declared.replay.outcome = Effect.ofUpdate declared.record := by
  funext before
  rw [replay, outcome_get_bind, Effect.ofUpdate, record]
  refine Effect.outcome_check_bind fun target => ?_
  by_cases itself : target == before.name
  · rw [if_pos itself, if_pos itself]
    rfl
  · rw [if_neg itself, if_neg itself]
    refine Effect.outcome_check_bind fun condition => ?_
    exact Effect.outcome_check_bind outcome_recordUnder

end DependencyDeclaration

/-- Records an extension as a dependency and, if it is the only one, as the package extended. -/
def ExtensionDeclaration.record (declared : ExtensionDeclaration) (config : Config) (descriptor : Descriptor) :
    Except Error Descriptor := do
  let name ← targetName declared.target
  match descriptor.extendees.keys.find? (· != name) with
  | some existing =>
    match config.extendsPolicy with
    | .reject => throw (.multipleExtendees descriptor.name existing name)
    | .ignore => declared.asDependency.record descriptor
  | none => return declared.recordExtendee name (← declared.asDependency.record descriptor)

theorem ExtensionDeclaration.outcome_replay (declared : ExtensionDeclaration) (config : Config) :
    (declared.replay config).outcome = Effect.ofUpdate (declared.record config) := by
  funext before
  rw [replay, Effect.ofUpdate, record]
  refine Effect.outcome_check_bind fun name => ?_
  rw [outcome_get_bind]
  cases before.extendees.keys.find? (· != name) with
  | some existing =>
    cases config.extendsPolicy with
    | reject => rfl
    | ignore => exact congrFun (DependencyDeclaration.outcome_replay declared.asDependency) before
  | none =>
    -- The extended package is written last, when nothing can fail any more.
    dsimp only
    rw [outcome_bind, DependencyDeclaration.outcome_replay, Effect.ofUpdate]
    cases declared.asDependency.record before with
    | error error => rfl
    | ok next => rfl

def ConflictDeclaration.record (declared : ConflictDeclaration) (descriptor : Descriptor) :
    Except Error Descriptor := do
  let when ← anchorCondition declared.when descriptor.name
  let conflict : Conflict := ⟨when, declared.message⟩
  return { descriptor with
    conflicts := descriptor.conflicts.upsert declared.conflict fun existing =>
      let recorded := existing.getD []
      if recorded.contains conflict then recorded else recorded ++ [conflict] }

theorem ConflictDeclaration.outcome_replay (declared : ConflictDeclaration) :
    declared.replay.outcome = Effect.ofUpdate declared.record := by
  funext before
  rw [replay, outcome_get_bind, Effect.ofUpdate, record]
  exact Effect.outcome_check_bind fun when => rfl

def PatchDeclaration.record (declared : PatchDeclaration) (descriptor : Descriptor) : Except Error Descriptor := do
  let condition ← anchorCondition declared.when descriptor.name
  let patch ← Patch.create descriptor.name declared.locator declared.level declared.details declared.directory
  return { descriptor with patches := descriptor.patches.push condition patch }

theorem PatchDeclaration.outcome_replay (declared : PatchDeclaration) :
    declared.replay.outcome = Effect.ofUpdate declared.record := by
  funext before
  rw [replay, outcome_get_bind, Effect.ofUpdate, record]
  refine Effect.outcome_check_bind fun condition => ?_
  exact Effect.outcome_check_bind fun patch => rfl

def Variant.record (variant : Variant) (descriptor : Descriptor) : Except Error Descriptor :=
  if isIdentifier variant.name then
    .ok { descriptor with variants := descriptor.variants.insert variant.name variant }
  else .error (.variantName (.notIdentifier variant.name))

theorem Variant.outcome_replay (variant : Variant) : variant.replay.outcome = Effect.ofUpdate variant.record := by
  funext before
  unfold replay Effect.ofUpdate record
  cases isIdentifier variant.name with
  | true => rfl
  | false => rfl

def ResourceDeclaration.record (declared : ResourceDeclaration) (descriptor : Descriptor) :
    Except Error Descriptor := do
  let condition ← anchorCondition declared.when descriptor.name
  let strategy ← declared.fetch.strategy
  return { descriptor with
    resources := descriptor.resources.push condition
      ⟨declared.name, strategy, declared.destination, declared.placement⟩ }

theorem ResourceDeclaration.outcome_replay (declared : ResourceDeclaration) :
    declared.replay.outcome = Effect.ofUpdate declared.record := by
  funext before
  rw [replay, outcome_get_bind, Effect.ofUpdate, record]
  refine Effect.outcome_check_bind fun condition => ?_
  exact Effect.outcome_check_bind fun strategy => rfl

namespace ProvisionDeclaration

theorem outcome_recordAll_cons (condition virtual : Spec) (others : List Spec) (before : Descriptor) :
    (recordAll condition (virtual :: others)).outcome before =
      if virtual.name == some before.name then (.error (.selfReference (.provided before.name)), before)
      else (recordAll condition others).outcome { before with
        provided := before.provided.upsert virtual fun existing =>
          OrderedSet.add (existing.getD .empty) condition } := by
  rw [recordAll, outcome_get_bind]
  by_cases itself : virtual.name == some before.name
  · rw [if_pos itself, if_pos itself]
    rfl
  · rw [if_neg itself, if_neg itself]
    rfl

theorem outcome_replay (declared : ProvisionDeclaration) (before : Descriptor) :
    declared.replay.outcome before =
      match anchorCondition declared.when before.name with
      | .ok condition => (recordAll condition declared.virtuals).outcome before
      | .error error => (.error error, before) := by
  rw [replay, outcome_get_bind, outcome_bind, outcome_check]
  cases anchorCondition declared.when before.name with
  | error error => rfl
  | ok condition => rfl

end ProvisionDeclaration

/-- What a directive does, in one update for all kinds but provided packages. -/
def Declaration.atOnce (config : Config) : Declaration → Effect
  | version declared => .ofUpdate fun descriptor => .ok (declared.record descriptor)
  | dependsOn declared => .ofUpdate declared.record
  | extending declared => .ofUpdate (declared.record config)
  | conflicts declared => .ofUpdate declared.record
  | provides declared => declared.replay.outcome
  | patch declared => .ofUpdate declared.record
  | variant declared => .ofUpdate declared.record
  | resource declared => .ofUpdate declared.record

theorem Declaration.effect_eq_atOnce (config : Config) (declaration : Declaration) :
    declaration.effect config = declaration.atOnce config := by
  cases declaration with
  | version => rfl
  | dependsOn declared => exact declared.outcome_replay
  | extending declared => exact declared.outcome_replay config
  | conflicts declared => exact declared.outcome_replay
  | provides => rfl
  | patch declared => exact declared.outcome_replay
  | variant declared => exact declared.outcome_replay
  | resource declared => exact declared.outcome_replay

end Steps

end PackageRecipes
