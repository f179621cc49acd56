import Mathlib.Logic.Relation
import PackageRecipes.Proofs.DependencyGrouping
import PackageRecipes.Proofs.OrderedMapEntries
import PackageRecipes.Proofs.SpecMeet

/-! The single writes that directives make to a descriptor, each with what has been
checked before it. Whatever a directive does, custom or not and failing or not, it
gets from one descriptor to the other by such writes. -/

namespace PackageRecipes
open Relation

section Names

private theorem Spec.name_of_addDependency {spec added : Spec} {name : String} {node : Node}
    (run : spec.addDependency name node = .ok added) : added.name = spec.name := by
  unfold addDependency at run
  split at run
  next existing found =>
    split at run
    next =>
      cases run
      rfl
    next => cases run
  next =>
    cases run
    rfl

theorem Spec.name_of_anchor {spec anchored : Spec} {owner : String} (run : spec.anchor owner = .ok anchored) :
    anchored.name = some owner := by
  unfold anchor at run
  split at run
  next =>
    cases run
    rfl
  next name named =>
    split at run
    next same =>
      cases run
      rw [Spec.name, named, eq_of_beq same]
    next =>
      obtain ⟨first, added, run⟩ := bind_eq_ok.mp run
      refine foldlM_preserves (fun spec : Spec => spec.name = some owner) ?_ (name_of_addDependency added) run
      intro spec entry after _ kept added
      exact (name_of_addDependency added).trans kept

private theorem name_of_anchorCondition {when : Option Spec} {owner : String} {condition : Spec}
    (run : anchorCondition when owner = .ok condition) : condition.name = some owner := by
  cases when with
  | none =>
    cases run
    rfl
  | some spec => exact Spec.name_of_anchor run

private theorem Spec.name_of_constrain {left right both : Spec} {name : String} (run : left.constrain right = .ok both)
    (named : left.name = some name) : both.name = some name :=
  Node.name_of_narrow named (Spec.narrow_eq_ok_iff.mp (mapError_eq_ok.mp run)).1

private theorem Patch.owner_of_create {owner locator : String} {level : Nat} {details : PatchDetails}
    {directory : Option Directory} {patch : Patch} (run : create owner locator level details directory = .ok patch) :
    patch.owner = owner := by
  unfold create at run
  split at run
  next =>
    cases run
    rfl
  next => cases run

end Names

def PatchMap.OwnedBy (owner : String) (patches : PatchMap) : Prop :=
  patches.All fun condition patches =>
    condition.name = some owner ∧ patches ≠ [] ∧ ∀ patch ∈ patches, patch.owner = owner

structure Dependency.IsOn (target : String) (dependency : Dependency) : Prop where
  named : dependency.target.name = some target
  patches : PatchMap.OwnedBy target dependency.patches

section Requirements

variable {owner target : String} {condition : Spec} {patches : PatchMap}

theorem PatchMap.ownedBy_empty (owner : String) : PatchMap.OwnedBy owner .empty :=
  OrderedMap.all_empty _

theorem PatchMap.OwnedBy.append (owned : PatchMap.OwnedBy owner patches) (about : condition.name = some owner)
    {more : List Patch} (nonempty : more ≠ []) (all : ∀ patch ∈ more, patch.owner = owner) :
    PatchMap.OwnedBy owner (patches.upsert condition fun existing => existing.getD [] ++ more) := by
  refine OrderedMap.All.upsert owned ⟨about, by simpa using nonempty, by simpa using all⟩ ?_
  rintro other existing _ ⟨named, _, owned⟩
  refine ⟨named, by simp [nonempty], fun patch member => ?_⟩
  rcases List.mem_append.mp member with earlier | later
  · exact owned patch earlier
  · exact all patch later

theorem PatchMap.OwnedBy.push (owned : PatchMap.OwnedBy owner patches) (about : condition.name = some owner)
    {patch : Patch} (own : patch.owner = owner) : PatchMap.OwnedBy owner (patches.push condition patch) :=
  owned.append about (List.cons_ne_nil patch []) (by simpa using own)

theorem Dependency.IsOn.merge {left right both : Dependency} (first : left.IsOn target) (second : right.IsOn target)
    (run : left.merge right = .ok both) : both.IsOn target := by
  obtain ⟨narrowed, constrained, rfl⟩ := merge_eq_ok run
  refine ⟨Spec.name_of_constrain constrained first.named, ?_⟩
  refine List.foldlRecOn right.patches.entries _ first.patches fun patches owned entry member => ?_
  obtain ⟨about, nonempty, all⟩ := second.patches entry member
  exact PatchMap.OwnedBy.append owned about nonempty all

private theorem DependencyDeclaration.isOn_dependency {requirement : DependencyDeclaration} {dependency : Dependency}
    (named : requirement.target.name = some target) (run : requirement.dependency target = .ok dependency) :
    dependency.IsOn target := by
  refine foldlM_preserves (Dependency.IsOn target) ?_ ⟨named, PatchMap.ownedBy_empty target⟩ run
  intro before patch after _ isOn added
  obtain ⟨condition, created, anchored, made, rfl⟩ := DependencyPatch.addTo_eq_ok_iff.mp added
  exact ⟨isOn.named, isOn.patches.push (name_of_anchorCondition anchored) (Patch.owner_of_create made)⟩

end Requirements

inductive Write (before : Descriptor) : Descriptor → Prop where
  | version (version : Version) (metadata : Metadata) :
    Write before { before with versions := before.versions.insert version metadata }
  | requirement {target : String} {condition : Spec} {dependency merged : Dependency}
    (other : target ≠ before.name) (anchored : condition.name = some before.name) (isOn : dependency.IsOn target)
    (merges : dependency.mergedOnto (((before.dependencies.find? target).getD .empty).find? condition) = .ok merged) :
    Write before { before with
      dependencies := before.dependencies.insert target
        (((before.dependencies.find? target).getD .empty).insert condition merged) }
  | extendee {name : String} {extension : ExtensionDeclaration} (named : extension.target.name = some name)
    (required : before.dependencies.contains name = true)
    (only : ∀ existing ∈ before.extendees.keys, existing = name) :
    Write before (extension.recordExtendee name before)
  | conflict {conflict : Conflict} (conflicting : Spec) (anchored : conflict.when.name = some before.name) :
    Write before { before with
      conflicts := before.conflicts.upsert conflicting fun existing =>
        let recorded := existing.getD []
        if recorded.contains conflict then recorded else recorded ++ [conflict] }
  | provision {virtual condition : Spec} (other : virtual.name ≠ some before.name)
    (anchored : condition.name = some before.name) :
    Write before { before with provided := provideUnder condition before.provided virtual }
  | patch {condition : Spec} {patch : Patch} (anchored : condition.name = some before.name)
    (own : patch.owner = before.name) :
    Write before { before with patches := before.patches.push condition patch }
  | variant {variant : Variant} (valid : isIdentifier variant.name = true) :
    Write before { before with variants := before.variants.insert variant.name variant }
  | resource {condition : Spec} (resource : Resource) (anchored : condition.name = some before.name) :
    Write before { before with resources := before.resources.push condition resource }

section Effects

variable {before after : Descriptor}

theorem DependencyDeclaration.write_of_record {requirement : DependencyDeclaration}
    (run : requirement.record before = .ok after) :
    Write before after ∧ after.extendees = before.extendees ∧
      ∀ target, requirement.target.name = some target → after.dependencies.contains target = true := by
  obtain ⟨target, condition, dependency, merged, named, other, anchored, made, merges, rfl⟩ := record_eq_ok run
  refine ⟨.requirement other (name_of_anchorCondition anchored) (isOn_dependency named made) merges, rfl, ?_⟩
  intro sought same
  cases named.symm.trans same
  exact before.dependencies.contains_upsert.mpr (.inl rfl)

private theorem ExtensionDeclaration.writes_of_record {extension : ExtensionDeclaration} {config : Config}
    (run : extension.record config before = .ok after) : ReflTransGen Write before after := by
  obtain ⟨name, next, named, recorded, outcome⟩ := record_eq_ok run
  obtain ⟨write, same, required⟩ := DependencyDeclaration.write_of_record recorded
  rcases outcome with ⟨_, rfl⟩ | ⟨only, rfl⟩
  · exact .single write
  · rw [← same] at only
    exact .tail (.single write) (.extendee named (required name named) only)

private theorem ProvisionDeclaration.writes_recordAll {condition : Spec} (virtuals : List Spec) {before : Descriptor}
    (anchored : condition.name = some before.name) :
    ReflTransGen Write before ((recordAll condition virtuals).outcome before).2 := by
  induction virtuals generalizing before with
  | nil => exact .refl
  | cons virtual rest ih =>
    rw [outcome_recordAll_cons]
    split
    next => exact .refl
    next other =>
      have different : virtual.name ≠ some before.name := by simpa using other
      exact .head (.provision different anchored) (ih anchored)

theorem Declaration.writes (config : Config) (declaration : Declaration) (before : Descriptor) :
    ReflTransGen Write before (declaration.effect config before).2 := by
  rw [effect_eq_atOnce]
  cases declaration with
  | version declared => exact .single (.version declared.version declared.allMetadata)
  | dependsOn declared =>
    exact Effect.holds_ofUpdate .refl fun after run => .single (DependencyDeclaration.write_of_record run).1
  | extending declared =>
    exact Effect.holds_ofUpdate .refl fun after run => ExtensionDeclaration.writes_of_record run
  | conflicts declared =>
    refine Effect.holds_ofUpdate .refl fun after run => ?_
    obtain ⟨when, anchored, rfl⟩ := ConflictDeclaration.record_eq_ok run
    exact .single (.conflict declared.conflict (name_of_anchorCondition anchored))
  | provides declared =>
    rw [atOnce, ProvisionDeclaration.outcome_replay]
    split
    next condition anchored =>
      exact ProvisionDeclaration.writes_recordAll declared.virtuals (name_of_anchorCondition anchored)
    next => exact .refl
  | patch declared =>
    refine Effect.holds_ofUpdate .refl fun after run => ?_
    obtain ⟨condition, patch, anchored, made, rfl⟩ := PatchDeclaration.record_eq_ok run
    exact .single (.patch (name_of_anchorCondition anchored) (Patch.owner_of_create made))
  | variant declared =>
    refine Effect.holds_ofUpdate .refl fun after run => ?_
    obtain ⟨valid, rfl⟩ := Variant.record_eq_ok run
    exact .single (.variant valid)
  | resource declared =>
    refine Effect.holds_ofUpdate .refl fun after run => ?_
    obtain ⟨condition, strategy, anchored, _, rfl⟩ := ResourceDeclaration.record_eq_ok run
    exact .single (.resource _ (name_of_anchorCondition anchored))

mutual

/-- Whatever a directive does to a descriptor, it does by single writes. -/
theorem Directive.writes (config : Config) :
    ∀ (directive : Directive) (before : Descriptor), ReflTransGen Write before (directive.effect config before).2
  | .declared declaration, before => declaration.writes config before
  | .custom kind _ action, before => action.writes config kind before

theorem Program.writes (config : Config) (kind : CustomKind) :
    ∀ (program : Program) (before : Descriptor), ReflTransGen Write before (program.run config kind before).2
  | .finish _, _ => .refl
  | .inspect next, before => (next before).writes config kind before
  | .replay directive next, before => by
    rw [Program.run]
    dsimp only
    split
    next => exact (next _).writes config kind before
    next => exact (directive.writes config before).trans ((next _).writes config kind _)

end

end Effects

namespace Descriptor

/-- Replaying a directive leads from the one descriptor to the other, whether it succeeds
or fails. -/
def Replayed (before after : Descriptor) : Prop :=
  ∃ config directive, (Directive.effect config directive before).2 = after

/-- What every single write keeps is kept by all directives together. -/
theorem holds_of_replayed {holds : Descriptor → Prop} {before after : Descriptor}
    (kept : ∀ before after, holds before → Write before after → holds after) (start : holds before)
    (replayed : ReflTransGen Replayed before after) : holds after := by
  have written : ∀ after, ReflTransGen Write before after → holds after := by
    intro after writes
    induction writes with
    | refl => exact start
    | tail _ write ih => exact kept _ _ ih write
  have writes : ReflTransGen Write before after := by
    induction replayed with
    | refl => exact .refl
    | tail _ replayed ih =>
      obtain ⟨config, directive, rfl⟩ := replayed
      exact ih.trans (directive.writes config _)
  exact written after writes

end Descriptor

end PackageRecipes
