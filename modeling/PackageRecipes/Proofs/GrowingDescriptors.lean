import Mathlib.Data.List.Infix
import PackageRecipes.Directive.Handle
import PackageRecipes.Proofs.DescriptorWrites
import PackageRecipes.Proofs.GreatestLowerBound

/-! Descriptors only grow. What has been recorded once is there after any further
directive, at most narrowed, merged with more or followed by more. -/

namespace PackageRecipes
open Relation

instance isPreorderTrue {α : Type} : IsPreorder α fun _ _ => True where
  refl _ := trivial
  trans _ _ _ _ _ := trivial

abbrev OrderedMap.KeepsKeys {κ α : Type} [Ord κ] (before after : OrderedMap κ α) : Prop :=
  before.Extends (fun _ _ => True) after

structure Dependency.Grows (before after : Dependency) : Prop where
  target : after.target.satisfies before.target = true
  types : ∀ type, before.types.contains type = true → after.types.contains type = true
  patches : before.patches.Extends (· <+: ·) after.patches

instance : IsPreorder Dependency Dependency.Grows where
  refl _ := ⟨Spec.specMeet.refl _, fun _ => id, .refl _⟩
  trans _ _ _ early late :=
    ⟨Spec.specMeet.trans late.target early.target, fun type held => late.types type (early.types type held),
      early.patches.trans late.patches⟩

theorem Dependency.Grows.merge {left right both : Dependency} (run : left.merge right = .ok both) : left.Grows both := by
  obtain ⟨narrowed, constrained, rfl⟩ := merge_eq_ok run
  refine ⟨(Spec.satisfies_of_constrain constrained).1, fun type held => ?_, ?_⟩
  · rw [DependencyTypes.contains_union, held, Bool.true_or]
  · refine .foldl (fun patches entry => .upsert fun existing _ => ?_) _ _
    exact List.prefix_append existing entry.2

def KeepsOptions (before after : Spec × Metadata) : Prop :=
  before.2.KeepsKeys after.2

instance : IsPreorder (Spec × Metadata) KeepsOptions where
  refl extendee := show extendee.2.KeepsKeys extendee.2 from .refl _
  trans first _ third early late := show first.2.KeepsKeys third.2 from .trans early late

namespace Descriptor

variable {before middle after : Descriptor}

/-- All that the earlier descriptor holds is in the later one: every key, of lists at
least the beginning, of sets and options at least these, and the package extended. -/
structure Grows (before after : Descriptor) : Prop where
  name : after.name = before.name
  versions : before.versions.KeepsKeys after.versions
  dependencies : before.dependencies.Extends (OrderedMap.Extends Dependency.Grows) after.dependencies
  conflicts : before.conflicts.Extends (· <+: ·) after.conflicts
  provided : before.provided.Extends OrderedMap.KeepsKeys after.provided
  variants : before.variants.KeepsKeys after.variants
  patches : before.patches.Extends (· <+: ·) after.patches
  resources : before.resources.Extends (· <+: ·) after.resources
  extendees : before.extendees.Extends KeepsOptions after.extendees
  extendee : before.extendees.keys ≠ [] → after.extendees.keys = before.extendees.keys

theorem Grows.refl (descriptor : Descriptor) : descriptor.Grows descriptor where
  name := rfl
  versions := .refl _
  dependencies := .refl _
  conflicts := .refl _
  provided := .refl _
  variants := .refl _
  patches := .refl _
  resources := .refl _
  extendees := .refl _
  extendee _ := rfl

theorem Grows.trans (early : before.Grows middle) (late : middle.Grows after) : before.Grows after where
  name := late.name.trans early.name
  versions := early.versions.trans late.versions
  dependencies := early.dependencies.trans late.dependencies
  conflicts := early.conflicts.trans late.conflicts
  provided := early.provided.trans late.provided
  variants := early.variants.trans late.variants
  patches := early.patches.trans late.patches
  resources := early.resources.trans late.resources
  extendees := early.extendees.trans late.extendees
  extendee extended := by
    have same := early.extendee extended
    rw [← same] at extended
    exact (late.extendee extended).trans same

private theorem extends_push {κ α : Type} [Ord κ] [Std.TransOrd κ] (map : OrderedMap κ (List α)) (key : κ) (value : α) :
    map.Extends (· <+: ·) (map.push key value) :=
  .upsert fun existing _ => List.prefix_append existing [value]

private theorem keepsKeys_insert {κ α : Type} [Ord κ] [Std.TransOrd κ] (map : OrderedMap κ α) (key : κ) (value : α) :
    map.KeepsKeys (map.insert key value) :=
  .upsert fun _ _ => trivial

/-- The requirement that is written is the earlier one or narrower, with more types and
patches. -/
theorem extends_requirement {required : OrderedMap Spec Dependency} {condition : Spec} {dependency merged : Dependency}
    (merges : dependency.mergedOnto (required.find? condition) = .ok merged) :
    required.Extends Dependency.Grows (required.insert condition merged) := by
  refine .upsert fun earlier found => ?_
  rw [found] at merges
  exact .merge merges

theorem Grows.write (write : Write before after) : before.Grows after := by
  cases write with
  | version version metadata => exact { Grows.refl before with versions := keepsKeys_insert _ _ _ }
  | @requirement target condition dependency merged other anchored isOn merges =>
    refine { Grows.refl before with dependencies := .upsert fun required found => ?_ }
    rw [found] at merges ⊢
    exact extends_requirement merges
  | @extendee name extension named required only =>
    refine { Grows.refl before with extendees := .upsert fun earlier found => ?_, extendee := fun extended => ?_ }
    · exact .foldl (fun options entry => keepsKeys_insert _ _ _) _ _
    · obtain ⟨existing, member⟩ := List.exists_mem_of_ne_nil _ extended
      rw [only existing member] at member
      exact before.extendees.keys_upsert_of_contains (before.extendees.mem_keys_iff.mp member)
  | @conflict conflict conflicting anchored =>
    refine { Grows.refl before with conflicts := .upsert fun recorded _ => ?_ }
    dsimp only [Option.getD_some]
    split
    next => exact List.prefix_rfl
    next => exact List.prefix_append recorded [conflict]
  | provision other anchored =>
    exact { Grows.refl before with provided := .upsert fun conditions _ => keepsKeys_insert _ _ _ }
  | patch anchored own => exact { Grows.refl before with patches := extends_push _ _ _ }
  | variant valid => exact { Grows.refl before with variants := keepsKeys_insert _ _ _ }
  | resource resource anchored => exact { Grows.refl before with resources := extends_push _ _ _ }

/-- Directives replayed upon a descriptor take nothing from it, whether they are built-in
or custom and whether they succeed or fail. -/
theorem replay_only_grows (replayed : ReflTransGen Replayed before after) : before.Grows after := by
  refine holds_of_replayed ?_ (Grows.refl before) replayed
  intro middle after grown write
  exact grown.trans (.write write)

def requireZlib : Directive :=
  .custom ⟨"base", .ofList [.dependencies]⟩ 0 <|
    .dependsOn "zlib@:1.4" .always ⟨true, false, false⟩ .finish

/-- Goes on after a requirement that clashes with an earlier one. -/
def narrowZlib : Directive :=
  .custom ⟨"tune", .ofList [.dependencies, .conflicts]⟩ 1 <|
    .dependsOn "zlib@2:" .always .all fun _ =>
      .dependsOn "zlib+shared" .always ⟨false, true, false⟩ fun _ =>
        .conflicts "app%gcc" .always none .finish

theorem narrowZlib_grows :
    let before := (requireZlib.effect .standard (.empty "app")).2
    let after := (narrowZlib.effect .standard before).2
    (before.dependency? "zlib" (.named "app")).map (·.target.text) = some "zlib@:1.4" ∧
      (after.dependency? "zlib" (.named "app")).map (·.target.text) = some "zlib@:1.4+shared" ∧
      after.conflicts.size = 1 ∧ before.Grows after := by
  intro before after
  have replayed : Replayed before after := ⟨.standard, narrowZlib, rfl⟩
  exact ⟨by decide +kernel, by decide +kernel, by decide +kernel, replay_only_grows (.single replayed)⟩

end Descriptor

end PackageRecipes
