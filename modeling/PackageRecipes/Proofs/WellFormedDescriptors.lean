import PackageRecipes.Proofs.DescriptorWrites

/-! A descriptor is in good shape however it has been replayed: nothing in it is empty,
each condition is about the package that owns it, and no package requires, provides or
extends what it must not. -/

namespace PackageRecipes.Descriptor
open Relation

variable {package : String} {before after descriptor : Descriptor}

structure WellFormed (package : String) (descriptor : Descriptor) : Prop where
  name : descriptor.name = package
  dependencies : descriptor.dependencies.All fun target required =>
    target ≠ package ∧ required.entries ≠ [] ∧
      required.All fun condition dependency => condition.name = some package ∧ dependency.IsOn target
  conflicts : descriptor.conflicts.All fun _ conflicts =>
    conflicts ≠ [] ∧ (conflicts.Pairwise fun first second => (first == second) = false) ∧
      ∀ conflict ∈ conflicts, conflict.when.name = some package
  provided : descriptor.provided.All fun virtual conditions =>
    virtual.name ≠ some package ∧ conditions.entries ≠ [] ∧
      conditions.All fun condition _ => condition.name = some package
  patches : PatchMap.OwnedBy package descriptor.patches
  resources : descriptor.resources.All fun condition resources => condition.name = some package ∧ resources ≠ []
  variants : descriptor.variants.All fun name variant => isIdentifier name = true ∧ variant.name = name
  extended : descriptor.extendees.size ≤ 1
  extendees : descriptor.extendees.All fun name extendee =>
    extendee.1.name = some name ∧ descriptor.dependencies.contains name = true

theorem WellFormed.empty (package : String) : WellFormed package (.empty package) where
  name := rfl
  dependencies := OrderedMap.all_empty _
  conflicts := OrderedMap.all_empty _
  provided := OrderedMap.all_empty _
  patches := PatchMap.ownedBy_empty package
  resources := OrderedMap.all_empty _
  variants := OrderedMap.all_empty _
  extended := Nat.zero_le 1
  extendees := OrderedMap.all_empty _

section Fields

variable {target : String} {condition : Spec}

/-- A conflict recorded unless it is there already leaves a list without repetitions. -/
private theorem wellFormed_conflicts {recorded : List Conflict} {conflict : Conflict}
    (apart : recorded.Pairwise fun first second => (first == second) = false)
    (about : ∀ conflict ∈ recorded, conflict.when.name = some package)
    (anchored : conflict.when.name = some package) :
    let added := if recorded.contains conflict then recorded else recorded ++ [conflict]
    added ≠ [] ∧ (added.Pairwise fun first second => (first == second) = false) ∧
      ∀ conflict ∈ added, conflict.when.name = some package := by
  dsimp only
  split
  next present =>
    refine ⟨?_, apart, about⟩
    rintro rfl
    cases present
  next absent =>
    refine ⟨by simp, List.pairwise_append.mpr ⟨apart, List.pairwise_singleton _ conflict, ?_⟩, ?_⟩
    · intro first member second last
      rw [List.mem_singleton.mp last]
      refine Bool.eq_false_iff.mpr fun same => absent ?_
      rw [List.contains_iff_exists_mem_beq]
      exact ⟨first, member, BEq.symm same⟩
    · intro other member
      rcases List.mem_append.mp member with earlier | last
      · exact about other earlier
      · rw [List.mem_singleton.mp last]
        exact anchored

private theorem wellFormed_conditions {conditions : OrderedSet Spec}
    (all : conditions.All fun condition _ => condition.name = some package) (anchored : condition.name = some package) :
    (OrderedSet.add conditions condition).entries ≠ [] ∧
      (OrderedSet.add conditions condition).All fun condition _ => condition.name = some package :=
  ⟨conditions.upsert_ne_empty condition _, all.upsert anchored fun _ _ _ about => about⟩

/-- One more requirement on a package, merged with an earlier one or not. -/
private theorem wellFormed_required {required : OrderedMap Spec Dependency} {dependency merged : Dependency}
    (all : required.All fun condition dependency => condition.name = some package ∧ dependency.IsOn target)
    (anchored : condition.name = some package) (isOn : dependency.IsOn target)
    (merges : dependency.mergedOnto (required.find? condition) = .ok merged) :
    (required.insert condition merged).All fun condition dependency =>
      condition.name = some package ∧ dependency.IsOn target := by
  have mergedOn : merged.IsOn target :=
    Dependency.holds_mergedOnto Dependency.IsOn.merge (fun entry member => (all entry member).2) isOn merges
  exact all.upsert ⟨anchored, mergedOn⟩ fun _ _ _ both => ⟨both.1, mergedOn⟩

end Fields

theorem WellFormed.write (wellFormed : WellFormed package before) (write : Write before after) :
    WellFormed package after := by
  have name := wellFormed.name
  subst name
  cases write with
  | version => exact { wellFormed with }
  | @requirement target condition dependency merged other anchored isOn merges =>
    have existing : ((before.dependencies.find? target).getD .empty).All fun condition dependency =>
        condition.name = some before.name ∧ dependency.IsOn target := by
      cases found : before.dependencies.find? target with
      | none => exact OrderedMap.all_empty _
      | some required =>
        obtain ⟨same, equal, _, _, all⟩ := wellFormed.dependencies.find? found
        rw [Std.LawfulEqOrd.eq_of_compare equal]
        exact all
    have added := wellFormed_required existing anchored isOn merges
    refine { wellFormed with dependencies := ?_, extendees := ?_ }
    · refine wellFormed.dependencies.upsert ⟨other, OrderedMap.upsert_ne_empty _ _ _, added⟩ ?_
      rintro same _ equal _
      rw [← Std.LawfulEqOrd.eq_of_compare equal]
      exact ⟨other, OrderedMap.upsert_ne_empty _ _ _, added⟩
    · intro entry member
      obtain ⟨named, required⟩ := wellFormed.extendees entry member
      exact ⟨named, before.dependencies.contains_upsert.mpr (.inr required)⟩
  | @extendee name extension named required only =>
    have one : before.extendees.All fun other _ => other = name :=
      fun entry member => only entry.1 (List.mem_map_of_mem member)
    refine { wellFormed with extended := (one.upsert rfl fun _ _ _ same => same).size_le_one, extendees := ?_ }
    refine wellFormed.extendees.upsert ⟨named, required⟩ ?_
    intro other _ equal _
    rw [← Std.LawfulEqOrd.eq_of_compare equal]
    exact ⟨named, required⟩
  | conflict conflicting anchored =>
    refine { wellFormed with conflicts := wellFormed.conflicts.upsert ?_ ?_ }
    · exact wellFormed_conflicts .nil nofun anchored
    · rintro _ recorded _ ⟨_, apart, about⟩
      exact wellFormed_conflicts apart about anchored
  | provision other anchored =>
    refine { wellFormed with provided := wellFormed.provided.upsert ?_ ?_ }
    · exact ⟨other, wellFormed_conditions (OrderedMap.all_empty _) anchored⟩
    · rintro virtual conditions _ ⟨apart, _, all⟩
      exact ⟨apart, wellFormed_conditions all anchored⟩
  | patch anchored own => exact { wellFormed with patches := wellFormed.patches.push anchored own }
  | variant valid =>
    refine { wellFormed with variants := wellFormed.variants.upsert ⟨valid, rfl⟩ ?_ }
    intro other _ equal _
    rw [← Std.LawfulEqOrd.eq_of_compare equal]
    exact ⟨valid, rfl⟩
  | resource resource anchored =>
    refine { wellFormed with resources := wellFormed.resources.upsert ⟨anchored, by simp⟩ ?_ }
    rintro _ resources _ ⟨about, _⟩
    exact ⟨about, by simp⟩

/-- Whatever directives are replayed upon a new descriptor, built-in or custom, and
whether they succeed or fail, they leave it well-formed. -/
theorem replayed_well_formed (package : String) (descriptor : Descriptor)
    (replayed : ReflTransGen Replayed (.empty package) descriptor) : WellFormed package descriptor := by
  refine holds_of_replayed ?_ (WellFormed.empty package) replayed
  intro before after wellFormed write
  exact wellFormed.write write

/-- Provides a virtual package and itself, which is refused, extends a package all the
same, and fails. -/
def halfRefused : Directive :=
  .custom ⟨"setup", .ofList [.provided, .extendees, .dependencies]⟩ 0 <|
    .replay (.declared (.provides ⟨[.named "mpi", .named "app"], none⟩)) fun _ =>
      .replay (.declared (.extending ⟨.named "python", none, .all, .empty⟩)) fun _ =>
        .finish (.error (.selfReference (.provided "app")))

theorem halfRefused_leaves_well_formed :
    let (outcome, descriptor) := halfRefused.effect .standard (.empty "app")
    outcome.isOk = false ∧ descriptor.provided.size = 1 ∧ descriptor.extendees.size = 1 ∧
      WellFormed "app" descriptor := by
  have run : ReflTransGen Replayed (.empty "app") (halfRefused.effect .standard (.empty "app")).2 :=
    .single ⟨.standard, halfRefused, rfl⟩
  exact ⟨by decide +kernel, by decide +kernel, by decide +kernel, replayed_well_formed "app" _ run⟩

end PackageRecipes.Descriptor
