import PackageRecipes.Dependency
import PackageRecipes.Proofs.MergeDisciplines
import PackageRecipes.Proofs.SpecMerge

/-! Requirements are merged in any order to the same requirement, but for the order of
patches. Requirements that are declared alike are alike as well. -/

namespace PackageRecipes
open Std

section Parts

variable {κ α : Type}

theorem appendMerge : CommutativeMerge (α := List α) List.Perm (fun _ => True) fun left right => some (left ++ right) where
  same := ⟨.refl, .symm, .trans⟩
  closed _ _ _ := trivial
  congr := by
    rintro _ _ first second _ _ _ _ _ likeLeft likeRight ⟨⟩
    exact ⟨first ++ second, rfl, likeLeft.append likeRight⟩
  comm := by
    rintro left right _ _ _ ⟨⟩
    exact ⟨right ++ left, rfl, List.perm_append_comm⟩
  assoc := by
    rintro first second third _ _ _ _ _ ⟨⟩ ⟨⟩
    exact ⟨second ++ third, first ++ (second ++ third), rfl, rfl, .of_eq (List.append_assoc first second third)⟩

theorem unionMerge : CommutativeMerge (· = ·) (fun _ => True) fun left right => some (DependencyTypes.union left right) where
  same := ⟨Eq.refl, Eq.symm, Eq.trans⟩
  closed _ _ _ := trivial
  congr := by
    rintro _ _ first second _ _ _ _ _ rfl rfl ⟨⟩
    exact ⟨_, rfl, rfl⟩
  comm := by
    rintro left right _ _ _ ⟨⟩
    exact ⟨_, rfl, by simp only [DependencyTypes.union, Bool.or_comm]⟩
  assoc := by
    rintro first second third _ _ _ _ _ ⟨⟩ ⟨⟩
    exact ⟨_, _, rfl, rfl, by simp only [DependencyTypes.union, Bool.or_assoc]⟩

private theorem mergesEntries_append [Ord κ] [TransOrd κ] :
    MergesEntries (fun left right : List α => some (left ++ right)) fun left right : OrderedMap κ (List α) =>
      some (right.entries.foldl (fun map (key, more) => map.upsert key fun existing => existing.getD [] ++ more) left) where
  found := by
    rintro left right _ ⟨⟩ key
    rw [find?_appendEntries right.increasing, OrderedMap.find?, OrderedMap.find?]
    cases OrderedMap.lookup? key left.entries <;> cases OrderedMap.lookup? key right.entries <;> rfl
  succeeds _ := ⟨_, rfl⟩

end Parts

namespace Dependency

/-- The same requirement, with the patches under each condition in any order. -/
structure Alike (left right : Dependency) : Prop where
  target : (left.target == right.target) = true
  types : left.types = right.types
  patches : AlikeEntries List.Perm left.patches right.patches

theorem alike_iff {left right : Dependency} :
    left.Alike right ↔ (left.target == right.target) = true ∧ left.types = right.types ∧
      AlikeEntries List.Perm left.patches right.patches :=
  ⟨fun alike => ⟨alike.target, alike.types, alike.patches⟩, fun all => ⟨all.1, all.2.1, all.2.2⟩⟩

theorem merge_eq_ok_iff {left right both : Dependency} :
    left.merge right = .ok both ↔
      left.target.narrow right.target = .ok both.target ∧ left.types.union right.types = both.types ∧
        right.patches.entries.foldl
          (fun patches (condition, more) => patches.upsert condition fun existing => existing.getD [] ++ more)
          left.patches = both.patches := by
  rw [merge_eq, bind_eq_ok]
  constructor
  · rintro ⟨target, narrowed, same⟩
    cases same
    exact ⟨Spec.constrain_eq_ok_iff.mp narrowed, rfl, rfl⟩
  · rintro ⟨narrowed, types, patches⟩
    refine ⟨both.target, Spec.constrain_eq_ok_iff.mpr narrowed, ?_⟩
    rw [types, patches]
    rfl

/-- Merging requirements is commutative and associative up to the order of patches. -/
theorem dependencyMerge : CommutativeMerge Alike (fun dependency => dependency.target.Normal)
    fun left right => (merge left right).toOption := by
  have patches := appendMerge.entries (mergesEntries_append (κ := Spec) (α := Patch))
  have parts := Spec.specMerge.prod (unionMerge.prod patches)
  have laws := parts.ofParts (fun left right => (merge left right).toOption)
    (fun dependency : Dependency => (dependency.target, dependency.types, dependency.patches))
    (fun value => ⟨⟨value.1, value.2.1, value.2.2⟩, rfl⟩) (by
      intro left right both
      rw [toOption_eq_some, merge_eq_ok_iff, pair_eq_some_iff, pair_eq_some_iff, toOption_eq_some, Option.some.injEq,
        Option.some.injEq])
  simpa only [implies_true, and_true, ← alike_iff] using laws

end Dependency

end PackageRecipes
