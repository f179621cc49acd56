import PackageRecipes.Spec

/-! Expressions and their parts compare as equal exactly when `==` holds of them. Maps
look keys up by comparison while directives are told apart by `==`, so the two
notions have to be one. With the order being transitive, `==` is an equivalence. -/

namespace PackageRecipes
open Std

theorem Version.beq_eq (left right : Version) : (left == right) = (left.segments == right.segments) :=
  rfl

theorem VersionRange.beq_eq (left right : VersionRange) :
    (left == right) = (left.lower == right.lower && left.upper == right.upper) := by
  cases left; cases right; rfl

theorem VersionList.beq_eq (left right : VersionList) : (left == right) = (left.ranges == right.ranges) := by
  cases left; cases right; rfl

theorem CompilerSpec.beq_eq (left right : CompilerSpec) :
    (left == right) = (left.name == right.name && left.versions == right.versions) := by
  cases left; cases right; rfl

theorem Node.beq_eq (left right : Node) :
    (left == right) = (left.name == right.name && (left.versions == right.versions &&
      (left.variants == right.variants && left.compiler == right.compiler))) := by
  cases left; cases right; rfl

theorem Spec.beq_eq (left right : Spec) :
    (left == right) = (left.node == right.node && left.dependencies == right.dependencies) := by
  cases left; cases right; rfl

instance : LawfulBEq VariantSetting where
  eq_of_beq {left right} same := by
    cases left with
    | enabled on =>
      cases right with
      | enabled other => exact congrArg _ (eq_of_beq (show (on == other) = true from same))
      | values => cases same
    | values list =>
      cases right with
      | enabled => cases same
      | values other => exact congrArg _ (eq_of_beq (show (list == other) = true from same))
  rfl {setting} := by
    cases setting with
    | enabled on => exact BEq.refl on
    | values list => exact BEq.refl list

/-- Comparing by one part and then by others finds equal what is equal in each. -/
private theorem compareOn_then_eq {α β : Type} [Ord β] (part : α → β) (others : α → α → Ordering)
    {left right : α} :
    compareLex (compareOn part) others left right = .eq ↔
      compare (part left) (part right) = .eq ∧ others left right = .eq :=
  compareLex_eq_eq

instance : LawfulBEqOrd Version where
  compare_eq_iff_beq {left right} :=
    compare_eq_iff_beq (a := left.segments) (b := right.segments)

instance : LawfulBEqOrd VersionRange where
  compare_eq_iff_beq {left right} := by
    rw [VersionRange.beq_eq, Bool.and_eq_true, ← compare_eq_iff_beq, ← compare_eq_iff_beq]
    exact compareOn_then_eq VersionRange.lower _

instance : LawfulBEqOrd VersionList where
  compare_eq_iff_beq {left right} := by
    rw [VersionList.beq_eq]
    exact compare_eq_iff_beq (a := left.ranges) (b := right.ranges)

instance : LawfulEqOrd VariantSetting where
  eq_of_compare {left right} same := by
    cases left with
    | enabled on =>
      cases right with
      | enabled other => exact congrArg _ (LawfulEqOrd.eq_of_compare (α := Bool) same)
      | values => cases same
    | values list =>
      cases right with
      | enabled => cases same
      | values other => exact congrArg _ (LawfulEqOrd.eq_of_compare (α := List String) same)

instance : LawfulBEqOrd CompilerSpec where
  compare_eq_iff_beq {left right} := by
    rw [CompilerSpec.beq_eq, Bool.and_eq_true, ← compare_eq_iff_beq, ← compare_eq_iff_beq]
    exact compareOn_then_eq CompilerSpec.name _

instance {κ α : Type} [Ord κ] [BEq κ] [Ord α] [BEq α] [LawfulBEqOrd κ] [LawfulBEqOrd α] :
    LawfulBEqOrd (OrderedMap κ α) where
  compare_eq_iff_beq {left right} := by
    have entry : LawfulBEqCmp (compareLex (compareOn (Prod.fst : κ × α → κ)) (compareOn Prod.snd)) :=
      ⟨fun {first second} => by
        refine (compareOn_then_eq Prod.fst _).trans ?_
        exact (and_congr compare_eq_iff_beq compare_eq_iff_beq).trans (Bool.and_eq_true _ _ ▸ Iff.rfl)⟩
    exact (inferInstance : LawfulBEqCmp (List.compareLex
      (compareLex (compareOn (Prod.fst : κ × α → κ)) (compareOn Prod.snd)))).compare_eq_iff_beq

instance : LawfulBEqOrd Node where
  compare_eq_iff_beq {left right} := by
    rw [Node.beq_eq, Bool.and_eq_true, Bool.and_eq_true, Bool.and_eq_true]
    rw [← compare_eq_iff_beq, ← compare_eq_iff_beq, ← compare_eq_iff_beq, ← compare_eq_iff_beq]
    refine (compareOn_then_eq Node.name _).trans (and_congr_right fun _ => ?_)
    refine (compareOn_then_eq Node.versions _).trans (and_congr_right fun _ => ?_)
    exact compareOn_then_eq Node.variants _

instance : LawfulBEqOrd Spec where
  compare_eq_iff_beq {left right} := by
    rw [Spec.beq_eq, Bool.and_eq_true, ← compare_eq_iff_beq, ← compare_eq_iff_beq]
    exact compareOn_then_eq Spec.node _

end PackageRecipes
