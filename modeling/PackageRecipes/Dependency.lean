import PackageRecipes.DependencyTypes
import PackageRecipes.Patch
import PackageRecipes.Spec.Narrowing

/-! Requirements of one package on another under one condition. -/

namespace PackageRecipes

/-- Patches in order of declaration under the conditions at which they apply. -/
abbrev PatchMap := OrderedMap Spec (List Patch)

structure Dependency where
  target : Spec
  types : DependencyTypes
  patches : PatchMap

namespace Dependency

def new (target : Spec) (types : DependencyTypes) : Dependency :=
  ⟨target, types, .empty⟩

def addPatch (dependency : Dependency) (condition : Spec) (patch : Patch) : Dependency :=
  { dependency with patches := dependency.patches.push condition patch }

/-- Takes another requirement into the one that is held: its target is narrowed, the types
are united, and the patches of the other come behind its own. -/
def absorb (other : Dependency) : Procedure Dependency Unit := do
  let target ← (← get).target.constrain other.target
  modify fun held => { held with target }
  modify fun held => { held with types := held.types.union other.types }
  modify fun held => { held with
    patches := other.patches.entries.foldl
      (fun patches (condition, more) =>
        patches.upsert condition fun existing => existing.getD [] ++ more)
      held.patches }

/-- Both requirements in one: the first with the second taken into it. -/
def merge (left right : Dependency) : Except Error Dependency :=
  match (absorb right).outcome left with
  | (.ok (), both) => .ok both
  | (.error error, _) => .error error

theorem merge_eq (left right : Dependency) :
    left.merge right = do
      let target ← left.target.constrain right.target
      return {
        target
        types := left.types.union right.types
        patches := right.patches.entries.foldl
          (fun patches (condition, more) =>
            patches.upsert condition fun existing => existing.getD [] ++ more)
          left.patches } := by
  rw [merge, absorb, Procedure.outcome_get_bind, Procedure.outcome_bind, Procedure.outcome_check]
  cases left.target.constrain right.target with
  | error error => rfl
  | ok target => rfl

/-- A requirement that cannot take in another stays as it is, as its target is narrowed
before anything is written. -/
theorem outcome_absorb (left right : Dependency) :
    (absorb right).outcome left =
      match left.merge right with
      | .ok both => (.ok (), both)
      | .error error => (.error error, left) := by
  rw [merge, absorb, Procedure.outcome_get_bind, Procedure.outcome_bind, Procedure.outcome_check]
  cases left.target.constrain right.target with
  | error error => rfl
  | ok target => rfl

end Dependency

end PackageRecipes
