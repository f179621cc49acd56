import PackageRecipes.Spec

/-! When one expression already meets every constraint of another. -/

namespace PackageRecipes

namespace CompilerSpec

def satisfies (left right : CompilerSpec) : Bool :=
  left.name == right.name && left.versions.within right.versions

end CompilerSpec

/-- A constraint that is not there is met by anything; one that is there only by a
counterpart that `meets` it. -/
def meetsOptional {α : Type} (meets : α → α → Bool) : Option α → Option α → Bool
  | _, none => true
  | some left, some right => meets left right
  | none, some _ => false

namespace Node

def satisfies (left right : Node) : Bool :=
  meetsOptional (· == ·) left.name right.name &&
  meetsOptional CompilerSpec.satisfies left.compiler right.compiler &&
  left.versions.within right.versions &&
  right.variants.entries.all fun (name, setting) => left.variants.find? name == some setting

end Node

namespace Spec

def satisfies (left right : Spec) : Bool :=
  left.node.satisfies right.node &&
  right.dependencies.entries.all fun (name, node) =>
    (left.dependencies.find? name).any (·.satisfies node)

end Spec

end PackageRecipes
