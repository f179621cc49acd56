import PackageRecipes.Spec.Item
import PackageRecipes.Spec.Narrowing

/-! Reading constraint expressions. The items of a node are taken in one by one, and
the first that does not fit is the fault; a clause that repeats a dependency
narrows the earlier one. -/

namespace PackageRecipes

namespace Node

structure Draft where
  node : Node
  hasVersions : Bool
  isFresh : Bool

namespace Draft

def fresh : Draft := ⟨.unconstrained, false, true⟩

def addItem (draft : Draft) : Item → Except SpecFault Draft
  | .versions list =>
    if draft.hasVersions then .error .versionsRepeated
    else do
      let versions ← list
      return ⟨{ draft.node with versions }, true, false⟩
  | .variant setting => do
    let (name, setting) ← setting
    if draft.node.variants.contains name then .error (.variantRepeated name)
    else return { draft with
      node := { draft.node with variants := draft.node.variants.insert name setting }
      isFresh := false }
  | .compiler constraint =>
    if draft.node.compiler.isSome then .error .compilerRepeated
    else do
      let compiler ← constraint
      return { draft with node := { draft.node with compiler := some compiler }, isFresh := false }
  | .word name =>
    if draft.isFresh then
      .ok { draft with node := { draft.node with name := some name }, isFresh := false }
    else .error (.nameUnexpected name)
  | .stray character => .error (.characterUnexpected character)

end Draft

def ofItems (items : List Item) : Except SpecFault Node :=
  (items.foldlM Draft.addItem Draft.fresh).map (·.node)

end Node

namespace Spec

def addClause (expression : String) (spec : Spec) (items : List Item) : Except Error Spec := do
  let node ← (Node.ofItems items).mapError (.spec expression)
  match node.name with
  | some name => spec.addDependency name node
  | none => .error (.spec expression .dependencyUnnamed)

/-- Reads an expression: the items of the package, then clauses on its dependencies. -/
def parse (expression : String) : Except Error Spec := do
  let (first, others) := Item.clauses (Item.scan expression.toList)
  let node ← (Node.ofItems first).mapError (.spec expression)
  others.foldlM (addClause expression) (ofNode node)

end Spec

end PackageRecipes
