import PackageRecipes.Spec

/-! Narrowing: the constraints of two expressions put together, or the first reason
why no configuration meets both. -/

namespace PackageRecipes

namespace CompilerSpec

def narrow (left right : CompilerSpec) : Except Clash CompilerSpec :=
  if left.name != right.name then .error (.compilers left.name right.name)
  else match left.versions.intersect right.versions with
    | some versions => .ok { left with versions }
    | none => .error (.compilerVersions left.versions.text right.versions.text)

end CompilerSpec

namespace Node

def narrowName : Option String → Option String → Except Clash (Option String)
  | some left, some right =>
    if left != right then .error (.names left right) else .ok (some left)
  | some left, none => .ok (some left)
  | none, right => .ok right

/-- Adds one variant setting; the same setting twice is no clash. -/
def narrowVariant (variants : OrderedMap String VariantSetting) (name : String)
    (setting : VariantSetting) : Except Clash (OrderedMap String VariantSetting) :=
  match variants.find? name with
  | some existing => if existing == setting then .ok variants else .error (.variant name)
  | none => .ok (variants.insert name setting)

def narrowCompiler : Option CompilerSpec → Option CompilerSpec →
    Except Clash (Option CompilerSpec)
  | some left, some right => (left.narrow right).map some
  | some left, none => .ok (some left)
  | none, right => .ok right

/-- The constraints of both nodes: first the names are compared, then versions,
variants and compilers. -/
def narrow (left right : Node) : Except Clash Node := do
  let name ← narrowName left.name right.name
  let versions ← match left.versions.intersect right.versions with
    | some versions => .ok versions
    | none => .error (.versions left.versions.text right.versions.text)
  let variants ← right.variants.entries.foldlM
    (fun variants (name, setting) => narrowVariant variants name setting) left.variants
  let compiler ← narrowCompiler left.compiler right.compiler
  return ⟨name, versions, variants, compiler⟩

end Node

namespace Spec

/-- Adds the constraints on one dependency to those already there under its name. -/
def narrowDependency (dependencies : OrderedMap String Node) (name : String) (node : Node) :
    Except Clash (OrderedMap String Node) :=
  match dependencies.find? name with
  | some existing => (existing.narrow node).map (dependencies.insert name)
  | none => .ok (dependencies.insert name node)

def narrow (left right : Spec) : Except Clash Spec := do
  let node ← left.node.narrow right.node
  let dependencies ← right.dependencies.entries.foldlM
    (fun dependencies (name, dependency) => narrowDependency dependencies name dependency)
    left.dependencies
  return ⟨node, dependencies⟩

/-- The conjunction of two expressions. A clash is reported with both texts. -/
def constrain (left right : Spec) : Except Error Spec :=
  (left.narrow right).mapError (.incompatible left.text right.text)

/-- Some configuration satisfies both expressions. -/
def intersects (left right : Spec) : Bool :=
  (left.narrow right).isOk

/-- Adds a clause on the dependency `name`. A clash with a clause already there is
reported with the texts of the two clauses. -/
def addDependency (spec : Spec) (name : String) (node : Node) : Except Error Spec :=
  match spec.dependencies.find? name with
  | some existing =>
    match existing.narrow node with
    | .ok narrowed => .ok { spec with dependencies := spec.dependencies.insert name narrowed }
    | .error clash => .error (.incompatible existing.text node.text clash)
  | none => .ok { spec with dependencies := spec.dependencies.insert name node }

end Spec

end PackageRecipes
