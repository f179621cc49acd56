import PackageRecipes.Builder

/-! Recipes: what a recipe file says of one layer, in the order in which it is
declared. -/

namespace PackageRecipes

structure VersionArguments where
  version : String
  checksum : Option String
  metadata : Metadata

structure ExtensionArguments where
  target : String
  when : Condition
  options : Metadata

structure ConflictArguments where
  expression : String
  when : Condition
  message : Option String

structure ProvisionArguments where
  virtuals : List String
  when : Condition

structure Recipe where
  name : String
  isAbstract : Bool
  bases : List String
  description : Option String
  homepage : Option String
  versions : List VersionArguments
  dependencies : List DependencyArguments
  extensions : List ExtensionArguments
  conflicts : List ConflictArguments
  provisions : List ProvisionArguments
  patches : List PatchArguments
  variants : List VariantArguments
  resources : List ResourceArguments

inductive Entry where
  | version (arguments : VersionArguments)
  | variant (arguments : VariantArguments)
  | dependsOn (arguments : DependencyArguments)
  | extending (arguments : ExtensionArguments)
  | provides (arguments : ProvisionArguments)
  | conflicts (arguments : ConflictArguments)
  | patch (arguments : PatchArguments)
  | resource (arguments : ResourceArguments)

namespace Entry

def declare (builder : Builder) : Entry → Except Error Builder
  | version arguments => builder.version arguments.version arguments.checksum arguments.metadata
  | variant arguments => builder.variant arguments
  | dependsOn arguments => builder.dependsOn arguments
  | extending arguments => builder.extending arguments.target arguments.when arguments.options
  | provides arguments => builder.provides arguments.virtuals arguments.when
  | conflicts arguments => builder.conflicts arguments.expression arguments.when arguments.message
  | patch arguments => builder.patch arguments
  | resource arguments => builder.resource arguments

end Entry

namespace Recipe

/-- The declarations kind by kind, each kind in the order of the file. -/
def entries (recipe : Recipe) : List Entry :=
  recipe.versions.map .version ++ recipe.variants.map .variant ++
  recipe.dependencies.map .dependsOn ++ recipe.extensions.map .extending ++
  recipe.provisions.map .provides ++ recipe.conflicts.map .conflicts ++
  recipe.patches.map .patch ++ recipe.resources.map .resource

def size (recipe : Recipe) : Nat :=
  recipe.entries.length

def declareEntries : List Entry → Builder → Except Error Unit × Builder
  | [], builder => (.ok (), builder)
  | entry :: rest, builder =>
    match entry.declare builder with
    | .ok declared => declareEntries rest declared
    | .error error => (.error error, builder)

def declare (recipe : Recipe) (builder : Builder) : Except Error Builder :=
  match declareEntries recipe.entries builder with
  | (.ok (), declared) => .ok declared
  | (.error error, _) => .error error

/-- The patches of the package, then those of its dependencies. -/
def allPatches (recipe : Recipe) : List PatchArguments :=
  recipe.patches ++ recipe.dependencies.flatMap (·.patches)

end Recipe

end PackageRecipes
