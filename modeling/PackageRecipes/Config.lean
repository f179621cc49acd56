import PackageRecipes.DependencyTypes
import PackageRecipes.Path
import PackageRecipes.Text

/-! The settings under which directives are declared and replayed. -/

namespace PackageRecipes

inductive ExtendsPolicy where
  | reject
  | ignore
  deriving DecidableEq

structure Config where
  reservedVariants : List String
  stageRoot : String
  extendsPolicy : ExtendsPolicy
  defaultTypes : List String
  deriving DecidableEq

namespace Config

def standard : Config where
  reservedVariants := ["patches"]
  stageRoot := "stage_folder_root"
  extendsPolicy := .reject
  defaultTypes := DependencyTypes.standard.map (·.name)

def defaultDependencyTypes (config : Config) : Except Error DependencyTypes :=
  match (TypeRequest.many config.defaultTypes).canonical with
  | .error (.dependencyType name) => .error (.config (.typeUnknown name))
  | result => result

def isReserved (config : Config) (variant : String) : Bool :=
  config.reservedVariants.contains variant

/-- Refuses settings under which no package could be built as meant. -/
def validate (config : Config) : Except Error Unit := do
  if Text.isBlankText config.stageRoot then throw (.config .stageRootEmpty)
  if Path.isAbsolute config.stageRoot then throw (.config .stageRootAbsolute)
  let types ← config.defaultDependencyTypes
  if types.isEmpty then throw (.config .typesEmpty)

end Config

end PackageRecipes
