import PackageRecipes.FileTree
import PackageRecipes.Recipe.Format

/-! What is wrong with a recipe as such, and what is merely suspicious about it. Recipe
files, which are the TOML files at any depth of a directory, are checked as they are read. -/

namespace PackageRecipes

inductive Warning where
  | noVersions
  | noDescription
  | unpinnedPatch (locator : String)
  deriving DecidableEq

namespace Warning

def message : Warning → String
  | noVersions => "Concrete package declares no versions"
  | noDescription => "Missing package description"
  | unpinnedPatch locator => s!"Remote patch {locator} has no sha256"

end Warning

namespace Recipe

/-- Refuses a recipe that is its own base or lists a base twice; the first such base
is the fault. -/
def checkBases (name : String) : List String → List String → Except Error Unit
  | [], _ => .ok ()
  | base :: rest, seen =>
    if base == name then .error (.inheritance (.ownBase name))
    else if seen.contains base then .error (.recipe (.baseRepeated name base))
    else checkBases name rest (base :: seen)

def warnings (recipe : Recipe) : List Warning :=
  (if !recipe.isAbstract && recipe.versions.isEmpty then [.noVersions] else []) ++
  (if recipe.description.isNone then [.noDescription] else []) ++
  (recipe.allPatches.filter fun patch =>
    isRemoteLocator patch.locator && patch.details.sha256.isNone).map fun patch =>
      .unpinnedPatch patch.locator

def validate (recipe : Recipe) : Except Error (List Warning) :=
  if recipe.name.isEmpty then .error (.recipe .nameEmpty)
  else if !isIdentifier recipe.name then .error (.recipe (.nameInvalid recipe.name))
  else (checkBases recipe.name recipe.bases []).map fun _ => recipe.warnings

end Recipe

/-- A file found in a directory: its path, and its text or why it has none. -/
abbrev FoundFile := String × Except String String

def recipeFiles (path : String) (tree : FileTree) : List FoundFile :=
  (tree.files path).filter fun (path, _) => Path.extension? path == some "toml".toList

def readRecipe (found : FoundFile) : Except Error (Recipe × List Warning) := do
  let (path, content) := found
  match content with
  | .error reason => throw (.file reason)
  | .ok text =>
    match Recipe.ofText text with
    | .error _ => throw (.recipe (.malformedFile path))
    | .ok recipe => return (recipe, ← recipe.validate)

end PackageRecipes
