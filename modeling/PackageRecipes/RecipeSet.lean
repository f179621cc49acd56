import PackageRecipes.LayerGraph
import PackageRecipes.Recipe.Validation

/-! Recipes that can be built together. They refer to their bases by name, so one
package is built by finishing all layers that it inherits from first. The files
of a directory are read in the order of their paths, compared part by part. -/

namespace PackageRecipes

/-- A recipe with the directory that its patch files lie in, if that is known. -/
structure PlacedRecipe where
  recipe : Recipe
  directory : Option Directory

/-- Recipes by their names, and the settings they are built under. -/
structure RecipeSet where
  recipes : OrderedMap String PlacedRecipe
  config : Config

abbrev FinishedLayers := OrderedMap String Layer

/-- How building one recipe of a set has ended. An abstract layer gives no package. -/
structure BuildReport where
  name : String
  isAbstract : Bool
  result : Except Error (Option Package)

namespace RecipeSet

def empty (config : Config) : RecipeSet := ⟨.empty, config⟩

/-- Adds a recipe under its name, which must be new to the set. -/
def insert (set : RecipeSet) (recipe : Recipe) (directory : Option Directory) :
    Except Error RecipeSet :=
  if set.recipes.contains recipe.name then .error (.recipe (.duplicate recipe.name))
  else .ok { set with recipes := set.recipes.insert recipe.name ⟨recipe, directory⟩ }

def get? (set : RecipeSet) (name : String) : Option Recipe :=
  (set.recipes.find? name).map (·.recipe)

def names (set : RecipeSet) : List String :=
  set.recipes.keys

def size (set : RecipeSet) : Nat :=
  set.recipes.size

/-- The first base of a recipe that the set does not hold. -/
def missingBase? (set : RecipeSet) (recipe : Recipe) : Option String :=
  recipe.bases.find? fun base => !set.recipes.contains base

def graph (set : RecipeSet) : Except Error LayerGraph :=
  set.recipes.entries.foldlM
    (fun graph (name, placed) =>
      match set.missingBase? placed.recipe with
      | some base => .error (.recipeMissing (.base base name))
      | none => .ok (graph.add name placed.recipe.bases))
    LayerGraph.empty

def inheritAll (finished : FinishedLayers) (bases : List String) (builder : Builder) :
    Except Error Builder :=
  bases.foldlM
    (fun builder base =>
      match finished.find? base with
      | some layer => .ok (builder.inherit layer)
      | none => .error (.recipeMissing (.base base builder.name)))
    builder

def declare (set : RecipeSet) (finished : FinishedLayers) (name : String) : Except Error Builder :=
  match set.recipes.find? name with
  | none => .error (.recipeMissing (.recipe name))
  | some placed => do
    let start := { Builder.new name set.config with directory := placed.directory }
    placed.recipe.declare (← inheritAll finished placed.recipe.bases start)

def finishNext (set : RecipeSet) (finished : FinishedLayers) (name : String) :
    Except Error FinishedLayers := do
  let builder ← set.declare finished name
  return finished.insert name builder.finish

/-- Builds the package `name` after all layers that it inherits from. -/
def build (set : RecipeSet) (name : String) : Except Error Package :=
  match set.get? name with
  | none => .error (.recipeMissing (.recipe name))
  | some recipe =>
    if recipe.isAbstract then .error (.recipe (.abstractLayer name))
    else do
      let graph ← set.graph
      let order ← graph.sorted
      let needed := order.filter (graph.ancestors name).contains
      let finished ← needed.foldlM set.finishNext OrderedMap.empty
      (← set.declare finished name).build

/-- Builds one recipe of the whole set. Its layer serves its heirs as soon as it is
declared, whatever becomes of its own package; one whose base has none is not
attempted. -/
def report (set : RecipeSet) (finished : FinishedLayers) (name : String) (recipe : Recipe) :
    BuildReport × FinishedLayers :=
  match recipe.bases.find? fun base => !finished.contains base with
  | some base => (⟨name, recipe.isAbstract, .error (.recipeMissing (.failedBase base name))⟩, finished)
  | none =>
    match set.declare finished name with
    | .error error => (⟨name, recipe.isAbstract, .error error⟩, finished)
    | .ok builder =>
      let result := if recipe.isAbstract then .ok none else builder.build.map some
      (⟨name, recipe.isAbstract, result⟩, finished.insert name builder.finish)

def reports (set : RecipeSet) : List String → FinishedLayers → List BuildReport
  | [], _ => []
  | name :: rest, finished =>
    match set.get? name with
    | none => reports set rest finished
    | some recipe =>
      let (report, finished) := set.report finished name recipe
      report :: reports set rest finished

/-- Builds every recipe, each with a report of its own, bases first. -/
def buildEach (set : RecipeSet) : Except Error (List BuildReport) := do
  let order ← (← set.graph).sorted
  return set.reports order .empty

/-- Builds every package; the first that fails is the error. -/
def buildAll (set : RecipeSet) : Except Error (List Package) := do
  let reports ← set.buildEach
  let built ← reports.mapM (·.result)
  return built.filterMap id

def addFile (set : RecipeSet) (found : FoundFile) : Except Error RecipeSet := do
  let (recipe, _) ← readRecipe found
  set.insert recipe (some (.ofFile found.1))

def load (files : Files) (path : String) (config : Config) : Except Error RecipeSet :=
  match files path with
  | .ok (.directory entries) =>
    (recipeFiles path (.directory entries)).foldlM addFile (empty config)
  | _ => .error (.recipeMissing (.directory path))

end RecipeSet

end PackageRecipes
