import PackageRecipes.CommandLine.Command
import PackageRecipes.Config.Format
import PackageRecipes.Descriptor.Document
import PackageRecipes.Descriptor.Listing
import PackageRecipes.RecipeSet
import PackageRecipes.Text

/-! What the commands print, and how they fail. -/

namespace PackageRecipes.CommandLine

inductive Failure where
  | cause (error : Error)
  | settings (path : String) (error : Error)
  | standardSettings (error : Error)
  | recipes (count : Nat)

/-- What a command has printed, up to its failure if there is one: warnings first, then
the lines of its answer. Both may have line breaks in them. -/
structure Outcome where
  warnings : List String
  lines : List String
  failure : Option Failure

def standardFile : String := "pkgmeta.toml"

/-- The messages of an error and of what it is about, the outermost first. -/
def causes : Error → List String
  | .directive package name source => (Error.directive package name source).message :: causes source
  | .file reason => [(Error.file reason).message, reason]
  | other => [other.message]

namespace Failure

def messages : Failure → List String
  | cause error => causes error
  | settings path error => s!"Failed to load configuration from {path}" :: causes error
  | standardSettings error => s!"Failed to load {standardFile}" :: causes error
  | recipes count => [s!"{count} recipe(s) failed to build"]

end Failure

namespace Outcome

def ofLines : Except Error (List String) → Outcome
  | .ok lines => ⟨[], lines, none⟩
  | .error error => ⟨[], [], some (.cause error)⟩

def andThen (first second : Outcome) : Outcome :=
  match first.failure with
  | some _ => first
  | none => ⟨first.warnings ++ second.warnings, first.lines ++ second.lines, second.failure⟩

def warningMark : String := "warning: "

/-- The lines as a reader of the output sees them. The warnings in front come in the
order of their texts, as no order of the files is promised. -/
def shown (outcome : Outcome) : List String :=
  let isWarning := fun line : String => line.startsWith warningMark
  let warnings := outcome.warnings.flatMap Text.lines
  let sorted := (warnings.takeWhile isWarning).mergeSort fun left right => (compare left right).isLE
  sorted ++ warnings.dropWhile isWarning ++ outcome.lines.flatMap Text.lines

end Outcome

def readConfig (files : Files) (path : String) : Except Error Config :=
  match files.read path with
  | .ok text => Config.ofText text
  | .error fault => .error (.config (.unreadable path fault.message))

/-- The settings: those of the named file, which has to exist, or those of the
standard file if there is one. -/
def loadConfig (files : Files) : Option String → Except Failure Config
  | some path => (readConfig files path).mapError (.settings path)
  | none =>
    match files standardFile with
    | .ok _ => (readConfig files standardFile).mapError .standardSettings
    | .error _ => .ok .standard

def describe (set : RecipeSet) (package : String) (asJson : Bool) : Except Error (List String) := do
  let built ← set.build package
  return if asJson then built.descriptor.document.lines else built.descriptor.listing

def warnAll : List FoundFile → Outcome
  | [] => ⟨[], [], none⟩
  | found :: rest =>
    match readRecipe found with
    | .error error => ⟨[], [], some (.cause error)⟩
    | .ok (_, warnings) =>
      let lines := warnings.map fun warning =>
        s!"{Outcome.warningMark}{found.1}: {warning.message}"
      Outcome.andThen ⟨lines, [], none⟩ (warnAll rest)

def warnings (files : Files) (path : String) : Outcome :=
  match files path with
  | .error _ => ⟨[], [], none⟩
  | .ok tree => warnAll (recipeFiles path tree)

def reportLine (report : BuildReport) : String :=
  match report.result with
  | .ok (some _) => s!"ok      {report.name}"
  | .ok none => s!"layer   {report.name}"
  | .error error => s!"FAILED  {report.name}: {error.message}"

def checkReports (reports : List BuildReport) : Outcome :=
  let failed := (reports.filter fun report => !report.result.isOk).length
  let built := (reports.filter fun report => report.result.toOption.join.isSome).length
  ⟨[], reports.map reportLine ++ ["", s!"{built} package(s) built, {failed} failed"],
    if failed > 0 then some (.recipes failed) else none⟩

def checkSet (set : Except Error RecipeSet) : Outcome :=
  match set.bind (·.buildEach) with
  | .ok reports => checkReports reports
  | .error error => ⟨[], [], some (.cause error)⟩

/-- A recipe in the list of layers: its name, its kind and its bases. -/
def layerLine (recipe : Recipe) : String :=
  let kind := if recipe.isAbstract then "abstract" else "package"
  let bases := if recipe.bases.isEmpty then "" else " <- " ++ ", ".intercalate recipe.bases
  s!"{column 24 recipe.name} {kind}{bases}"

/-- The recipes of a set in the order in which their layers are finished. -/
def layerLines (set : RecipeSet) : Except Error (List String) := do
  let order ← (← set.graph).sorted
  return (order.filterMap set.get?).map layerLine

/-- The types that names stand for. One name alone may be the word for all types, and
no name means the types of a dependency that has none. -/
def canonicalTypes (config : Config) : List String → Except Error DependencyTypes
  | [] => config.defaultDependencyTypes
  | [name] => (TypeRequest.one name).canonical
  | names => (TypeRequest.many names).canonical

def Command.run (files : Files) (config : Config) : Command → Outcome
  | .describe directory package asJson =>
    .ofLines ((RecipeSet.load files directory config).bind fun set => CommandLine.describe set package asJson)
  | .check directory withWarnings =>
    let result := checkSet (RecipeSet.load files directory config)
    if withWarnings then (warnings files directory).andThen result else result
  | .layers directory => .ofLines ((RecipeSet.load files directory config).bind layerLines)
  | .types names => .ofLines ((canonicalTypes config names).map fun types => [types.text])
  | .spec expression owner =>
    let read := match owner with
      | some owner => Spec.anonymous expression owner
      | none => Spec.parse expression
    .ofLines (read.map fun spec => [spec.text])

def Invocation.run (files : Files) (invocation : Invocation) : Outcome :=
  match loadConfig files invocation.config with
  | .error failure => ⟨[], [], some failure⟩
  | .ok config =>
    match invocation.command with
    | some command => command.run files config
    | none => ⟨[], [], none⟩

end PackageRecipes.CommandLine
