import PackageRecipes.Directive

/-! Declaring a layer. A builder reads the arguments of each directive as it is
declared and records it; a directive under a condition that never holds is not
recorded at all. -/

namespace PackageRecipes

/-- What a finished layer leaves to its heirs. Its actions include all that it has
inherited itself. -/
structure Layer where
  name : String
  bases : List String
  actions : List Directive

structure Package where
  layer : Layer
  descriptor : Descriptor

/-- The directives with the first occurrence of each only. -/
def keepFirst (directives : List Directive) : List Directive :=
  directives.foldl
    (fun kept directive => if kept.any (· == directive) then kept else kept ++ [directive]) []

namespace Layer

/-- Replays actions one after the other, up to the first failure. It is attributed
to the package unless it already names one. -/
def replay (config : Config) (package : String) : List Directive → Effect
  | [], descriptor => (.ok (), descriptor)
  | action :: rest, descriptor =>
    match action.effect config descriptor with
    | (.ok (), written) => replay config package rest written
    | (.error error, written) => (.error (error.inDirective package action.name), written)

def build (layer : Layer) (config : Config) : Except Error Package :=
  match replay config layer.name layer.actions (.empty layer.name) with
  | (.ok (), descriptor) => .ok ⟨layer, descriptor⟩
  | (.error error, _) => .error error

end Layer

structure Builder where
  name : String
  bases : List Layer
  pending : List Directive
  config : Config
  directory : Option Directory

structure PatchArguments where
  locator : String
  level : Nat
  when : Condition
  details : PatchDetails

structure DependencyArguments where
  target : String
  when : Condition
  types : Option TypeRequest
  patches : List PatchArguments

structure VariantArguments where
  name : String
  default : Option VariantValue
  description : String
  domain : Option VariantDomain
  multi : Bool
  check : Option GroupCheck

structure ResourceArguments where
  name : Option String
  when : Condition
  destination : String
  placement : Option String
  fetch : FetchArguments

namespace Builder

def new (name : String) (config : Config) : Builder :=
  ⟨name, [], [], config, none⟩

def inherit (builder : Builder) (layer : Layer) : Builder :=
  { builder with bases := builder.bases ++ [layer] }

def record (builder : Builder) (directive : Directive) : Builder :=
  { builder with pending := builder.pending ++ [directive] }

/-- Records what a declaration reads as. A fault in it is attributed to the directive
of that kind in this package. -/
def declare (builder : Builder) (kind : DirectiveKind) (read : Except Error Declaration) :
    Except Error Builder :=
  match read with
  | .ok declaration => .ok (builder.record (.declared declaration))
  | .error error => .error (error.inDirective builder.name kind.name)

def declareWhen (builder : Builder) (condition : Condition) (kind : DirectiveKind)
    (read : Except Error Declaration) : Except Error Builder :=
  if condition.isNever then .ok builder else builder.declare kind read

def readTarget (expression : String) : Except Error Spec := do
  let spec ← Spec.parse expression
  if spec.name.isSome then return spec
  else throw (.spec expression .packageNameExpected)

def readTypes (builder : Builder) : Option TypeRequest → Except Error DependencyTypes
  | none => builder.config.defaultDependencyTypes
  | some request => request.canonical

def readPatch (builder : Builder) (arguments : PatchArguments) : Except Error DependencyPatch := do
  let when ← arguments.when.parse
  return ⟨arguments.locator, arguments.level, when, arguments.details, builder.directory⟩

def version (builder : Builder) (text : String) (checksum : Option String)
    (metadata : Metadata) : Except Error Builder :=
  builder.declare .version do
    let version ← Version.parse text
    return .version ⟨version, checksum, metadata⟩

def dependsOn (builder : Builder) (arguments : DependencyArguments) : Except Error Builder :=
  builder.declareWhen arguments.when .dependsOn do
    let target ← readTarget arguments.target
    let when ← arguments.when.parse
    let types ← builder.readTypes arguments.types
    let patches ← (arguments.patches.filter fun patch => !patch.when.isNever).mapM builder.readPatch
    return .dependsOn ⟨target, when, types, patches⟩

/-- Extends a package. The dependency this makes has the default types. -/
def extending (builder : Builder) (target : String) (condition : Condition)
    (options : Metadata) : Except Error Builder :=
  builder.declareWhen condition .extending do
    let target ← readTarget target
    let when ← condition.parse
    let types ← builder.readTypes none
    return .extending ⟨target, when, types, options⟩

/-- Declares a conflict. The conflicting expression need not name a package. -/
def conflicts (builder : Builder) (expression : String) (condition : Condition)
    (message : Option String) : Except Error Builder :=
  builder.declareWhen condition .conflicts do
    let conflict ← Spec.parse expression
    let when ← condition.parse
    return .conflicts ⟨conflict, when, message⟩

def provides (builder : Builder) (virtuals : List String) (condition : Condition) :
    Except Error Builder :=
  builder.declareWhen condition .provides do
    let virtuals ← virtuals.mapM readTarget
    let when ← condition.parse
    return .provides ⟨virtuals, when⟩

def patch (builder : Builder) (arguments : PatchArguments) : Except Error Builder :=
  builder.declareWhen arguments.when .patch do
    let when ← arguments.when.parse
    return .patch ⟨arguments.locator, arguments.level, when, arguments.details, builder.directory⟩

/-- Declares a variant. Domain and default, where not given, follow from each other. -/
def variant (builder : Builder) (arguments : VariantArguments) : Except Error Builder :=
  builder.declare .variant <|
    if builder.config.isReserved arguments.name then
      .error (.variantName (.reserved arguments.name))
    else
      let domain := arguments.domain.getD (.infer arguments.default)
      .ok <| .variant {
        name := arguments.name
        default := arguments.default.getD domain.impliedDefault
        description := arguments.description
        domain
        multi := arguments.multi
        check := arguments.check }

def resource (builder : Builder) (arguments : ResourceArguments) : Except Error Builder :=
  builder.declareWhen arguments.when .resource do
    Resource.checkDestination arguments.destination builder.config.stageRoot
    let when ← arguments.when.parse
    return .resource
      ⟨arguments.name, when, arguments.destination, arguments.placement, arguments.fetch⟩

/-- The finished layer: the actions of the bases, the last base first, then the
builder's own, each at its first occurrence. -/
def finish (builder : Builder) : Layer where
  name := builder.name
  bases := builder.bases.map (·.name)
  actions := keepFirst (builder.bases.reverse.flatMap (·.actions) ++ builder.pending)

def build (builder : Builder) : Except Error Package :=
  builder.finish.build builder.config

end Builder

end PackageRecipes
