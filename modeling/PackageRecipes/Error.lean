import PackageRecipes.Text.Quoted

/-! Everything that can go wrong while recipes are read, declared and replayed.
An error is its cause; the wording is in `Error.message` alone. What can go wrong
between one write and the next is a procedure. -/

namespace PackageRecipes

inductive NameRole where
  | variant
  | compiler
  deriving DecidableEq

/-- Why a text is no constraint expression, or not one that fits its place. -/
inductive SpecFault where
  | nameExpected (role : NameRole)
  | versionsExpected
  | versionListInvalid (text : String)
  | versionsRepeated
  | compilerRepeated
  | variantRepeated (name : String)
  | valueMissing (variant : String)
  | nameUnexpected (word : String)
  | characterUnexpected (character : Char)
  | dependencyUnnamed
  | targetUnnamed
  | packageNameExpected
  deriving DecidableEq

/-- Why no configuration satisfies two constraint expressions. -/
inductive Clash where
  | names (left right : String)
  | versions (left right : String)
  | variant (name : String)
  | compilers (left right : String)
  | compilerVersions (left right : String)
  deriving DecidableEq

inductive UrlFault where
  | relative
  | hostEmpty
  | portInvalid
  | ipv4Invalid
  | ipv6Invalid
  | hostNameInvalid
  | hostCharacterInvalid
  deriving DecidableEq

inductive PatchFault where
  | url (fault : UrlFault)
  | archiveChecksumMissing
  | locatorEmpty
  | pathAbsolute
  | archiveChecksumOnFile
  deriving DecidableEq

inductive FetchFault where
  | sourceMissing
  | locationInvalid (location : String) (fault : UrlFault)
  deriving DecidableEq

inductive FetchConflict where
  | sources (keys : List String)
  | checksums
  | references
  deriving DecidableEq

inductive DestinationFault where
  | absolute
  | escaping
  deriving DecidableEq

inductive SelfReference where
  | dependency (package : String)
  | provided (package : String)
  deriving DecidableEq

inductive VariantNameFault where
  | notIdentifier (name : String)
  | reserved (name : String)
  deriving DecidableEq

inductive DirectiveFault where
  | fieldUndeclared (directive field needed : String)
  | nameInvalid (name : String)
  | nameTaken (name : String)
  | fieldsMissing
  | fieldUnknown (name : String)
  deriving DecidableEq

inductive RecipeFault where
  | malformed
  | malformedFile (path : String)
  | nameEmpty
  | nameInvalid (name : String)
  | baseRepeated (recipe base : String)
  | duplicate (name : String)
  | abstractLayer (name : String)
  deriving DecidableEq

inductive MissingRecipe where
  | recipe (name : String)
  | base (name heir : String)
  | failedBase (name heir : String)
  | directory (path : String)
  deriving DecidableEq

inductive InheritanceFault where
  | ownBase (name : String)
  | cycle (layers : List String)
  deriving DecidableEq

inductive ConfigFault where
  | malformed
  | stageRootEmpty
  | stageRootAbsolute
  | typesEmpty
  | typeUnknown (name : String)
  | unreadable (path reason : String)
  deriving DecidableEq

/-- The errors of the library. A `directive` error names the package and the
directive at whose declaration or replay its cause arose. -/
inductive Error where
  | dependencyType (name : String)
  | selfReference (fault : SelfReference)
  | variantName (fault : VariantNameFault)
  | variantValue (variant : String) (values : List String) (allowed : String)
  | exclusiveVariant (variant : String) (count : Nat)
  | destination (path : String) (fault : DestinationFault)
  | incompatible (left right : String) (clash : Clash)
  | directiveConfig (fault : DirectiveFault)
  | spec (expression : String) (fault : SpecFault)
  | version (text : String)
  | patch (locator : String) (fault : PatchFault)
  | fetch (fault : FetchFault)
  | fetchConflict (conflict : FetchConflict)
  | multipleExtendees (package existing requested : String)
  | directive (package name : String) (source : Error)
  | recipe (fault : RecipeFault)
  | recipeMissing (missing : MissingRecipe)
  | inheritance (fault : InheritanceFault)
  | config (fault : ConfigFault)
  | file (reason : String)
  deriving DecidableEq

namespace NameRole

def message : NameRole → String
  | variant => "variant"
  | compiler => "compiler"

end NameRole

namespace SpecFault

def message : SpecFault → String
  | nameExpected role => s!"expected {role.message} name"
  | versionsExpected => "expected versions after '@'"
  | versionListInvalid text => s!"invalid version list '{text}'"
  | versionsRepeated => "version constraint given more than once"
  | compilerRepeated => "compiler given more than once"
  | variantRepeated name => s!"variant '{name}' given more than once"
  | valueMissing variant => s!"missing value for variant '{variant}'"
  | nameUnexpected word => s!"unexpected name '{word}'"
  | characterUnexpected character => s!"unexpected character '{character}'"
  | dependencyUnnamed => "dependency constraint after '^' must be named"
  | targetUnnamed => "dependency target must name a package"
  | packageNameExpected => "expected a package name"

end SpecFault

namespace Clash

def message : Clash → String
  | names left right => s!"package names differ ({left} vs {right})"
  | versions left right => s!"versions {left} and {right} do not overlap"
  | variant name => s!"variant '{name}' is set both ways"
  | compilers left right => s!"compilers differ ({left} vs {right})"
  | compilerVersions left right => s!"compiler versions {left} and {right} do not overlap"

end Clash

namespace UrlFault

def message : UrlFault → String
  | relative => "relative URL without a base"
  | hostEmpty => "empty host"
  | portInvalid => "invalid port number"
  | ipv4Invalid => "invalid IPv4 address"
  | ipv6Invalid => "invalid IPv6 address"
  | hostNameInvalid => "invalid international domain name"
  | hostCharacterInvalid => "invalid domain character"

end UrlFault

namespace PatchFault

def message : PatchFault → String
  | url fault => fault.message
  | archiveChecksumMissing => "compressed patches require 'archive_sha256'"
  | locatorEmpty => "empty patch locator"
  | pathAbsolute => "patch files must be relative to the recipe"
  | archiveChecksumOnFile => "'archive_sha256' only applies to URL patches"

end PatchFault

namespace FetchFault

def message : FetchFault → String
  | sourceMissing => "expected one of 'url', 'git', 'hg', 'svn'"
  | locationInvalid location fault => s!"invalid location '{location}': {fault.message}"

end FetchFault

namespace FetchConflict

def message : FetchConflict → String
  | sources keys => ", ".intercalate keys
  | checksums => "both 'sha256' and 'md5' given"
  | references => "git accepts only one of 'tag', 'branch', 'commit'"

end FetchConflict

namespace DestinationFault

def message : DestinationFault → String
  | absolute => "must be a relative path"
  | escaping => "escapes the package stage"

end DestinationFault

namespace SelfReference

def message : SelfReference → String
  | dependency package => s!"package '{package}' cannot depend on itself"
  | provided package => s!"package '{package}' cannot provide itself"

end SelfReference

namespace VariantNameFault

def message : VariantNameFault → String
  | notIdentifier name => s!"'{name}' is not a valid variant identifier"
  | reserved name => s!"'{name}' is a reserved variant name"

end VariantNameFault

namespace DirectiveFault

def message : DirectiveFault → String
  | fieldUndeclared directive field needed =>
    s!"directive '{directive}' does not declare field '{field}' (needed by '{needed}')"
  | nameInvalid name => s!"invalid directive name '{name}'"
  | nameTaken name => s!"directive '{name}' is already registered"
  | fieldsMissing => "a directive must affect at least one descriptor field"
  | fieldUnknown name => s!"unknown descriptor field '{name}'"

end DirectiveFault

namespace RecipeFault

/-- The wording up to the reader's own account of what it found; that account is
not part of the message. -/
def message : RecipeFault → String
  | malformed => "Invalid recipe:"
  | malformedFile path => s!"{path}: Failed to parse recipe: Invalid recipe:"
  | nameEmpty => "Recipe package name cannot be empty"
  | nameInvalid name => s!"Invalid package name: {name}"
  | baseRepeated recipe base => s!"{recipe} lists base {base} twice"
  | duplicate name => s!"Duplicate recipe for {name}"
  | abstractLayer name => s!"{name} is an abstract layer and cannot be built"

end RecipeFault

namespace MissingRecipe

def message : MissingRecipe → String
  | recipe name => name
  | base name heir => s!"{name} (base of {heir})"
  | failedBase name heir => s!"{name} (base of {heir} failed)"
  | directory path => s!"{path} is not a directory"

end MissingRecipe

namespace InheritanceFault

def message : InheritanceFault → String
  | ownBase name => s!"{name} lists itself as a base"
  | cycle layers => "Inheritance cycle detected: " ++ " -> ".intercalate layers

end InheritanceFault

def dependencyTypeMessage (name : String) : String :=
  s!"Invalid dependency type: {name}"

namespace ConfigFault

def message : ConfigFault → String
  | malformed => "invalid configuration:"
  | stageRootEmpty => "stage_root cannot be empty"
  | stageRootAbsolute => "stage_root must be a relative sentinel"
  | typesEmpty => "default_deptypes cannot be empty"
  | typeUnknown name => dependencyTypeMessage name
  | unreadable path reason => s!"failed to read {path}: {reason}"

end ConfigFault

namespace Error

def message : Error → String
  | dependencyType name => dependencyTypeMessage name
  | selfReference fault => s!"Circular reference: {fault.message}"
  | variantName fault => s!"Invalid variant name: {fault.message}"
  | variantValue variant values allowed =>
    s!"Invalid value(s) {Text.quoteList values} for variant '{variant}' (allowed: {allowed})"
  | exclusiveVariant variant count => s!"Variant '{variant}' accepts a single value, got {count}"
  | destination path fault =>
    s!"Invalid resource destination '{path}': {fault.message}"
  | incompatible left right clash =>
    s!"Incompatible constraint: '{left}' and '{right}': {clash.message}"
  | directiveConfig fault => s!"Invalid directive configuration: {fault.message}"
  | spec expression fault => s!"Invalid constraint expression '{expression}': {fault.message}"
  | version text => s!"Invalid version '{text}'"
  | patch locator fault => s!"Invalid patch '{locator}': {fault.message}"
  | fetch fault => s!"No fetch strategy could be selected from: {fault.message}"
  | fetchConflict conflict => s!"Conflicting fetch strategies: {conflict.message}"
  | multipleExtendees package existing requested =>
    s!"Package '{package}' already extends '{existing}', cannot also extend '{requested}'"
  | directive package name source =>
    s!"Error in directive '{name}' of package '{package}': {source.message}"
  | recipe fault => s!"Failed to parse recipe: {fault.message}"
  | recipeMissing missing => s!"Recipe not found: {missing.message}"
  | inheritance fault => s!"Circular inheritance detected: {fault.message}"
  | config fault => s!"Configuration error: {fault.message}"
  | file reason => s!"I/O error: {reason}"

/-- The error as one of the directive `name` in `package`. An error already attributed
keeps its attribution, which is the innermost. -/
def inDirective (package name : String) : Error → Error
  | .directive owner inner source => .directive owner inner source
  | other => .directive package name other

def root : Error → Error
  | .directive _ _ source => source.root
  | other => other

end Error

/-- Checks and writes on a state, one after the other. A check that fails ends them, and
what was written before it stays written. -/
abbrev Procedure (State α : Type) := ExceptT Error (StateM State) α

namespace Procedure

variable {State α β : Type}

/-- How the steps end, and the state that they leave. -/
def outcome (steps : Procedure State α) (state : State) : Except Error α × State :=
  steps.run.run state

@[simp] theorem outcome_throw (error : Error) (state : State) :
    outcome (throw error : Procedure State α) state = (.error error, state) := rfl

@[simp] theorem outcome_check (check : Except Error α) (state : State) :
    outcome (liftM check) state = (check, state) := rfl

@[simp] theorem outcome_modify (write : State → State) (state : State) :
    outcome (modify write) state = (.ok (), write state) := rfl

@[simp] theorem outcome_get_bind (next : State → Procedure State β) (state : State) :
    outcome (get >>= next) state = (next state).outcome state := rfl

@[simp] theorem outcome_modify_bind (write : State → State) (next : Unit → Procedure State β)
    (state : State) : outcome (modify write >>= next) state = (next ()).outcome (write state) := rfl

theorem outcome_bind (steps : Procedure State α) (next : α → Procedure State β) (state : State) :
    outcome (steps >>= next) state =
      match steps.outcome state with
      | (.ok value, after) => (next value).outcome after
      | (.error error, after) => (.error error, after) := by
  rw [outcome, ExceptT.run_bind, StateT.run_bind]
  unfold outcome
  generalize StateT.run steps.run state = run
  obtain ⟨_ | _, _⟩ := run
  · rfl
  · rfl

end Procedure

end PackageRecipes
