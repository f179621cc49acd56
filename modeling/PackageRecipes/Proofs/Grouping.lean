import PackageRecipes.Proofs.FirstOccurrences
import PackageRecipes.Proofs.MergeDisciplines

/-! What a package's descriptor should hold, said without replaying anything: the
declarations kind by kind, and each field as a grouping of those that write to it. -/

namespace PackageRecipes

/-- Declarations kind by kind, each kind in order. An extension counts as a
requirement too. -/
structure Declarations where
  versions : List VersionDeclaration
  requirements : List DependencyDeclaration
  extensions : List ExtensionDeclaration
  conflicts : List ConflictDeclaration
  provisions : List ProvisionDeclaration
  patches : List PatchDeclaration
  variants : List Variant
  resources : List ResourceDeclaration

namespace Declarations

def none : Declarations :=
  ⟨[], [], [], [], [], [], [], []⟩

def add (declared : Declarations) : Declaration → Declarations
  | .version version => { declared with versions := declared.versions ++ [version] }
  | .dependsOn requirement => { declared with requirements := declared.requirements ++ [requirement] }
  | .extending extension =>
    { declared with
      requirements := declared.requirements ++ [extension.asDependency]
      extensions := declared.extensions ++ [extension] }
  | .conflicts conflict => { declared with conflicts := declared.conflicts ++ [conflict] }
  | .provides provision => { declared with provisions := declared.provisions ++ [provision] }
  | .patch patch => { declared with patches := declared.patches ++ [patch] }
  | .variant variant => { declared with variants := declared.variants ++ [variant] }
  | .resource resource => { declared with resources := declared.resources ++ [resource] }

def ofList (declarations : List Declaration) : Declarations :=
  declarations.foldl add none

end Declarations

def DependencyPatch.create (patch : DependencyPatch) (target : String) : Except Error Patch :=
  Patch.create target patch.locator patch.level patch.details patch.directory

/-- One requirement that stands for several on the same target: it asks for what each
of them asks for. -/
structure Conjunction (target : String) (requirements : List DependencyDeclaration)
    (dependency : Dependency) : Prop where
  narrowed : ∃ first rest, requirements.map (·.target) = first :: rest ∧
    rest.foldlM Spec.constrain first = .ok dependency.target
  types : ∀ type, dependency.types.contains type = requirements.any (·.types.contains type)
  patches : Appended (fun patch => anchorCondition patch.when target) (DependencyPatch.create · target)
    (requirements.flatMap (·.patches)) dependency.patches

def requirementsOn (package target : String) (condition : Spec) (requirements : List DependencyDeclaration) :
    List DependencyDeclaration :=
  requirements.filter fun requirement =>
    requirement.target.name == some target &&
      isUnder (anchorCondition · package) condition requirement.when

def Required (target : String) (requirements : List DependencyDeclaration) : Option Dependency → Prop
  | none => requirements = []
  | some dependency => Conjunction target requirements dependency

structure DependenciesGrouped (package : String) (requirements : List DependencyDeclaration)
    (dependencies : OrderedMap String (OrderedMap Spec Dependency)) : Prop where
  targets : ∀ target, dependencies.contains target = requirements.any (·.target.name == some target)
  required : ∀ target condition,
    Required target (requirementsOn package target condition requirements)
      ((dependencies.find? target).bind (·.find? condition))

def extensionsOf (name : String) (extensions : List ExtensionDeclaration) : List ExtensionDeclaration :=
  extensions.filter (·.target.name == some name)

/-- The package named first is the only one extended: by the last target, and with each
option as it was last given. -/
structure ExtendeesGrouped (extensions : List ExtensionDeclaration)
    (extendees : OrderedMap String (Spec × Metadata)) : Prop where
  named : ∀ extension ∈ extensions, ∃ name, extension.target.name = some name
  extended : ∀ name, (extendees.find? name).isSome ↔ extensions.head?.bind (·.target.name) = some name
  target : ∀ name target options, extendees.find? name = some (target, options) →
    (extensionsOf name extensions).getLast?.map (·.target) = some target
  options : ∀ name target options, extendees.find? name = some (target, options) →
    ∀ key, options.find? key = (extensionsOf name extensions).reverse.findSome? (·.options.find? key)

structure ProvisionsGrouped (package : String) (provisions : List ProvisionDeclaration)
    (provided : OrderedMap Spec (OrderedSet Spec)) : Prop where
  virtuals : ∀ virtual, provided.contains virtual =
    provisions.any fun provision => provision.virtuals.any (compare virtual · == .eq)
  conditions : ∀ virtual condition, ((provided.find? virtual).getD .empty).contains condition =
    provisions.any fun provision =>
      provision.virtuals.any (compare virtual · == .eq) &&
        isUnder (anchorCondition · package) condition provision.when

def ConflictDeclaration.recorded (conflict : ConflictDeclaration) (package : String) : Except Error Conflict :=
  (anchorCondition conflict.when package).map fun condition => ⟨condition, conflict.message⟩

def PatchDeclaration.create (patch : PatchDeclaration) (package : String) : Except Error Patch :=
  Patch.create package patch.locator patch.level patch.details patch.directory

def ResourceDeclaration.recorded (resource : ResourceDeclaration) : Except Error Resource :=
  resource.fetch.strategy.map fun strategy =>
    ⟨resource.name, strategy, resource.destination, resource.placement⟩

/-- Every field of the descriptor holds the grouping of the declarations that write to it. -/
structure Grouped (package : String) (declared : Declarations) (descriptor : Descriptor) : Prop where
  name : descriptor.name = package
  versions : Overwritten (·.version) (·.allMetadata) declared.versions descriptor.versions
  dependencies : DependenciesGrouped package declared.requirements descriptor.dependencies
  conflicts : Gathered firstOccurrences (fun conflict => .ok conflict.conflict)
    (ConflictDeclaration.recorded · package) declared.conflicts descriptor.conflicts
  provided : ProvisionsGrouped package declared.provisions descriptor.provided
  variants : Overwritten (·.name) id declared.variants descriptor.variants
  patches : Appended (fun patch => anchorCondition patch.when package) (PatchDeclaration.create · package)
    declared.patches descriptor.patches
  resources : Appended (fun resource => anchorCondition resource.when package) ResourceDeclaration.recorded
    declared.resources descriptor.resources
  extendees : ExtendeesGrouped declared.extensions descriptor.extendees

theorem Grouped.empty (package : String) : Grouped package .none (.empty package) where
  name := rfl
  versions := .empty _ _
  dependencies := ⟨fun _ => rfl, fun _ _ => rfl⟩
  conflicts := .empty rfl _ _
  provided := ⟨fun _ => rfl, fun _ _ => rfl⟩
  variants := .empty _ _
  patches := .empty rfl _ _
  resources := .empty rfl _ _
  extendees := ⟨nofun, fun _ => ⟨nofun, nofun⟩, fun _ _ _ => nofun, fun _ _ _ => nofun⟩

end PackageRecipes
