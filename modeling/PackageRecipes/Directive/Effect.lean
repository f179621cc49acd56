import PackageRecipes.Condition
import PackageRecipes.Config
import PackageRecipes.Directive.Declaration
import PackageRecipes.Variant

/-! What the built-in directives check and write when they are replayed, in their order.
Conditions are anchored on the package being built, as the declaring layer may be one
it inherits from. -/

namespace PackageRecipes

/-- The outcome of an effect and the descriptor it leaves, which a failure does not
undo. -/
abbrev Effect := Descriptor → Except Error Unit × Descriptor

namespace VersionDeclaration

def allMetadata (declared : VersionDeclaration) : Metadata :=
  match declared.checksum with
  | some checksum => declared.metadata.insert checksumKey checksum
  | none => declared.metadata

/-- The last declaration of a version holds. -/
def record (declared : VersionDeclaration) (descriptor : Descriptor) : Descriptor :=
  { descriptor with
    versions := descriptor.versions.insert declared.version declared.allMetadata }

end VersionDeclaration

def targetName (target : Spec) : Except Error String :=
  match target.name with
  | some name => .ok name
  | none => .error (.spec target.text .targetUnnamed)

namespace DependencyPatch

def addTo (patch : DependencyPatch) (target : String) (dependency : Dependency) :
    Except Error Dependency := do
  let condition ← anchorCondition patch.when target
  let created ← Patch.create target patch.locator patch.level patch.details patch.directory
  return dependency.addPatch condition created

end DependencyPatch

/-- The descriptor with a dependency written to its place. -/
def Descriptor.withDependency (descriptor : Descriptor) (target : String) (condition : Spec)
    (dependency : Dependency) : Descriptor :=
  { descriptor with
    dependencies := descriptor.dependencies.insert target
      (((descriptor.dependencies.find? target).getD .empty).insert condition dependency) }

namespace DependencyDeclaration

/-- The requirement as recorded for a package that declares it alone. -/
def dependency (declared : DependencyDeclaration) (target : String) : Except Error Dependency :=
  declared.patches.foldlM (fun dependency patch => patch.addTo target dependency)
    (Dependency.new declared.target declared.types)

/-- Records a requirement, taken into an earlier one under the same condition. The package
required has its entry before that is tried, and what it leaves is written, failed or not. -/
def recordUnder (target : String) (condition : Spec) (dependency : Dependency) :
    Procedure Descriptor Unit := do
  modify fun descriptor => { descriptor with
    dependencies := descriptor.dependencies.upsert target (·.getD .empty) }
  match (((← get).dependencies.find? target).getD .empty).find? condition with
  | some earlier =>
    let (outcome, held) := (Dependency.absorb dependency).outcome earlier
    modify (·.withDependency target condition held)
    outcome
  | none => modify (·.withDependency target condition dependency)

def replay (declared : DependencyDeclaration) : Procedure Descriptor Unit := do
  let package := (← get).name
  let target ← targetName declared.target
  if target == package then throw (.selfReference (.dependency target))
  let condition ← anchorCondition declared.when package
  let dependency ← declared.dependency target
  recordUnder target condition dependency

end DependencyDeclaration

namespace ExtensionDeclaration

/-- An extension is first of all a dependency. -/
def asDependency (declared : ExtensionDeclaration) : DependencyDeclaration :=
  ⟨declared.target, declared.when, declared.types, []⟩

/-- Records the package as the one extended: the last target holds, options add up. -/
def recordExtendee (declared : ExtensionDeclaration) (name : String) (descriptor : Descriptor) :
    Descriptor :=
  { descriptor with
    extendees := descriptor.extendees.upsert name fun existing =>
      let options := (existing.map (·.2)).getD .empty
      (declared.target,
        declared.options.entries.foldl (fun options (key, value) => options.insert key value)
          options) }

/-- A package extends one package only; what another extension means is for the policy to
say. -/
def replay (declared : ExtensionDeclaration) (config : Config) : Procedure Descriptor Unit := do
  let name ← targetName declared.target
  let descriptor ← get
  match descriptor.extendees.keys.find? (· != name) with
  | some existing =>
    match config.extendsPolicy with
    | .reject => throw (.multipleExtendees descriptor.name existing name)
    | .ignore => declared.asDependency.replay
  | none =>
    declared.asDependency.replay
    modify (declared.recordExtendee name)

end ExtensionDeclaration

namespace ConflictDeclaration

/-- A conflict is recorded unless the very same one is already there. -/
def replay (declared : ConflictDeclaration) : Procedure Descriptor Unit := do
  let when ← anchorCondition declared.when (← get).name
  let conflict : Conflict := ⟨when, declared.message⟩
  modify fun descriptor => { descriptor with
    conflicts := descriptor.conflicts.upsert declared.conflict fun existing =>
      let recorded := existing.getD []
      if recorded.contains conflict then recorded else recorded ++ [conflict] }

end ConflictDeclaration

namespace ProvisionDeclaration

/-- Records virtual packages one after the other, up to one that is the package. -/
def recordAll (condition : Spec) : List Spec → Procedure Descriptor Unit
  | [] => return
  | virtual :: others => do
    let package := (← get).name
    if virtual.name == some package then throw (.selfReference (.provided package))
    modify fun descriptor => { descriptor with
      provided := descriptor.provided.upsert virtual fun existing =>
        OrderedSet.add (existing.getD .empty) condition }
    recordAll condition others

def replay (declared : ProvisionDeclaration) : Procedure Descriptor Unit := do
  let condition ← anchorCondition declared.when (← get).name
  recordAll condition declared.virtuals

end ProvisionDeclaration

namespace PatchDeclaration

def replay (declared : PatchDeclaration) : Procedure Descriptor Unit := do
  let package := (← get).name
  let condition ← anchorCondition declared.when package
  let patch ← Patch.create package declared.locator declared.level declared.details
    declared.directory
  modify fun descriptor => { descriptor with patches := descriptor.patches.push condition patch }

end PatchDeclaration

namespace Variant

/-- The last declaration of a variant holds. -/
def replay (variant : Variant) : Procedure Descriptor Unit := do
  if !isIdentifier variant.name then throw (.variantName (.notIdentifier variant.name))
  modify fun descriptor => { descriptor with
    variants := descriptor.variants.insert variant.name variant }

end Variant

namespace ResourceDeclaration

def replay (declared : ResourceDeclaration) : Procedure Descriptor Unit := do
  let condition ← anchorCondition declared.when (← get).name
  let strategy ← declared.fetch.strategy
  modify fun descriptor => { descriptor with
    resources := descriptor.resources.push condition
      ⟨declared.name, strategy, declared.destination, declared.placement⟩ }

end ResourceDeclaration

namespace Declaration

def replay (config : Config) : Declaration → Procedure Descriptor Unit
  | version declared => modify declared.record
  | dependsOn declared => declared.replay
  | extending declared => declared.replay config
  | conflicts declared => declared.replay
  | provides declared => declared.replay
  | patch declared => declared.replay
  | variant declared => declared.replay
  | resource declared => declared.replay

def effect (config : Config) (declaration : Declaration) : Effect :=
  (declaration.replay config).outcome

end Declaration

end PackageRecipes
