import PackageRecipes.Descriptor

/-! Descriptors as lines of text, a section for each field that is not empty. -/

namespace PackageRecipes

/-- A text in a column: blanks fill it up to the column's width. -/
def column (width : Nat) (text : String) : String :=
  text ++ String.ofList (List.replicate (width - text.length) ' ')

/-- The entries of a section start with a column of this width. -/
def nameColumn (text : String) : String :=
  "  " ++ column 16 text

def Metadata.listing (metadata : Metadata) : String :=
  " ".intercalate (metadata.entries.map fun (key, value) => s!"{key}={value}")

namespace Descriptor

/-- A section with its title, set off by an empty line; without lines, nothing. -/
def titled (title : String) (lines : List String) : List String :=
  if lines.isEmpty then [] else "" :: title :: lines

def versionLines (descriptor : Descriptor) : List String :=
  descriptor.versions.entries.reverse.map fun (version, metadata) =>
    s!"  {version.text} {Metadata.listing metadata}"

def variantLines (descriptor : Descriptor) : List String :=
  descriptor.variants.entries.flatMap fun (name, variant) =>
    let multi := if variant.multi then " (multi)" else ""
    s!"{nameColumn name} [{variant.default.shown}] {variant.domain.text}{multi}" ::
      if variant.description.isEmpty then [] else [nameColumn "" ++ " " ++ variant.description]

def dependencyLines (name : String) (condition : Spec) (dependency : Dependency) : List String :=
  s!"{nameColumn name} {dependency.target} {dependency.types} when {condition}" ::
    dependency.patches.entries.flatMap fun (when, patches) =>
      patches.map fun patch => nameColumn "" ++ s!"   patch {patch.locator} when {when}"

def extendeeLines (descriptor : Descriptor) : List String :=
  descriptor.extendees.entries.map fun (name, target, options) =>
    s!"{nameColumn name} {target} {Metadata.listing options}"

def providedLines (descriptor : Descriptor) : List String :=
  descriptor.provided.entries.flatMap fun (virtual, conditions) =>
    conditions.keys.map fun condition => s!"  {virtual} when {condition}"

def conflictLines (descriptor : Descriptor) : List String :=
  descriptor.conflicts.entries.flatMap fun (spec, conflicts) =>
    conflicts.map fun conflict => s!"  {spec} when {conflict.when} " ++ conflict.message.getD ""

def patchLines (descriptor : Descriptor) : List String :=
  descriptor.patches.entries.flatMap fun (condition, patches) =>
    patches.map fun patch => s!"  {patch.locator} -p{patch.level} when {condition}"

def resourceLines (descriptor : Descriptor) : List String :=
  descriptor.resources.entries.flatMap fun (condition, resources) =>
    resources.map fun resource =>
      let destination := if resource.destination.isEmpty then "." else resource.destination
      nameColumn (resource.name.getD "(unnamed)") ++ s!" -> {destination} when {condition}"

def listing (descriptor : Descriptor) : List String :=
  s!"Package: {descriptor.name}" ::
  titled "Versions:" descriptor.versionLines ++
  titled "Variants:" descriptor.variantLines ++
  titled "Dependencies:" (descriptor.dependencies.entries.flatMap fun (name, conditional) =>
    conditional.entries.flatMap fun (condition, dependency) =>
      dependencyLines name condition dependency) ++
  titled "Extends:" descriptor.extendeeLines ++
  titled "Provides:" descriptor.providedLines ++
  titled "Conflicts:" descriptor.conflictLines ++
  titled "Patches:" descriptor.patchLines ++
  titled "Resources:" descriptor.resourceLines

end Descriptor

end PackageRecipes
