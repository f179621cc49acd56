import PackageRecipes.Dependency
import PackageRecipes.Descriptor.Field
import PackageRecipes.Resource
import PackageRecipes.Variant

/-! Package descriptors: the record that replaying a package's directives makes. -/

namespace PackageRecipes

/-- Where a version comes from, or how a package is extended, in free keys. -/
abbrev Metadata := OrderedMap String String

/-- The key of a version's own checksum among its metadata. -/
def checksumKey : String := "md5"

structure Conflict where
  when : Spec
  message : Option String
  deriving BEq

structure Descriptor where
  name : String
  versions : OrderedMap Version Metadata
  dependencies : OrderedMap String (OrderedMap Spec Dependency)
  conflicts : OrderedMap Spec (List Conflict)
  provided : OrderedMap Spec (OrderedSet Spec)
  variants : OrderedMap String Variant
  patches : PatchMap
  resources : OrderedMap Spec (List Resource)
  extendees : OrderedMap String (Spec × Metadata)

namespace Descriptor

def empty (name : String) : Descriptor :=
  ⟨name, .empty, .empty, .empty, .empty, .empty, .empty, .empty, .empty⟩

def dependency? (descriptor : Descriptor) (target : String) (condition : Spec) :
    Option Dependency :=
  (descriptor.dependencies.find? target).bind (·.find? condition)

/-- The package provides the virtual package `name` under some condition. -/
def provides (descriptor : Descriptor) (name : String) : Bool :=
  descriptor.provided.keys.any fun virtual => virtual.name == some name

def size (descriptor : Descriptor) : Field → Nat
  | .versions => descriptor.versions.size
  | .dependencies => descriptor.dependencies.size
  | .conflicts => descriptor.conflicts.size
  | .provided => descriptor.provided.size
  | .variants => descriptor.variants.size
  | .patches => descriptor.patches.size
  | .resources => descriptor.resources.size
  | .extendees => descriptor.extendees.size

end Descriptor

end PackageRecipes
