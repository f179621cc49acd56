import PackageRecipes.Descriptor

/-! The directives of the recipe language, with the arguments that were read when
they were declared. Declarations are compared part by part, so that one
inherited along several ways is recognised. -/

namespace PackageRecipes

/-- A patch on the source of a dependency. Its condition is about the dependency. -/
structure DependencyPatch where
  locator : String
  level : Nat
  when : Option Spec
  details : PatchDetails
  directory : Option Directory
  deriving BEq

structure VersionDeclaration where
  version : Version
  checksum : Option String
  metadata : Metadata
  deriving BEq

structure DependencyDeclaration where
  target : Spec
  when : Option Spec
  types : DependencyTypes
  patches : List DependencyPatch
  deriving BEq

structure ExtensionDeclaration where
  target : Spec
  when : Option Spec
  types : DependencyTypes
  options : Metadata
  deriving BEq

structure ConflictDeclaration where
  conflict : Spec
  when : Option Spec
  message : Option String
  deriving BEq

structure ProvisionDeclaration where
  virtuals : List Spec
  when : Option Spec
  deriving BEq

structure PatchDeclaration where
  locator : String
  level : Nat
  when : Option Spec
  details : PatchDetails
  directory : Option Directory
  deriving BEq

structure ResourceDeclaration where
  name : Option String
  when : Option Spec
  destination : String
  placement : Option String
  fetch : FetchArguments
  deriving BEq

inductive Declaration where
  | version (declared : VersionDeclaration)
  | dependsOn (declared : DependencyDeclaration)
  | extending (declared : ExtensionDeclaration)
  | conflicts (declared : ConflictDeclaration)
  | provides (declared : ProvisionDeclaration)
  | patch (declared : PatchDeclaration)
  | variant (declared : Variant)
  | resource (declared : ResourceDeclaration)
  deriving BEq

inductive DirectiveKind where
  | version
  | dependsOn
  | extending
  | conflicts
  | provides
  | patch
  | variant
  | resource
  deriving DecidableEq

namespace DirectiveKind

def all : List DirectiveKind :=
  [version, dependsOn, extending, conflicts, provides, patch, variant, resource]

def name : DirectiveKind → String
  | version => "version"
  | dependsOn => "depends_on"
  | extending => "extends"
  | conflicts => "conflicts"
  | provides => "provides"
  | patch => "patch"
  | variant => "variant"
  | resource => "resource"

def fields : DirectiveKind → List Field
  | version => [.versions]
  | dependsOn => [.dependencies]
  | extending => [.extendees, .dependencies]
  | conflicts => [.conflicts]
  | provides => [.provided]
  | patch => [.patches]
  | variant => [.variants]
  | resource => [.resources]

end DirectiveKind

namespace Declaration

def kind : Declaration → DirectiveKind
  | version _ => .version
  | dependsOn _ => .dependsOn
  | extending _ => .extending
  | conflicts _ => .conflicts
  | provides _ => .provides
  | patch _ => .patch
  | variant _ => .variant
  | resource _ => .resource

end Declaration

end PackageRecipes
