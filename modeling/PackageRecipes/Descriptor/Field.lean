import PackageRecipes.OrderedMap

/-! The fields of a package descriptor, by which directives declare what they change. -/

namespace PackageRecipes

inductive Field where
  | versions
  | dependencies
  | conflicts
  | provided
  | variants
  | patches
  | resources
  | extendees
  deriving DecidableEq

namespace Field

def all : List Field :=
  [versions, dependencies, conflicts, provided, variants, patches, resources, extendees]

def position : Field → Nat
  | versions => 0
  | dependencies => 1
  | conflicts => 2
  | provided => 3
  | variants => 4
  | patches => 5
  | resources => 6
  | extendees => 7

instance : Ord Field := ⟨compareOn position⟩

instance : Std.TransOrd Field :=
  inferInstanceAs (Std.TransCmp (compareOn position))

def name : Field → String
  | versions => "versions"
  | dependencies => "dependencies"
  | conflicts => "conflicts"
  | provided => "provided"
  | variants => "variants"
  | patches => "patches"
  | resources => "resources"
  | extendees => "extendees"

def ofName? (name : String) : Option Field :=
  all.find? fun field => field.name == name

end Field

abbrev FieldSet := OrderedSet Field

end PackageRecipes
