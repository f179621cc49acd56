import PackageRecipes.Directive

/-! The known directives and the descriptor fields they affect. The built-in ones
are always there; others are registered under names of their own. -/

namespace PackageRecipes

structure Registry where
  directives : OrderedMap String FieldSet

namespace Registry

def builtin : Registry :=
  ⟨.ofList (DirectiveKind.all.map fun kind => (kind.name, OrderedSet.ofList kind.fields))⟩

/-- The set of fields that a list of names stands for; there has to be one. -/
def readFields (names : List String) : Except Error FieldSet :=
  if names.isEmpty then .error (.directiveConfig .fieldsMissing)
  else do
    let fields ← names.mapM fun name =>
      match Field.ofName? name with
      | some field => .ok field
      | none => .error (.directiveConfig (.fieldUnknown name))
    return OrderedSet.ofList fields

def register (registry : Registry) (name : String) (fields : List String) :
    Except Error (CustomKind × Registry) :=
  if !isIdentifier name then .error (.directiveConfig (.nameInvalid name))
  else if registry.directives.contains name then .error (.directiveConfig (.nameTaken name))
  else do
    let fields ← readFields fields
    return (⟨name, fields⟩, ⟨registry.directives.insert name fields⟩)

def contains (registry : Registry) (name : String) : Bool :=
  registry.directives.contains name

def fieldsOf? (registry : Registry) (name : String) : Option FieldSet :=
  registry.directives.find? name

def knownFields (registry : Registry) : FieldSet :=
  OrderedSet.ofList (registry.directives.values.flatMap (·.toList))

def names (registry : Registry) : List String :=
  registry.directives.keys

def size (registry : Registry) : Nat :=
  registry.directives.size

end Registry

end PackageRecipes
