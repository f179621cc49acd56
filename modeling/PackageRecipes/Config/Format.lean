import PackageRecipes.Config
import PackageRecipes.Toml.Document
import PackageRecipes.Toml.Value

/-! The configuration file. Every key may be left out. -/

namespace PackageRecipes

open Toml

def ExtendsPolicy.ofName? (name : String) : Option ExtendsPolicy :=
  if name == "reject" then some .reject
  else if name == "ignore" then some .ignore
  else none

/-- The name of a policy, or a table with that name over an empty table or array. -/
def decodePolicy : Decoder ExtendsPolicy
  | .string name => ExtendsPolicy.ofName? name
  | .table [(name, .table [])] => ExtendsPolicy.ofName? name
  | .table [(name, .array [])] => ExtendsPolicy.ofName? name
  | _ => none

def decodeSettings : Decoder Config := fun value => do
  let standard := Config.standard
  match ← value.fields? ["reserved_variant_names", "stage_root", "extends_policy", "default_deptypes"] with
  | [reserved, root, policy, types] =>
    return {
      reservedVariants := ← withDefault standard.reservedVariants (Value.list? Value.string?) reserved
      stageRoot := ← withDefault standard.stageRoot Value.string? root
      extendsPolicy := ← withDefault standard.extendsPolicy decodePolicy policy
      defaultTypes := ← withDefault standard.defaultTypes (Value.list? Value.string?) types }
  | _ => none

def decodeConfig (document : List (String × Value)) : Option Config := do
  match ← Value.fields? ["directives"] (.table document) with
  | [settings] => withDefault Config.standard decodeSettings settings
  | _ => none

namespace Config

def ofText (text : String) : Except Error Config :=
  match (Toml.parse text).bind decodeConfig with
  | none => .error (.config .malformed)
  | some config => do
    config.validate
    return config

end Config

end PackageRecipes
