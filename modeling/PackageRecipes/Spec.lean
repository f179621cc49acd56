import PackageRecipes.OrderedMap
import PackageRecipes.Version.List

/-! Constraint expressions over packages. An expression names a package, or leaves
the name to its owner, and narrows it by version, variant settings, compiler
and constraints on the packages it depends on. Expressions are plain values
with a total order, so that they can be the keys of a map. -/

namespace PackageRecipes

inductive VariantSetting where
  | enabled (on : Bool)
  | values (values : List String)
  deriving BEq

namespace VariantSetting

/-- A switch comes before every list of values. -/
protected def compare : VariantSetting → VariantSetting → Ordering
  | enabled left, enabled right => Ord.compare left right
  | enabled _, values _ => .lt
  | values _, enabled _ => .gt
  | values left, values right => Ord.compare left right

instance : Ord VariantSetting := ⟨VariantSetting.compare⟩

instance : Std.TransOrd VariantSetting where
  eq_swap := by
    intro left right
    cases left with
    | enabled on =>
      cases right with
      | enabled other => exact @Std.OrientedCmp.eq_swap Bool Ord.compare _ _ _
      | values => rfl
    | values list =>
      cases right with
      | enabled => rfl
      | values other => exact @Std.OrientedCmp.eq_swap (List String) Ord.compare _ _ _
  isLE_trans := by
    intro left middle right
    cases left with
    | enabled first =>
      cases middle with
      | enabled second =>
        cases right with
        | enabled third => exact @Std.TransCmp.isLE_trans Bool Ord.compare _ _ _ _
        | values => exact fun _ _ => rfl
      | values =>
        cases right with
        | enabled => exact fun _ impossible => nomatch impossible
        | values => exact fun _ _ => rfl
    | values first =>
      cases middle with
      | enabled => exact fun impossible => nomatch impossible
      | values second =>
        cases right with
        | enabled => exact fun _ impossible => nomatch impossible
        | values third => exact @Std.TransCmp.isLE_trans (List String) Ord.compare _ _ _ _

/-- The text after `name=` as a setting: either word of a switch, or the values
between the commas, in order and each once. -/
def ofText (text : String) : VariantSetting :=
  if Text.sameIgnoringCase text "true" then enabled true
  else if Text.sameIgnoringCase text "false" then enabled false
  else
    let parts := (Text.fields ',' text.toList).filter fun part => !part.isEmpty
    values ((parts.map String.ofList).mergeSort fun left right => (Ord.compare left right).isLE).eraseReps

end VariantSetting

structure CompilerSpec where
  name : String
  versions : VersionList
  deriving BEq

namespace CompilerSpec

instance : Ord CompilerSpec := ⟨compareLex (compareOn name) (compareOn versions)⟩

instance : Std.TransOrd CompilerSpec :=
  inferInstanceAs (Std.TransCmp (compareLex (compareOn name) (compareOn versions)))

def text (compiler : CompilerSpec) : String :=
  "%" ++ compiler.name ++ if compiler.versions.isAny then "" else "@" ++ compiler.versions.text

end CompilerSpec

/-- The constraints on one package, apart from those on its dependencies. -/
structure Node where
  name : Option String
  versions : VersionList
  variants : OrderedMap String VariantSetting
  compiler : Option CompilerSpec
  deriving BEq

namespace Node

def unconstrained : Node := ⟨none, .any, .empty, none⟩

instance : Ord Node :=
  ⟨compareLex (compareOn name) <| compareLex (compareOn versions) <|
    compareLex (compareOn variants) (compareOn compiler)⟩

instance : Std.TransOrd Node :=
  inferInstanceAs <| Std.TransCmp <| compareLex (compareOn name) <|
    compareLex (compareOn versions) <| compareLex (compareOn variants) (compareOn compiler)

def switchText : String × VariantSetting → String
  | (name, .enabled on) => (if on then "+" else "~") ++ name
  | (_, .values _) => ""

def valuesText : String × VariantSetting → String
  | (_, .enabled _) => ""
  | (name, .values values) => " " ++ name ++ "=" ++ ",".intercalate values

/-- The normal text: the name, the versions, the switches and then the valued
variants in the order of their names, the compiler. What admits all is left out. -/
def text (node : Node) : String :=
  node.name.getD "" ++
  (if node.versions.isAny then "" else "@" ++ node.versions.text) ++
  String.join (node.variants.entries.map switchText) ++
  String.join (node.variants.entries.map valuesText) ++
  (node.compiler.map (·.text)).getD ""

def isBare (node : Node) : Bool :=
  node.versions.isAny && node.variants.isEmpty && node.compiler.isNone

end Node

/-- A constraint expression: the constraints on a package and, by their names, those
on packages that it depends on. -/
structure Spec where
  node : Node
  dependencies : OrderedMap String Node
  deriving BEq

namespace Spec

instance : Ord Spec := ⟨compareLex (compareOn node) (compareOn dependencies)⟩

instance : Std.TransOrd Spec :=
  inferInstanceAs (Std.TransCmp (compareLex (compareOn node) (compareOn dependencies)))

def ofNode (node : Node) : Spec := ⟨node, .empty⟩

def named (name : String) : Spec :=
  ofNode { Node.unconstrained with name := some name }

def name (spec : Spec) : Option String :=
  spec.node.name

/-- The normal text: that of the package, then each constraint on a dependency
after a `^`. -/
def text (spec : Spec) : String :=
  spec.node.text ++ String.join (spec.dependencies.values.map fun node => " ^" ++ node.text)

instance : ToString Spec := ⟨text⟩

def isBare (spec : Spec) : Bool :=
  spec.node.isBare && spec.dependencies.isEmpty

def dependency? (spec : Spec) (name : String) : Option Spec :=
  (spec.dependencies.find? name).map ofNode

def requiresVariant (spec : Spec) (name : String) : Bool :=
  match spec.node.variants.find? name with
  | some (.enabled on) => on
  | some (.values values) => !values.isEmpty
  | none => false

def admitsVersion (spec : Spec) (version : Version) : Bool :=
  spec.node.versions.contains version

end Spec

end PackageRecipes
