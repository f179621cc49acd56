import PackageRecipes.Error
import PackageRecipes.OrderedMap
import PackageRecipes.Text

/-! Variants: the build options of a package, each with a default and a domain, and the
names that packages, variants and directives can have. -/

namespace PackageRecipes

def isIdentifierStart (c : Char) : Bool :=
  Text.isAlphanumeric c || c == '_'

/-- A name: a letter, digit or underscore, then any number of these or hyphens. -/
def isIdentifier (name : String) : Bool :=
  match name.toList with
  | [] => false
  | first :: rest => isIdentifierStart first && rest.all fun c => isIdentifierStart c || c == '-'

inductive VariantValue where
  | switch (on : Bool)
  | text (text : String)
  deriving DecidableEq

namespace VariantValue

def shown : VariantValue → String
  | switch true => "true"
  | switch false => "false"
  | text value => value

def spellsSwitch (text : String) : Bool :=
  Text.sameIgnoringCase text "true" || Text.sameIgnoringCase text "false"

/-- A switch, or a text that spells one in any case. -/
def isSwitchLike : VariantValue → Bool
  | switch _ => true
  | text value => spellsSwitch value

end VariantValue

/-- A test of single values. Tests are equal when they are the same one, which their
numbers tell. -/
structure ValueTest where
  number : Nat
  accepts : String → Bool

instance : BEq ValueTest := ⟨fun left right => left.number == right.number⟩

/-- A check of all values given for a variant together, with the reason if they are
refused. Checks are compared as tests are. -/
structure GroupCheck where
  number : Nat
  check : List String → Except String Unit

instance : BEq GroupCheck := ⟨fun left right => left.number == right.number⟩

inductive VariantDomain where
  | switch
  | oneOf (allowed : OrderedSet String)
  | tested (test : ValueTest)
  | any
  deriving BEq

namespace VariantDomain

def infer (default : Option VariantValue) : VariantDomain :=
  if default.any (·.isSwitchLike) then switch else any

def impliedDefault : VariantDomain → VariantValue
  | switch => .switch false
  | _ => .text ""

/-- Whether a value is in the domain. Among listed values the default counts too. -/
def accepts (domain : VariantDomain) (default : VariantValue) (value : String) : Bool :=
  match domain with
  | switch => VariantValue.spellsSwitch value
  | oneOf allowed => allowed.contains value || default.shown == value
  | tested test => test.accepts value
  | any => true

def text : VariantDomain → String
  | switch => "True, False"
  | oneOf allowed => ", ".intercalate allowed.toList
  | tested _ => "<checked by predicate>"
  | any => "<any value>"

end VariantDomain

structure Variant where
  name : String
  default : VariantValue
  description : String
  domain : VariantDomain
  multi : Bool
  check : Option GroupCheck
  deriving BEq

namespace Variant

def isSwitch (variant : Variant) : Bool :=
  !variant.multi && variant.domain == .switch

/-- Checks the values requested for the variant: their number, then each for itself,
then all together. -/
def validate (variant : Variant) (values : List String) : Except Error Unit :=
  let refused := values.filter fun value => !variant.domain.accepts variant.default value
  if !variant.multi && values.length != 1 then
    .error (.exclusiveVariant variant.name values.length)
  else if !refused.isEmpty then
    .error (.variantValue variant.name refused variant.domain.text)
  else match variant.check with
    | some check => (check.check values).mapError (.variantValue variant.name values)
    | none => .ok ()

end Variant

end PackageRecipes
