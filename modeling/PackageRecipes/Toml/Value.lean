import PackageRecipes.Decimal.Binary64

/-! Values of TOML documents, and records and lists read out of them. A record is written
as a table with no keys but its own, or as an array with its fields in their order. -/

namespace PackageRecipes.Toml

inductive FloatValue where
  | nan
  | infinity (negative : Bool)
  | number (negative : Bool) (magnitude : Decimal.Binary64)
  deriving DecidableEq

/-- A value. A date-time is kept as its normal text. -/
inductive Value where
  | string (text : String)
  | integer (value : Int)
  | float (value : FloatValue)
  | boolean (value : Bool)
  | date (text : String)
  | array (items : List Value)
  | table (entries : List (String × Value))

def dateKey : String := "$__toml_private_datetime"

def dateEntry (text : String) : String × Value :=
  (dateKey, .string text)

abbrev Decoder (α : Type) := Value → Option α

namespace Value

def string? : Decoder String
  | string text => some text
  | _ => none

def boolean? : Decoder Bool
  | boolean value => some value
  | _ => none

def word? : Decoder Nat
  | integer value => if 0 ≤ value ∧ value < Nat.pow 2 32 then some value.toNat else none
  | _ => none

def list? {α : Type} (decode : Decoder α) : Decoder (List α)
  | array items => items.mapM decode
  | _ => none

/-- A table whose values are all of one kind. A date-time is read as the table that
stands for it. -/
def entries? {α : Type} (decode : Decoder α) : Decoder (List (String × α))
  | table entries => entries.mapM fun (key, value) => (decode value).map fun decoded => (key, decoded)
  | date text => (decode (.string text)).map fun decoded => [(dateKey, decoded)]
  | _ => none

def find? (key : String) (entries : List (String × Value)) : Option Value :=
  (entries.find? fun entry => entry.1 == key).map (·.2)

/-- The fields of a record, each where its key stands in the list of keys. -/
def fields? (keys : List String) : Decoder (List (Option Value))
  | table entries =>
    if entries.all fun entry => keys.contains entry.1 then
      some (keys.map fun key => find? key entries)
    else none
  | array items => some ((List.range keys.length).map fun index => items[index]?)
  | _ => none

end Value

def required {α : Type} (decode : Decoder α) (field : Option Value) : Option α :=
  field.bind decode

def optional {α : Type} (decode : Decoder α) : Option Value → Option (Option α)
  | none => some none
  | some value => (decode value).map some

/-- A field that has a value of its own when it is left out. -/
def withDefault {α : Type} (default : α) (decode : Decoder α) : Option Value → Option α
  | none => some default
  | some value => decode value

end PackageRecipes.Toml
