import PackageRecipes.Directive

/-! What the action of a custom directive can ask its handle for. Each request reads
its texts first; one under a condition that never holds comes to nothing. -/

namespace PackageRecipes.Program

/-- Goes on with the outcome of a request: a fault in its texts, nothing to do, or a
directive to replay. -/
def request (requested : Except Error (Option Directive))
    (next : Except Error Unit → Program) : Program :=
  match requested with
  | .ok (some directive) => replay directive next
  | .ok none => next (.ok ())
  | .error error => next (.error error)

def unlessNever (condition : Condition) (requested : Except Error Declaration) :
    Except Error (Option Directive) :=
  if condition.isNever then .ok none
  else requested.map fun declaration => some (.declared declaration)

def version (text : String) (metadata : Metadata) : (Except Error Unit → Program) → Program :=
  request <| (Version.parse text).map fun version =>
    some (.declared (.version ⟨version, none, metadata⟩))

def dependsOn (target : String) (when : Condition) (types : DependencyTypes) :
    (Except Error Unit → Program) → Program :=
  request <| unlessNever when do
    let target ← Spec.parse target
    return .dependsOn ⟨target, ← when.parse, types, []⟩

def conflicts (expression : String) (when : Condition) (message : Option String) :
    (Except Error Unit → Program) → Program :=
  request <| unlessNever when do
    let conflict ← Spec.parse expression
    return .conflicts ⟨conflict, ← when.parse, message⟩

def provides (expression : String) (when : Condition) : (Except Error Unit → Program) → Program :=
  request <| unlessNever when do
    let virtual ← Spec.parse expression
    return .provides ⟨[virtual], ← when.parse⟩

end PackageRecipes.Program
