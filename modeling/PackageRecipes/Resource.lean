import PackageRecipes.Error
import PackageRecipes.Fetch
import PackageRecipes.Path

/-! Extra sources staged beside a package's own. -/

namespace PackageRecipes

structure Resource where
  name : Option String
  strategy : FetchStrategy
  destination : String
  placement : Option String
  deriving DecidableEq

namespace Resource

/-- One step of the walk from the stage along a destination. -/
def step (position : List Path.Component) (component : Path.Component) :
    Except DestinationFault (List Path.Component) :=
  match component with
  | .root => .error .absolute
  | .here => .ok position
  | .up =>
    match Path.parent? position with
    | some above => .ok above
    | none => .error .escaping
  | .down name => .ok (position ++ [.down name])

/-- The destination, joined to the stage's root and walked component by component,
ends below that root. -/
def checkDestination (destination stageRoot : String) : Except Error Unit :=
  if Path.isAbsolute destination then .error (.destination destination .absolute)
  else
    let root := Path.components stageRoot
    match (Path.components destination).foldlM step root with
    | .error fault => .error (.destination destination fault)
    | .ok position =>
      if root.isPrefixOf position then .ok () else .error (.destination destination .escaping)

end Resource

end PackageRecipes
