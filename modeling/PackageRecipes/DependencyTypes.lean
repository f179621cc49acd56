import PackageRecipes.Error

/-! What a dependency is needed for: to build, to link, to run, or several of these. -/

namespace PackageRecipes

inductive DependencyType where
  | build
  | link
  | run
  deriving DecidableEq

namespace DependencyType

def name : DependencyType → String
  | build => "build"
  | link => "link"
  | run => "run"

def all : List DependencyType := [build, link, run]

def ofName? (name : String) : Option DependencyType :=
  all.find? fun type => type.name == name

end DependencyType

structure DependencyTypes where
  build : Bool
  link : Bool
  run : Bool
  deriving DecidableEq

namespace DependencyTypes

def none : DependencyTypes := ⟨false, false, false⟩

def all : DependencyTypes := ⟨true, true, true⟩

/-- A dependency whose types nobody names is needed to build and to link. -/
def standard : List DependencyType := [.build, .link]

def contains (types : DependencyTypes) : DependencyType → Bool
  | .build => types.build
  | .link => types.link
  | .run => types.run

def add (types : DependencyTypes) : DependencyType → DependencyTypes
  | .build => { types with build := true }
  | .link => { types with link := true }
  | .run => { types with run := true }

def ofList (types : List DependencyType) : DependencyTypes :=
  types.foldl add none

def toList (types : DependencyTypes) : List DependencyType :=
  DependencyType.all.filter types.contains

def size (types : DependencyTypes) : Nat :=
  types.toList.length

def isEmpty (types : DependencyTypes) : Bool :=
  types.toList.isEmpty

def union (left right : DependencyTypes) : DependencyTypes :=
  ⟨left.build || right.build, left.link || right.link, left.run || right.run⟩

def text (types : DependencyTypes) : String :=
  "(" ++ ", ".intercalate (types.toList.map (·.name)) ++ ")"

instance : ToString DependencyTypes := ⟨text⟩

end DependencyTypes

/-- Dependency types as the author of a recipe asks for them. -/
inductive TypeRequest where
  | all
  | one (name : String)
  | many (names : List String)
  deriving DecidableEq

namespace TypeRequest

def readType (name : String) : Except Error DependencyType :=
  match DependencyType.ofName? name with
  | some type => .ok type
  | none => .error (.dependencyType name)

/-- The set that a request stands for. The word `all` alone means every type; within
a list it is no type. The first unknown name is the error. -/
def canonical : TypeRequest → Except Error DependencyTypes
  | all => .ok .all
  | one name => if name == "all" then .ok .all else (readType name).map fun type => .ofList [type]
  | many names => (names.mapM readType).map .ofList

end TypeRequest

end PackageRecipes
