import PackageRecipes.Text

/-! Unix paths as texts. Repeated slashes, a slash at the end and `.` after the
beginning do not count; `..` is kept, as a symbolic link may lie before it. -/

namespace PackageRecipes

namespace Path

/-- One step of a path. `here` occurs only at the beginning of a relative path. -/
inductive Component where
  | root
  | here
  | up
  | down (name : List Char)
  deriving DecidableEq

def isAbsolute (path : String) : Bool :=
  path.toList.head? == some '/'

/-- The steps that the parts between slashes stand for, the first part aside. -/
def steps (parts : List (List Char)) : List Component :=
  parts.filterMap fun part =>
    if part.isEmpty || part == ['.'] then none
    else if part == ['.', '.'] then some .up
    else some (.down part)

def components (path : String) : List Component :=
  let parts := Text.fields '/' path.toList
  if isAbsolute path then .root :: steps parts
  else if parts.head? == some ['.'] then .here :: steps parts
  else steps parts

def join (directory relative : String) : String :=
  if isAbsolute relative || directory.isEmpty then relative
  else if directory.toList.getLast? == some '/' then directory ++ relative
  else directory ++ "/" ++ relative

/-- Where the lexical walk along a path has come to: components from the root of
the walk. Going up from the root or from nothing is refused. -/
def parent? (position : List Component) : Option (List Component) :=
  match position.getLast? with
  | none | some .root => none
  | some _ => some position.dropLast

/-- A part between slashes that names no component, unless it begins the path. -/
def isSilent (part : List Char) : Bool :=
  part.isEmpty || part == ['.']

/-- The parts without those at the end that name no component. The first part
stays: it is the root of an absolute path or the beginning of a relative one. -/
def trimParts : List (List Char) → List (List Char)
  | [] => []
  | first :: rest => first :: (rest.reverse.dropWhile isSilent).reverse

/-- The directory that holds the path's last component, as the path spells it. -/
def directory (path : String) : String :=
  match (trimParts (trimParts (Text.fields '/' path.toList)).dropLast) with
  | [] => ""
  | [[]] => "/"
  | parts => String.ofList (['/'].intercalate parts)

/-- The last component of a path, unless that is no name. -/
def fileName? (path : String) : Option (List Char) :=
  match (components path).getLast? with
  | some (.down name) => some name
  | _ => none

/-- What follows the last dot of the file name. A name with no dot but perhaps its
first character has no extension. -/
def extension? (path : String) : Option (List Char) := do
  let name ← fileName? path
  let after := name.reverse.takeWhile (· != '.')
  let before := (name.reverse.dropWhile (· != '.')).drop 1
  if before.isEmpty then none else some after.reverse

end Path

/-- A directory as a text spells it. Spellings with the same components are equal. -/
structure Directory where
  text : String

namespace Directory

instance : BEq Directory :=
  ⟨fun left right => Path.components left.text == Path.components right.text⟩

def ofFile (path : String) : Directory := ⟨Path.directory path⟩

def file (directory : Directory) (relative : String) : String :=
  Path.join directory.text relative

end Directory

end PackageRecipes
