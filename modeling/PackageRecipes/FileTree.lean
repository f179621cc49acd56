import PackageRecipes.OrderedMap
import PackageRecipes.Path

/-! Directories as values. Commands read recipes and settings from what lies at a
path, so that they can be run on any directory, a real one or not. -/

namespace PackageRecipes

/-- A file with its text, or with the reason why it has none to read, or a directory
with its entries in the order of their names. -/
inductive FileTree where
  | file (content : Except String String)
  | directory (entries : List (String × FileTree))

inductive FileFault where
  | missing
  | notDirectory
  | isDirectory
  | unreadable (reason : String)
  deriving DecidableEq

abbrev Files := String → Except FileFault FileTree

namespace FileFault

def message : FileFault → String
  | missing => "No such file or directory (os error 2)"
  | notDirectory => "Not a directory (os error 20)"
  | isDirectory => "Is a directory (os error 21)"
  | unreadable reason => reason

end FileFault

namespace FileTree

def empty : FileTree := directory []

def add (content : Except String String) : List String → FileTree → FileTree
  | [], _ => file content
  | name :: rest, directory entries =>
    directory (OrderedMap.upsertEntry name (fun old => add content rest (old.getD empty)) entries)
  | name :: rest, file _ => directory [(name, add content rest empty)]

/-- Walks along the parts of a path. Only a directory has anything below it or above
it, even where a part names the directory itself. -/
def walk (above : List FileTree) (here : FileTree) :
    List (List Char) → Except FileFault FileTree
  | [] => .ok here
  | part :: rest =>
    match here with
    | file _ => .error .notDirectory
    | directory entries =>
      if Path.isSilent part then walk above here rest
      else if part == ['.', '.'] then
        match above with
        | [] => walk [] here rest
        | parent :: higher => walk higher parent rest
      else match OrderedMap.lookup? (String.ofList part) entries with
        | some next => walk (here :: above) next rest
        | none => .error .missing

def find (tree : FileTree) : Files := fun path =>
  if path.isEmpty || Path.isAbsolute path then .error .missing
  else walk [] tree (Text.fields '/' path.toList)

mutual

/-- The files of a tree with their paths, entry by entry. -/
def files (path : String) : FileTree → List (String × Except String String)
  | file content => [(path, content)]
  | directory entries => entryFiles path entries

def entryFiles (path : String) :
    List (String × FileTree) → List (String × Except String String)
  | [] => []
  | (name, tree) :: rest => files (Path.join path name) tree ++ entryFiles path rest

end

end FileTree

namespace Files

def read (files : Files) (path : String) : Except FileFault String :=
  match files path with
  | .ok (.file (.ok text)) => .ok text
  | .ok (.file (.error reason)) => .error (.unreadable reason)
  | .ok (.directory _) => .error .isDirectory
  | .error fault => .error fault

end Files

end PackageRecipes
