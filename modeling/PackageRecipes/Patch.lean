import PackageRecipes.Error
import PackageRecipes.Path
import PackageRecipes.Text
import PackageRecipes.Url

/-! Patches: a file beside the recipe, or a URL with the checksums that pin it. -/

namespace PackageRecipes

structure PatchDetails where
  sha256 : Option String
  archiveSha256 : Option String
  workdir : Option String
  deriving DecidableEq

namespace PatchDetails

def none : PatchDetails := ⟨.none, .none, .none⟩

end PatchDetails

inductive PatchSource where
  | file (path : String)
  | url (url : String) (sha256 archiveSha256 : Option String)
  deriving DecidableEq

structure Patch where
  owner : String
  source : PatchSource
  level : Nat
  workdir : String
  deriving DecidableEq

/-- A locator with a scheme in it is a URL; any other is a path. -/
def isRemoteLocator (locator : String) : Bool :=
  Text.contains "://".toList locator.toList

/-- Endings of URL paths that lead to an archive around the patch. -/
def archiveEndings : List String := [".gz", ".bz2", ".xz", ".tgz", ".tar", ".zip"]

namespace PatchSource

def isArchive (path : List Char) : Bool :=
  archiveEndings.any fun ending => ending.toList.isSuffixOf (path.map Text.lower)

def ofUrl (locator : String) (details : PatchDetails) : Except PatchFault PatchSource :=
  match Url.parse locator with
  | .error fault => .error (.url fault)
  | .ok location =>
    if isArchive location.path && details.archiveSha256.isNone then .error .archiveChecksumMissing
    else .ok (.url location.text details.sha256 details.archiveSha256)

/-- A patch file, relative to the recipe's directory if that is known. -/
def ofPath (locator : String) (details : PatchDetails) (directory : Option Directory) :
    Except PatchFault PatchSource :=
  if Text.isBlankText locator then .error .locatorEmpty
  else if Path.isAbsolute locator then .error .pathAbsolute
  else if details.archiveSha256.isSome then .error .archiveChecksumOnFile
  else .ok (.file (match directory with
    | some directory => directory.file locator
    | none => locator))

def ofLocator (locator : String) (details : PatchDetails) (directory : Option Directory) :
    Except PatchFault PatchSource :=
  if isRemoteLocator locator then ofUrl locator details else ofPath locator details directory

end PatchSource

namespace Patch

/-- The patch on the source of `owner` that a locator leads to. It is applied in the
source's own directory unless another is given. -/
def create (owner locator : String) (level : Nat) (details : PatchDetails)
    (directory : Option Directory) : Except Error Patch :=
  match PatchSource.ofLocator locator details directory with
  | .ok source => .ok ⟨owner, source, level, details.workdir.getD "."⟩
  | .error fault => .error (.patch locator fault)

def locator (patch : Patch) : String :=
  match patch.source with
  | .file path => path
  | .url url _ _ => url

end Patch

end PackageRecipes
