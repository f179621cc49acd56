import PackageRecipes.Error
import PackageRecipes.Url

/-! How the source of a resource is fetched. One key says where it lies and thereby
picks the strategy; the others refine it. -/

namespace PackageRecipes

structure FetchArguments where
  url : Option String
  git : Option String
  hg : Option String
  svn : Option String
  tag : Option String
  branch : Option String
  commit : Option String
  revision : Option String
  sha256 : Option String
  md5 : Option String
  expand : Option Bool
  deriving DecidableEq

namespace FetchArguments

def none : FetchArguments :=
  ⟨.none, .none, .none, .none, .none, .none, .none, .none, .none, .none, .none⟩

end FetchArguments

inductive GitReference where
  | head
  | tag (name : String)
  | branch (name : String)
  | commit (hash : String)
  deriving DecidableEq

inductive Checksum where
  | sha256 (digits : String)
  | md5 (digits : String)
  deriving DecidableEq

inductive FetchStrategy where
  | url (location : String) (checksum : Option Checksum) (expand : Bool)
  | git (repository : String) (reference : GitReference)
  | hg (repository : String) (revision : Option String)
  | svn (repository : String) (revision : Option String)
  deriving DecidableEq

inductive SourceKey where
  | url
  | git
  | hg
  | svn
  deriving DecidableEq

namespace SourceKey

def name : SourceKey → String
  | url => "url"
  | git => "git"
  | hg => "hg"
  | svn => "svn"

end SourceKey

namespace FetchArguments

def sources (arguments : FetchArguments) : List (SourceKey × String) :=
  [(SourceKey.url, arguments.url), (.git, arguments.git), (.hg, arguments.hg),
    (.svn, arguments.svn)].filterMap fun (key, location) => location.map fun text => (key, text)

def references (arguments : FetchArguments) : List GitReference :=
  (arguments.tag.map GitReference.tag).toList ++ (arguments.branch.map GitReference.branch).toList ++
    (arguments.commit.map GitReference.commit).toList

def checksum (arguments : FetchArguments) : Except Error (Option Checksum) :=
  match arguments.sha256, arguments.md5 with
  | some _, some _ => .error (.fetchConflict .checksums)
  | some digits, .none => .ok (some (.sha256 digits))
  | .none, some digits => .ok (some (.md5 digits))
  | .none, .none => .ok .none

def reference (arguments : FetchArguments) : Except Error GitReference :=
  match arguments.references with
  | [] => .ok .head
  | [reference] => .ok reference
  | _ => .error (.fetchConflict .references)

def location (text : String) : Except Error String :=
  match Url.parse text with
  | .ok url => .ok url.text
  | .error fault => .error (.fetch (.locationInvalid text fault))

/-- The strategy that the arguments select. Exactly one location has to be given. -/
def strategy (arguments : FetchArguments) : Except Error FetchStrategy :=
  match arguments.sources with
  | [] => .error (.fetch .sourceMissing)
  | [(.url, text)] => do
    let checksum ← arguments.checksum
    return .url (← location text) checksum (arguments.expand.getD true)
  | [(.git, text)] => do
    let reference ← arguments.reference
    return .git (← location text) reference
  | [(.hg, text)] => return .hg (← location text) arguments.revision
  | [(.svn, text)] => return .svn (← location text) arguments.revision
  | sources => .error (.fetchConflict (.sources (sources.map fun (key, _) => key.name)))

end FetchArguments

end PackageRecipes
