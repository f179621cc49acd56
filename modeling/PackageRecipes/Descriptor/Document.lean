import PackageRecipes.Descriptor
import PackageRecipes.Json

/-! Descriptors as JSON documents. A map becomes an object whose names are the texts of
its keys, in the order of the map. -/

namespace PackageRecipes

def mapDocument {κ α : Type} [Ord κ] (keyText : κ → String) (document : α → Json)
    (map : OrderedMap κ α) : Json :=
  .object (map.entries.map fun (key, value) => (keyText key, document value))

def listDocument {α : Type} (document : α → Json) (items : List α) : Json :=
  .array (items.map document)

def Metadata.document : Metadata → Json :=
  mapDocument id Json.string

namespace DependencyTypes

def document (types : DependencyTypes) : Json :=
  listDocument (fun type => .string type.name) types.toList

end DependencyTypes

namespace Patch

def document (patch : Patch) : Json :=
  let source := match patch.source with
    | .file path => [("kind", .string "file"), ("path", .string path)]
    | .url url sha256 archiveSha256 =>
      [("kind", .string "url"), ("url", .string url), ("sha256", .optional sha256),
        ("archive_sha256", .optional archiveSha256)]
  .object [("owner", .string patch.owner), ("source", .object source), ("level", .number patch.level),
    ("workdir", .string patch.workdir)]

end Patch

def PatchMap.document : PatchMap → Json :=
  mapDocument Spec.text (listDocument Patch.document)

namespace Dependency

def document (dependency : Dependency) : Json :=
  .object [("target", .string dependency.target.text), ("types", dependency.types.document),
    ("patches", PatchMap.document dependency.patches)]

end Dependency

namespace Conflict

def document (conflict : Conflict) : Json :=
  .object [("when", .string conflict.when.text), ("msg", .optional conflict.message)]

end Conflict

namespace Variant

def document (variant : Variant) : Json :=
  let default := match variant.default with
    | .switch on => .boolean on
    | .text value => .string value
  .object [("default", default), ("description", .string variant.description),
    ("values", .string variant.domain.text), ("multi", .boolean variant.multi),
    ("validator", .boolean variant.check.isSome)]

end Variant

namespace Checksum

def document : Checksum → Json
  | sha256 digits => .object [("sha256", .string digits)]
  | md5 digits => .object [("md5", .string digits)]

end Checksum

namespace GitReference

def document : GitReference → Json
  | head => .string "default"
  | tag name => .object [("tag", .string name)]
  | branch name => .object [("branch", .string name)]
  | commit hash => .object [("commit", .string hash)]

end GitReference

namespace FetchStrategy

def document : FetchStrategy → Json
  | url location checksum expand =>
    .object [("kind", .string "url"), ("url", .string location),
      ("checksum", (checksum.map Checksum.document).getD .null), ("expand", .boolean expand)]
  | git repository reference =>
    .object [("kind", .string "git"), ("repository", .string repository),
      ("reference", reference.document)]
  | hg repository revision =>
    .object [("kind", .string "hg"), ("repository", .string repository),
      ("revision", .optional revision)]
  | svn repository revision =>
    .object [("kind", .string "svn"), ("repository", .string repository),
      ("revision", .optional revision)]

end FetchStrategy

namespace Resource

def document (resource : Resource) : Json :=
  .object [("name", .optional resource.name), ("fetcher", resource.strategy.document),
    ("destination", .string resource.destination), ("placement", .optional resource.placement)]

end Resource

namespace Descriptor

def document (descriptor : Descriptor) : Json :=
  .object [
    ("name", .string descriptor.name),
    ("versions", mapDocument Version.text Metadata.document descriptor.versions),
    ("dependencies", mapDocument id (mapDocument Spec.text Dependency.document) descriptor.dependencies),
    ("conflicts", mapDocument Spec.text (listDocument Conflict.document) descriptor.conflicts),
    ("provided", mapDocument Spec.text
      (fun conditions => listDocument (fun condition => .string condition.text) conditions.keys)
      descriptor.provided),
    ("variants", mapDocument id Variant.document descriptor.variants),
    ("patches", PatchMap.document descriptor.patches),
    ("resources", mapDocument Spec.text (listDocument Resource.document) descriptor.resources),
    ("extendees", mapDocument id
      (fun (target, options) => .array [.string target.text, Metadata.document options])
      descriptor.extendees)]

end Descriptor

end PackageRecipes
