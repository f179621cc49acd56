import PackageRecipes.Recipe
import PackageRecipes.Toml.Document
import PackageRecipes.Toml.Printer
import PackageRecipes.Toml.Value

/-! The recipe file: a TOML document with a table about the package and an array of
tables for each kind of directive. Keys that no table has are refused. -/

namespace PackageRecipes

open Toml

def decodeCondition : Decoder Condition
  | .boolean enabled => some (.ofFlag enabled)
  | .string text => some (.ofText text)
  | _ => none

/-- A condition that is left out always holds. -/
def whenField : Option Value → Option Condition :=
  withDefault .always decodeCondition

def decodeTypes : Decoder TypeRequest
  | .string name => some (.one name)
  | value => (Value.list? Value.string? value).map .many

def decodeVariantValue : Decoder VariantValue
  | .boolean on => some (.switch on)
  | .string text => some (.text text)
  | _ => none

/-- What a version's free key says: a string as it is, a date-time as the table that
stands for it, any other value as its text. -/
def metadataText : Value → String
  | .string text => text
  | .date text => (Value.table [dateEntry text]).text
  | value => value.text

def decodeMetadata (entries : List (String × Value)) : Option Metadata := do
  let texts ← entries.mapM fun (key, value) => do
    return (key, metadataText (← value.withDates?))
  return .ofList texts

def decodeVersion : Decoder VersionArguments
  | .table entries => do
    let version ← required Value.string? (Value.find? "id" entries)
    let checksum ← optional Value.string? (Value.find? "checksum" entries)
    let free := entries.filter fun entry => entry.1 != "id" && entry.1 != "checksum"
    return ⟨version, checksum, ← decodeMetadata free⟩
  | _ => none

def decodePatch : Decoder PatchArguments := fun value => do
  match ← value.fields? ["file", "level", "when", "sha256", "archive_sha256", "workdir"] with
  | [file, level, when, sha256, archiveSha256, workdir] =>
    let locator ← required Value.string? file
    let level ← withDefault 1 Value.word? level
    let when ← whenField when
    let sha256 ← optional Value.string? sha256
    let archiveSha256 ← optional Value.string? archiveSha256
    let workdir ← optional Value.string? workdir
    return ⟨locator, level, when, ⟨sha256, archiveSha256, workdir⟩⟩
  | _ => none

def decodeDependency : Decoder DependencyArguments := fun value => do
  match ← value.fields? ["spec", "when", "type", "patches"] with
  | [spec, when, types, patches] =>
    let target ← required Value.string? spec
    let when ← whenField when
    let types ← optional decodeTypes types
    let patches ← withDefault [] (Value.list? decodePatch) patches
    return ⟨target, when, types, patches⟩
  | _ => none

def decodeExtension : Decoder ExtensionArguments := fun value => do
  match ← value.fields? ["spec", "when", "options"] with
  | [spec, when, options] =>
    let target ← required Value.string? spec
    let when ← whenField when
    let options ← withDefault [] (Value.entries? Value.string?) options
    return ⟨target, when, .ofList options⟩
  | _ => none

def decodeConflict : Decoder ConflictArguments := fun value => do
  match ← value.fields? ["spec", "when", "msg"] with
  | [spec, when, message] =>
    let expression ← required Value.string? spec
    let when ← whenField when
    let message ← optional Value.string? message
    return ⟨expression, when, message⟩
  | _ => none

def decodeProvision : Decoder ProvisionArguments := fun value => do
  match ← value.fields? ["virtuals", "when"] with
  | [virtuals, when] =>
    let virtuals ← required (Value.list? Value.string?) virtuals
    let when ← whenField when
    return ⟨virtuals, when⟩
  | _ => none

def decodeVariant : Decoder VariantArguments := fun value => do
  match ← value.fields? ["name", "default", "description", "values", "multi"] with
  | [name, default, description, values, multi] =>
    let name ← required Value.string? name
    let default ← optional decodeVariantValue default
    let description ← withDefault "" Value.string? description
    let values ← optional (Value.list? Value.string?) values
    let multi ← withDefault false Value.boolean? multi
    let domain := values.map fun allowed => VariantDomain.oneOf (OrderedSet.ofList allowed)
    return ⟨name, default, description, domain, multi, none⟩
  | _ => none

def decodeFetch : Decoder FetchArguments := fun value => do
  let text := optional Value.string?
  match ← value.fields? ["url", "git", "hg", "svn", "tag", "branch", "commit", "revision", "sha256",
      "md5", "expand"] with
  | [url, git, hg, svn, tag, branch, commit, revision, sha256, md5, expand] =>
    return ⟨← text url, ← text git, ← text hg, ← text svn, ← text tag, ← text branch, ← text commit,
      ← text revision, ← text sha256, ← text md5, ← optional Value.boolean? expand⟩
  | _ => none

def decodeResource : Decoder ResourceArguments := fun value => do
  match ← value.fields? ["name", "when", "destination", "placement", "fetch"] with
  | [name, when, destination, placement, fetch] =>
    let name ← optional Value.string? name
    let when ← whenField when
    let destination ← withDefault "" Value.string? destination
    let placement ← optional Value.string? placement
    let fetch ← required decodeFetch fetch
    return ⟨name, when, destination, placement, fetch⟩
  | _ => none

structure PackageSection where
  name : String
  isAbstract : Bool
  bases : List String
  description : Option String
  homepage : Option String

def decodePackage : Decoder PackageSection := fun value => do
  match ← value.fields? ["name", "abstract", "bases", "description", "homepage"] with
  | [name, isAbstract, bases, description, homepage] =>
    let name ← required Value.string? name
    let isAbstract ← withDefault false Value.boolean? isAbstract
    let bases ← withDefault [] (Value.list? Value.string?) bases
    let description ← optional Value.string? description
    let homepage ← optional Value.string? homepage
    return ⟨name, isAbstract, bases, description, homepage⟩
  | _ => none

def decodeRecipe (document : List (String × Value)) : Option Recipe := do
  match ← Value.fields? ["package", "version", "depends_on", "extends", "conflicts", "provides", "patch",
      "variant", "resource"] (.table document) with
  | [package, versions, dependencies, extensions, conflicts, provisions, patches, variants,
      resources] =>
    let package ← required decodePackage package
    return {
      name := package.name
      isAbstract := package.isAbstract
      bases := package.bases
      description := package.description
      homepage := package.homepage
      versions := ← withDefault [] (Value.list? decodeVersion) versions
      dependencies := ← withDefault [] (Value.list? decodeDependency) dependencies
      extensions := ← withDefault [] (Value.list? decodeExtension) extensions
      conflicts := ← withDefault [] (Value.list? decodeConflict) conflicts
      provisions := ← withDefault [] (Value.list? decodeProvision) provisions
      patches := ← withDefault [] (Value.list? decodePatch) patches
      variants := ← withDefault [] (Value.list? decodeVariant) variants
      resources := ← withDefault [] (Value.list? decodeResource) resources }
  | _ => none

namespace Recipe

def ofText (text : String) : Except Error Recipe :=
  match (Toml.parse text).bind decodeRecipe with
  | some recipe => .ok recipe
  | none => .error (.recipe .malformed)

end Recipe

end PackageRecipes
