import PackageRecipes.CommandLine.Arguments

/-! The commands and their arguments. -/

namespace PackageRecipes.CommandLine

inductive Command where
  | describe (directory package : String) (asJson : Bool)
  | check (directory : String) (withWarnings : Bool)
  | layers (directory : String)
  | types (names : List String)
  | spec (expression : String) (owner : Option String)
  deriving DecidableEq

structure Invocation where
  config : Option String
  command : Option Command
  deriving DecidableEq

inductive CommandKind where
  | describe
  | check
  | layers
  | types
  | spec
  deriving DecidableEq

def configOption : Argument := ⟨"config", some 'c', .option, true⟩

def directoryWord : Argument := ⟨"recipe_dir", none, .word, true⟩

namespace CommandKind

def all : List CommandKind := [describe, check, layers, types, spec]

def name : CommandKind → String
  | describe => "show"
  | check => "check"
  | layers => "layers"
  | types => "deptype"
  | spec => "spec"

def ofName? (name : String) : Option CommandKind :=
  all.find? fun kind => kind.name == name

/-- The settings file may be named before the command or after it. -/
def shape : CommandKind → Shape
  | describe =>
    ⟨[configOption, ⟨"json", none, .flag, false⟩],
      [directoryWord, ⟨"package", none, .word, false⟩], []⟩
  | check => ⟨[configOption, ⟨"warnings", some 'w', .flag, false⟩], [directoryWord], []⟩
  | layers => ⟨[configOption], [directoryWord], []⟩
  | types => ⟨[configOption], [⟨"types", none, .words, false⟩], []⟩
  | spec =>
    ⟨[configOption, ⟨"owner", none, .option, false⟩], [⟨"expr", none, .word, false⟩], []⟩

end CommandKind

def required (values : Values) (name : String) : Except UsageFault String :=
  match values.single? name with
  | some value => .ok value
  | none => .error .argumentMissing

namespace Command

def ofValues (values : Values) : CommandKind → Except UsageFault Command
  | .describe => do
    let directory ← required values "recipe_dir"
    let package ← required values "package"
    return .describe directory package (values.isSet "json")
  | .check => do
    let directory ← required values "recipe_dir"
    return .check directory (values.isSet "warnings")
  | .layers => do
    let directory ← required values "recipe_dir"
    return .layers directory
  | .types => return .types ((values.find? "types").getD [])
  | .spec => do
    let expression ← required values "expr"
    return .spec expression (values.single? "owner")

end Command

namespace Invocation

/-- Options may stand before the name of a command. -/
def shape : Shape := ⟨[configOption], [], CommandKind.all.map (·.name)⟩

def readCommand (kind : CommandKind) (words : List String) : Except UsageFault (Values × Command) := do
  let (reading, _) ← (Reading.start kind.shape).readAll kind.shape words
  let settled ← reading.settle
  return (settled.values, ← Command.ofValues settled.values kind)

/-- Reads a command line. A settings file named behind the command counts before one
named in front of it. -/
def parse (words : List String) : Except UsageFault Invocation := do
  let (reading, rest) ← (Reading.start shape).readAll shape words
  match rest.bind fun (name, words) => (CommandKind.ofName? name).map fun kind => (kind, words) with
  | none => return ⟨(← reading.settle).values.single? "config", none⟩
  | some (kind, words) =>
    let (values, command) ← readCommand kind words
    let outer := (← reading.settle).values
    return ⟨values.single? "config" <|> outer.single? "config", some command⟩

end Invocation

end PackageRecipes.CommandLine
