import PackageRecipes.Text

/-! Reading the words of a command line by the shape of what they may be. Options
stand anywhere, until the word `--` after which all words are taken as they are;
the value of an option follows it or is attached to it. -/

namespace PackageRecipes.CommandLine

inductive Form where
  | flag
  | option
  | word
  | words
  deriving DecidableEq

structure Argument where
  name : String
  short : Option Char
  form : Form
  isPath : Bool
  deriving DecidableEq

/-- What may stand on one level of a command line: options, words in their order and,
after those, the name of a command. -/
structure Shape where
  options : List Argument
  positionals : List Argument
  commands : List String

inductive UsageFault where
  | argumentMissing
  | argumentUnknown
  | argumentRepeated
  | commandUnknown
  | valueInvalid
  | valueUnexpected
  deriving DecidableEq

namespace UsageFault

def message : UsageFault → String
  | argumentMissing => "a required argument is missing"
  | argumentUnknown => "an argument is not known"
  | argumentRepeated => "an argument is given more than once"
  | commandUnknown => "the command is not known"
  | valueInvalid => "an argument lacks its value"
  | valueUnexpected => "a flag takes no value"

end UsageFault

abbrev Values := List (String × List String)

/-- How far reading has come. An argument is pending until the next one begins; an
option without a value yet waits for it. -/
structure Reading where
  values : Values
  pending : Option (Argument × List String)
  expected : List Argument
  isVerbatim : Bool

namespace Values

def find? (values : Values) (name : String) : Option (List String) :=
  values.lookup name

/-- The value of an argument that has one at most. -/
def single? (values : Values) (name : String) : Option String :=
  (values.find? name).bind (·.head?)

def isSet (values : Values) (name : String) : Bool :=
  (values.find? name).isSome

def record (values : Values) (name : String) (more : List String) : Values :=
  let earlier := (values.find? name).getD []
  (name, earlier ++ more) :: values.filter (·.1 != name)

end Values

namespace Reading

def start (shape : Shape) : Reading :=
  ⟨[], none, shape.positionals, false⟩

def waiting (reading : Reading) : Bool :=
  match reading.pending with
  | some (_, values) => values.isEmpty && !reading.isVerbatim
  | none => false

/-- Completes the pending argument. Only a list of words may be continued, and only a
path must not be empty. -/
def settle (reading : Reading) : Except UsageFault Reading :=
  match reading.pending with
  | none => .ok reading
  | some (argument, values) =>
    if values.isEmpty then .error .valueInvalid
    else if argument.form != .words && reading.values.isSet argument.name then
      .error .argumentRepeated
    else if argument.isPath && values.any (·.isEmpty) then .error .valueInvalid
    else .ok { reading with
      values := reading.values.record argument.name values
      pending := none }

def setFlag (reading : Reading) (argument : Argument) : Except UsageFault Reading := do
  let settled ← reading.settle
  if settled.values.isSet argument.name then throw .argumentRepeated
  return { settled with values := settled.values.record argument.name [] }

def beginOption (reading : Reading) (argument : Argument) (attached : Option String) :
    Except UsageFault Reading := do
  let settled ← reading.settle
  let begun := { settled with pending := some (argument, attached.toList) }
  if attached.isSome then begun.settle else return begun

def long (shape : Shape) (reading : Reading) (body : List Char) : Except UsageFault Reading :=
  let (name, attached) := match Text.cutOnce '=' body with
    | some (name, value) => (name, some (String.ofList value))
    | none => (body, none)
  match shape.options.find? fun argument => argument.name.toList == name with
  | none => .error .argumentUnknown
  | some argument =>
    if argument.form == .option then reading.beginOption argument attached
    else if attached.isSome then .error .valueUnexpected
    else reading.setFlag argument

/-- Reads the letters after one dash: flags, and at the end perhaps an option. -/
def letters (shape : Shape) (reading : Reading) : List Char → Except UsageFault Reading
  | [] => .ok reading
  | letter :: rest =>
    match shape.options.find? fun argument => argument.short == some letter with
    | none => .error .argumentUnknown
    | some argument =>
      if argument.form == .option then
        reading.beginOption argument <| match rest with
          | [] => none
          | '=' :: value => some (String.ofList value)
          | value => some (String.ofList value)
      else do letters shape (← reading.setFlag argument) rest

def supply (reading : Reading) (value : String) : Reading :=
  { reading with
    pending := reading.pending.map fun (argument, values) => (argument, values ++ [value]) }

def word (shape : Shape) (reading : Reading) (value : String) : Except UsageFault Reading :=
  match reading.expected with
  | [] =>
    if shape.commands.isEmpty || (reading.isVerbatim && shape.commands.contains value) then
      .error .argumentUnknown
    else .error .commandUnknown
  | argument :: others =>
    if reading.pending.any (·.1 == argument) then .ok (reading.supply value)
    else do
      let settled ← reading.settle
      return { settled with
        pending := some (argument, [value])
        expected := if argument.form == .words then reading.expected else others }

/-- Reads words up to the name of a command, which is given with the words after it. -/
def readAll (shape : Shape) (reading : Reading) :
    List String → Except UsageFault (Reading × Option (String × List String))
  | [] => .ok (reading, none)
  | value :: rest =>
    if reading.isVerbatim then do readAll shape (← reading.word shape value) rest
    else if !reading.waiting && shape.commands.contains value then .ok (reading, some (value, rest))
    else match value.toList with
      | ['-', '-'] => readAll shape { reading with isVerbatim := true } rest
      | '-' :: '-' :: body => do readAll shape (← reading.long shape body) rest
      | '-' :: letter :: more => do
        readAll shape (← reading.letters shape (letter :: more)) rest
      | _ =>
        if reading.waiting then readAll shape (reading.supply value) rest
        else do readAll shape (← reading.word shape value) rest

end Reading

end PackageRecipes.CommandLine
