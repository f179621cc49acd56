import PackageRecipes.Spec
import PackageRecipes.Text

/-! The items that a constraint expression is written in. Each begins with a sign of
its own or is a word; white space may stand between them and changes nothing. -/

namespace PackageRecipes

/-- One item of an expression. What follows a sign may be at fault, which matters
only once the items before it have been taken in. -/
inductive Item where
  | versions (list : Except SpecFault VersionList)
  | variant (setting : Except SpecFault (String × VariantSetting))
  | compiler (constraint : Except SpecFault CompilerSpec)
  | word (name : String)
  | stray (character : Char)

namespace Item

def isNameCharacter (c : Char) : Bool :=
  Text.isAlphanumeric c || c == '_' || c == '-'

def isVersionCharacter (c : Char) : Bool :=
  isNameCharacter c || c == '.' || c == ':' || c == ','

def isValueCharacter (c : Char) : Bool :=
  isNameCharacter c || c == '.' || c == ',' || c == '/'

def readName (role : NameRole) (characters : List Char) : Except SpecFault String :=
  if characters.isEmpty then .error (.nameExpected role) else .ok (String.ofList characters)

def readVersions (characters : List Char) : Except SpecFault VersionList :=
  if characters.isEmpty then .error .versionsExpected
  else
    let text := String.ofList characters
    (VersionList.parse text).mapError fun _ => .versionListInvalid text

def readSwitch (on : Bool) (characters : List Char) :
    Except SpecFault (String × VariantSetting) :=
  (readName .variant characters).map fun name => (name, .enabled on)

def readValue (name : String) (characters : List Char) :
    Except SpecFault (String × VariantSetting) :=
  if characters.isEmpty then .error (.valueMissing name)
  else .ok (name, .ofText (String.ofList characters))

/-- A compiler's versions follow its name at once or not at all. -/
def readCompiler (name : List Char) (versions : Option (List Char)) :
    Except SpecFault CompilerSpec := do
  let name ← readName .compiler name
  match versions with
  | some characters => return ⟨name, ← readVersions characters⟩
  | none => return ⟨name, .any⟩

/-- The items of a text in order, with `none` where a `^` begins a clause on a
dependency. -/
def scan (text : List Char) : List (Option Item) :=
  match _found : text.dropWhile Text.isBlank with
  | [] => []
  | '^' :: rest => none :: scan rest
  | '@' :: rest =>
    let list := rest.dropWhile Text.isBlank
    some (versions (readVersions (list.takeWhile isVersionCharacter))) ::
      scan (list.dropWhile isVersionCharacter)
  | '+' :: rest =>
    let name := rest.dropWhile Text.isBlank
    some (variant (readSwitch true (name.takeWhile isNameCharacter))) ::
      scan (name.dropWhile isNameCharacter)
  | '~' :: rest =>
    let name := rest.dropWhile Text.isBlank
    some (variant (readSwitch false (name.takeWhile isNameCharacter))) ::
      scan (name.dropWhile isNameCharacter)
  | '%' :: rest =>
    let name := rest.dropWhile Text.isBlank
    match _next : name.dropWhile isNameCharacter with
    | '@' :: after =>
      let list := after.dropWhile Text.isBlank
      some (compiler (readCompiler (name.takeWhile isNameCharacter)
        (some (list.takeWhile isVersionCharacter)))) ::
        scan (list.dropWhile isVersionCharacter)
    | after => some (compiler (readCompiler (name.takeWhile isNameCharacter) none)) :: scan after
  | c :: rest =>
    if isNameCharacter c then
      let name := c :: rest.takeWhile isNameCharacter
      match _next : rest.dropWhile isNameCharacter with
      | '=' :: value =>
        some (variant (readValue (String.ofList name) (value.takeWhile isValueCharacter))) ::
          scan (value.dropWhile isValueCharacter)
      | after => some (word (String.ofList name)) :: scan after
    else some (stray c) :: scan rest
termination_by text.length
decreasing_by
  all_goals
    have whole := Text.length_dropWhile_le Text.isBlank text
    rw [_found] at whole
    simp only [List.length_cons] at whole
  · omega
  · have blank := Text.length_dropWhile_le Text.isBlank rest
    have run := Text.length_dropWhile_le isVersionCharacter (rest.dropWhile Text.isBlank)
    omega
  · have blank := Text.length_dropWhile_le Text.isBlank rest
    have run := Text.length_dropWhile_le isNameCharacter (rest.dropWhile Text.isBlank)
    omega
  · have blank := Text.length_dropWhile_le Text.isBlank rest
    have run := Text.length_dropWhile_le isNameCharacter (rest.dropWhile Text.isBlank)
    omega
  · have blank := Text.length_dropWhile_le Text.isBlank rest
    have run := Text.length_dropWhile_le isNameCharacter (rest.dropWhile Text.isBlank)
    have later := Text.length_dropWhile_le Text.isBlank after
    have last := Text.length_dropWhile_le isVersionCharacter (after.dropWhile Text.isBlank)
    rw [_next] at run
    simp only [List.length_cons] at run
    omega
  · have blank := Text.length_dropWhile_le Text.isBlank rest
    have run := Text.length_dropWhile_le isNameCharacter (rest.dropWhile Text.isBlank)
    rw [_next] at run
    omega
  · have run := Text.length_dropWhile_le isNameCharacter rest
    have last := Text.length_dropWhile_le isValueCharacter value
    rw [_next] at run
    simp only [List.length_cons] at run
    omega
  · have run := Text.length_dropWhile_le isNameCharacter rest
    rw [_next] at run
    omega
  · omega

def clauses : List (Option Item) → List Item × List (List Item)
  | [] => ([], [])
  | none :: rest =>
    let (first, others) := clauses rest
    ([], first :: others)
  | some item :: rest =>
    let (first, others) := clauses rest
    (item :: first, others)

end Item

end PackageRecipes
