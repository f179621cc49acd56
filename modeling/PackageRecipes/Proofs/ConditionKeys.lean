import PackageRecipes.Condition
import PackageRecipes.Proofs.EquivalentConditions

/-! Two ways from the text of a condition to its key. A directive reads its condition when
it is declared and anchors it where it is recorded; an expression can also be read and
anchored at once. Both ways pass over white space and take an empty text for the condition
that always holds. The flag word `true` is known to the first way only: the second one
reads it as the name of a package. -/

namespace PackageRecipes

namespace Item

private theorem isNameCharacter_of_lower {c : Char} (named : isNameCharacter (Text.lower c) = true) :
    isNameCharacter c = true := by
  unfold Text.lower at named
  split at named
  next capital =>
    have letter : Text.isLetter c = true := by rw [Text.isLetter, capital, Bool.or_true]
    rw [isNameCharacter, Text.isAlphanumeric, letter]
    rfl
  next => exact named

end Item

namespace Spec

variable {expression owner : String}

private theorem isWord_of_sameIgnoringCase {text word : String} (same : Text.sameIgnoringCase text word = true)
    (spelled : IsWord (Text.lowerText word)) : IsWord text := by
  have letters : text.toList.map Text.lower = (Text.lowerText word).toList := by
    rw [Text.lowerText, String.toList_ofList]
    exact eq_of_beq same
  constructor
  · intro empty
    rw [empty] at letters
    exact spelled.nonempty letters.symm
  · intro c member
    refine Item.isNameCharacter_of_lower (spelled.characters _ ?_)
    rw [← letters]
    exact List.mem_map_of_mem member

private theorem toOption_parse_word {name : String} (word : IsWord name) :
    (parse name).toOption = some (named name) := by
  have scanned : Item.scan name.toList = [some (.word name)] := by
    have read := Item.scansAs_word word [] (Item.beginsWith_nil _)
    rwa [List.append_nil, Item.scan_nil] at read
  rw [toOption_parse, scanned]
  rfl

def onDependency (owner name : String) : Spec :=
  ⟨(named owner).node, onlyDependency (name, (named name).node)⟩

private theorem toOption_anchor_named (name owner : String) :
    ((named name).anchor owner).toOption = some (if name = owner then named owner else onDependency owner name) := by
  split
  next same =>
    subst same
    simp [anchor, named, ofNode, Except.toOption]
  next other =>
    have anchored : (named name).node.name = some name := rfl
    rw [toOption_anchor anchored other]
    rfl

end Spec

namespace Condition

variable {expression owner : String}

/-- The key under which `owner` records what stands under the condition. -/
def recordedOn (condition : Condition) (owner : String) : Except Error Spec := do
  anchorCondition (← condition.parse) owner

private theorem parse_ofText (enabled : isFlag expression "false" = false) :
    (ofText expression).parse =
      if isFlag expression "" || isFlag expression "true" then .ok none else (Spec.parse expression).map some := by
  rw [ofText, enabled]
  rfl

private theorem recordedOn_flag (enabled : isFlag expression "false" = false) (flag : isFlag expression "true" = true) :
    (ofText expression).recordedOn owner = .ok (.named owner) := by
  rw [recordedOn, parse_ofText enabled, flag, Bool.or_true]
  rfl

private theorem anonymous_flag (flag : isFlag expression "true" = true) :
    Spec.anonymous expression owner =
      .ok (if Text.trim expression = owner then .named owner else .onDependency owner (Text.trim expression)) := by
  have lowered : IsWord (Text.lowerText "true") := Spec.isWord_of_isIdentifier (by decide +kernel)
  have word := Spec.isWord_of_sameIgnoringCase flag lowered
  rw [← toOption_eq_some, Spec.toOption_anonymous, ← Spec.toOption_parse_trim, Spec.toOption_parse_word word,
    Option.bind_some, Spec.toOption_anchor_named]

private theorem anonymous_blank (blank : isFlag expression "" = true) :
    Spec.anonymous expression owner = .ok (.named owner) := by
  have empty : Text.trim expression = "" := by
    rw [← String.toList_eq_nil_iff, ← List.map_eq_nil_iff]
    exact eq_of_beq blank
  rw [Spec.anonymous, empty]
  rfl

/-- A text that is no flag word is anchored as every expression is. -/
private theorem toOption_recordedOn (enabled : isFlag expression "false" = false)
    (other : isFlag expression "true" = false) :
    ((ofText expression).recordedOn owner).toOption = (Spec.anonymous expression owner).toOption := by
  rw [recordedOn, parse_ofText enabled, other, Bool.or_false]
  split
  next blank =>
    rw [anonymous_blank blank]
    rfl
  next =>
    rw [Spec.toOption_anonymous, toOption_bind, toOption_map, Option.bind_map]
    rfl

private theorem onDependency_not_named (owner name : String) :
    (Spec.named owner == Spec.onDependency owner name) = false := by
  rw [Spec.beq_eq, Bool.and_eq_false_iff]
  exact .inr rfl

/-- The text of a condition has one key, however it gets there, unless it spells the flag
word `true`: as an expression this is a dependency on a package of that name. -/
theorem key_agrees_unless_flag (expression owner : String) (enabled : (ofText expression).isNever = false) :
    (SameOutcome ((ofText expression).recordedOn owner) (Spec.anonymous expression owner) ↔
      (isFlag expression "true" = true → Text.trim expression = owner)) ∧
    (isFlag expression "true" = true → Text.trim expression ≠ owner →
      (ofText expression).recordedOn owner = .ok (.named owner) ∧
        Spec.anonymous expression owner = .ok (.onDependency owner (Text.trim expression))) := by
  have disabled : isFlag expression "false" = false := by
    rw [← Bool.not_eq_true]
    intro disabled
    rw [ofText, disabled] at enabled
    cases enabled
  have differs : isFlag expression "true" = true → Text.trim expression ≠ owner →
      (ofText expression).recordedOn owner = .ok (.named owner) ∧
        Spec.anonymous expression owner = .ok (.onDependency owner (Text.trim expression)) := by
    intro flag other
    rw [recordedOn_flag disabled flag, anonymous_flag flag, if_neg other]
    exact ⟨rfl, rfl⟩
  refine ⟨⟨fun same flag => ?_, fun spelled => ?_⟩, differs⟩
  · by_contra other
    obtain ⟨recorded, read⟩ := differs flag other
    rw [SameOutcome, recorded, read] at same
    cases same with
    | some equal => exact Bool.false_ne_true ((onDependency_not_named owner _).symm.trans equal)
  · apply sameOutcome_of_toOption
    cases flag : isFlag expression "true" with
    | false => exact toOption_recordedOn disabled flag
    | true => rw [recordedOn_flag disabled flag, anonymous_flag flag, if_pos (spelled flag)]

/-- Around an expression that only some versions meet, white space does not matter. -/
theorem spaced_condition_has_one_key :
    (ofText " @1.2: ^mpi ").isNever = false ∧ ((ofText " @1.2: ^mpi ").recordedOn "app").isOk = true ∧
      SameOutcome ((ofText " @1.2: ^mpi ").recordedOn "app") (Spec.anonymous " @1.2: ^mpi " "app") := by
  have enabled : (ofText " @1.2: ^mpi ").isNever = false := by decide +kernel
  have plain : isFlag " @1.2: ^mpi " "true" = false := by decide +kernel
  refine ⟨enabled, by decide +kernel, ?_⟩
  refine (key_agrees_unless_flag " @1.2: ^mpi " "app" enabled).1.mpr fun flag => ?_
  rw [plain] at flag
  cases flag

/-- The flag word has two keys. -/
theorem flag_has_two_keys :
    ¬ ∀ expression owner, isIdentifier owner = true → (ofText expression).isNever = false →
      SameOutcome ((ofText expression).recordedOn owner) (Spec.anonymous expression owner) := by
  intro agree
  have same := agree "true" "app" (by decide +kernel) (by decide +kernel)
  have flag : isFlag "true" "true" = true := by decide +kernel
  rw [SameOutcome, recordedOn_flag (by decide +kernel) flag, anonymous_flag flag, if_neg (by decide +kernel)] at same
  cases same with
  | some equal => exact Bool.false_ne_true ((onDependency_not_named "app" _).symm.trans equal)

end Condition

end PackageRecipes
