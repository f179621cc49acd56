import PackageRecipes.Proofs.ScannedText

/-! How the parts of an expression can be spelled. White space may stand between them and
behind their signs. It has to only where one part would go on with what follows it. -/

namespace PackageRecipes
open Item

inductive Part where
  | versions (list : String)
  | switch (on : Bool) (name : String)
  | value (name list : String)
  | compiler (name : String) (versions : Option String)

/-- What an expression is made of: signs that begin clauses, names of packages and
constraints. -/
inductive Token where
  | clause
  | name (text : String)
  | part (constraint : Part)

namespace Part

def item : Part → Item
  | .versions list => .versions (readVersions list.toList)
  | .switch on name => .variant (readSwitch on name.toList)
  | .value name list => .variant (readValue name list.toList)
  | .compiler name list => .compiler (readCompiler name.toList (list.map String.toList))

def continues : Part → Char → Bool
  | .versions _ => isVersionCharacter
  | .switch _ _ => isNameCharacter
  | .value _ _ => isValueCharacter
  | .compiler _ none => fun c => isNameCharacter c || c == '@'
  | .compiler _ (some _) => isVersionCharacter

/-- The text is that of a well-formed part, maybe with white space behind its signs. -/
inductive Writes : Part → List Char → Prop where
  | versions {list : String} {gap : List Char} (blank : IsGap gap) (nonempty : list.toList ≠ [])
      (inside : ∀ c ∈ list.toList, isVersionCharacter c = true) : Writes (versions list) ('@' :: (gap ++ list.toList))
  | switch {on : Bool} {name : String} {gap : List Char} (blank : IsGap gap) (word : IsWord name) :
      Writes (switch on name) ((if on then '+' else '~') :: (gap ++ name.toList))
  | value {name list : String} (word : IsWord name) (inside : ∀ c ∈ list.toList, isValueCharacter c = true) :
      Writes (value name list) (name.toList ++ '=' :: list.toList)
  | compiler {name : String} {gap : List Char} (blank : IsGap gap) (word : IsWord name) :
      Writes (compiler name none) ('%' :: (gap ++ name.toList))
  | compilerVersions {name list : String} {gap between : List Char} (blank : IsGap gap) (word : IsWord name)
      (blankBetween : IsGap between) (nonempty : list.toList ≠ [])
      (inside : ∀ c ∈ list.toList, isVersionCharacter c = true) :
      Writes (compiler name (some list)) ('%' :: (gap ++ (name.toList ++ '@' :: (between ++ list.toList))))

theorem Writes.scan_eq {part : Part} {text rest : List Char} (writes : part.Writes text) (ends : Ends part.continues rest) :
    scan (text ++ rest) = some part.item :: scan rest := by
  cases writes with
  | versions blank nonempty inside =>
    rw [List.cons_append, List.append_assoc]
    exact scan_versions_run blank nonempty inside ends
  | switch blank word =>
    rw [List.cons_append, List.append_assoc]
    exact scan_switch_run _ blank word ends
  | value word inside =>
    rw [List.append_assoc, List.cons_append]
    exact scan_value_run word inside ends
  | compiler blank word =>
    rw [List.cons_append, List.append_assoc]
    exact scan_compiler_run blank word ends
  | compilerVersions blank word blankBetween nonempty inside =>
    rw [List.cons_append, List.append_assoc, List.append_assoc, List.cons_append, List.append_assoc]
    exact scan_compiler_versions_run blank word blankBetween nonempty inside ends

private theorem isBlank_of_continues {part : Part} {c : Char} (goesOn : part.continues c = true) :
    Text.isBlank c = false := by
  match part with
  | .versions _ | .compiler _ (some _) => exact isBlank_of_isVersionCharacter goesOn
  | .switch _ _ => exact isBlank_of_isNameCharacter goesOn
  | .value _ _ => exact isBlank_of_isValueCharacter goesOn
  | .compiler _ none =>
    rcases Bool.or_eq_true_iff.mp goesOn with named | sign
    · exact isBlank_of_isNameCharacter named
    · rw [eq_of_beq sign]
      rfl

end Part

namespace Token

def item : Token → Option Item
  | .clause => none
  | .name text => some (.word text)
  | .part constraint => some constraint.item

def continues : Token → Char → Bool
  | .clause => fun _ => false
  | .name _ => fun c => isNameCharacter c || c == '='
  | .part constraint => constraint.continues

inductive Writes : Token → List Char → Prop where
  | clause : Writes .clause ['^']
  | name {text : String} (word : IsWord text) : Writes (.name text) text.toList
  | part {constraint : Part} {text : List Char} (writes : constraint.Writes text) : Writes (.part constraint) text

private theorem isBlank_of_continues {token : Token} {c : Char} (goesOn : token.continues c = true) :
    Text.isBlank c = false := by
  cases token with
  | clause => cases goesOn
  | part => exact Part.isBlank_of_continues goesOn
  | name =>
    rcases Bool.or_eq_true_iff.mp goesOn with named | sign
    · exact isBlank_of_isNameCharacter named
    · rw [eq_of_beq sign]
      rfl

private theorem ends_gap (token : Token) {gap rest : List Char} (blank : IsGap gap) (apart : gap = [] → rest = []) :
    Ends token.continues (gap ++ rest) := by
  cases gap with
  | nil =>
    rw [apart rfl]
    exact nofun
  | cons first others =>
    rintro _ ⟨⟩
    refine Bool.eq_false_iff.mpr fun goesOn => ?_
    cases (blank first List.mem_cons_self).symm.trans (isBlank_of_continues goesOn)

theorem Writes.scan_eq {token : Token} {text rest : List Char} (writes : token.Writes text)
    (ends : Ends token.continues rest) : scan (text ++ rest) = token.item :: scan rest := by
  cases writes with
  | clause => exact scan_clause rest
  | name word => exact scan_word_run word ends
  | part writes => exact writes.scan_eq ends

end Token

/-- A token as it stands in a text, with the white space in front of it. -/
structure Piece where
  gap : List Char
  token : Token
  text : List Char

/-- The text consists of the tokens in this order, each with any white space in front of it
and none of them going on into what follows it. -/
inductive Spells : List Token → List Char → Prop where
  | nil {gap : List Char} (blank : IsGap gap) : Spells [] gap
  | cons {token : Token} {tokens : List Token} {gap text rest : List Char} (blank : IsGap gap)
      (writes : token.Writes text) (ends : Ends token.continues rest) (later : Spells tokens rest) :
      Spells (token :: tokens) (gap ++ (text ++ rest))

namespace Spells

variable {tokens : List Token}

theorem scan_eq {text : List Char} (spells : Spells tokens text) : scan text = tokens.map Token.item := by
  induction spells with
  | @nil gap blank => rw [← List.append_nil gap, scan_gap blank, scan_nil, List.map_nil]
  | cons blank writes ends _ ih => rw [scan_gap blank, writes.scan_eq ends, ih, List.map_cons]

/-- Tokens may be told apart by white space alone, as much and of whatever kind. Behind the
sign of a clause there need not be any. -/
theorem spaced {pieces : List Piece} {behind : List Char} (blankBehind : IsGap behind)
    (writes : ∀ piece ∈ pieces, IsGap piece.gap ∧ piece.token.Writes piece.text)
    (apart : pieces.IsChain fun piece next => piece.token = .clause ∨ next.gap ≠ []) :
    Spells (pieces.map Piece.token) ((pieces.flatMap fun piece => piece.gap ++ piece.text) ++ behind) := by
  induction pieces with
  | nil => exact .nil blankBehind
  | cons piece rest ih =>
    obtain ⟨⟨blank, first⟩, later⟩ := List.forall_mem_cons.mp writes
    rw [List.map_cons, List.flatMap_cons, List.append_assoc, List.append_assoc]
    refine .cons blank first ?_ (ih later apart.of_cons)
    cases rest with
    | nil =>
      rw [List.flatMap_nil, List.nil_append, ← List.append_nil behind]
      exact piece.token.ends_gap blankBehind fun _ => rfl
    | cons next others =>
      rw [List.flatMap_cons, List.append_assoc, List.append_assoc]
      rcases (List.isChain_cons_cons.mp apart).1 with sign | apart
      · rw [sign]
        exact fun _ _ => rfl
      · exact piece.token.ends_gap (later next List.mem_cons_self).1 fun none => absurd none apart

end Spells

end PackageRecipes
