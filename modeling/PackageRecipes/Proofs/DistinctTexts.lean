import PackageRecipes.Proofs.NormalText
import PackageRecipes.Variant

/-! Expressions can be told apart by their texts. Each part is a run of characters that
what follows it does not begin with, so a text falls apart in one way only, and each
part is determined by its own text: versions because they are read back, switches and
values because names have none of the signs around them. -/

namespace PackageRecipes
open Item

section Runs

variable {first second rest others : List Char}

/-- A run ends with the first character that is not in it. -/
private theorem run_append_inj (inRun : Char → Bool) (one : ∀ c ∈ first, inRun c = true)
    (other : ∀ c ∈ second, inRun c = true)
    (follows : ∀ c ∈ rest.head?, inRun c = false) (followsOther : ∀ c ∈ others.head?, inRun c = false)
    (same : first ++ rest = second ++ others) : first = second ∧ rest = others := by
  have runs := congrArg (List.takeWhile inRun) same
  have tails := congrArg (List.dropWhile inRun) same
  rw [takeWhile_run one follows, takeWhile_run other followsOther] at runs
  rw [dropWhile_run one follows, dropWhile_run other followsOther] at tails
  exact ⟨runs, tails⟩

/-- Pieces that begin with a sign and have no other are all there is in their text. -/
private theorem pieces_inj (isSign : Char → Bool) {pieces more : List (Char × List Char)}
    (one : ∀ piece ∈ pieces, isSign piece.1 = true ∧ ∀ c ∈ piece.2, isSign c = false)
    (other : ∀ piece ∈ more, isSign piece.1 = true ∧ ∀ c ∈ piece.2, isSign c = false)
    (same : (pieces.flatMap fun piece => piece.1 :: piece.2) = more.flatMap fun piece => piece.1 :: piece.2) :
    pieces = more := by
  have follows : ∀ {pieces : List (Char × List Char)},
      (∀ piece ∈ pieces, isSign piece.1 = true ∧ ∀ c ∈ piece.2, isSign c = false) →
      ∀ c ∈ (pieces.flatMap fun piece => piece.1 :: piece.2).head?, (!isSign c) = false := by
    intro pieces all c member
    cases pieces with
    | nil => cases member
    | cons piece rest =>
      cases member
      simp [(all piece List.mem_cons_self).1]
  induction pieces generalizing more with
  | nil =>
    cases more with
    | nil => rfl
    | cons => cases same
  | cons piece rest ih =>
    cases more with
    | nil => cases same
    | cons next later =>
      obtain ⟨⟨_, plain⟩, one⟩ := List.forall_mem_cons.mp one
      obtain ⟨⟨_, plainNext⟩, other⟩ := List.forall_mem_cons.mp other
      obtain ⟨sign, same⟩ := List.cons.inj same
      -- The body goes on up to the next sign, or to the end.
      obtain ⟨body, same⟩ := run_append_inj (!isSign ·) (by simpa using plain) (by simpa using plainNext)
        (follows one) (follows other) same
      rw [ih one other same, Prod.ext sign body]

/-- Clauses without their own sign are all there is behind the first part of a text. -/
private theorem clauses_inj {clauses more : List (List Char)} (one : ∀ text ∈ first :: clauses, '^' ∉ text)
    (other : ∀ text ∈ second :: more, '^' ∉ text)
    (same : (first ++ clauses.flatMap fun text => ' ' :: '^' :: text) =
      second ++ more.flatMap fun text => ' ' :: '^' :: text) :
    first = second ∧ clauses = more := by
  have plain : ∀ {text : List Char}, '^' ∉ text → ∀ c ∈ text ++ [' '], (c != '^') = true := by
    intro text apart c member
    rw [bne_iff_ne]
    rintro rfl
    simp [apart] at member
  induction clauses generalizing first second more with
  | nil =>
    cases more with
    | nil => simpa using same
    | cons text rest => exact absurd (by simp at same; simp [same]) (one first List.mem_cons_self)
  | cons text rest ih =>
    cases more with
    | nil => exact absurd (by simp at same; simp [← same]) (other second List.mem_cons_self)
    | cons next later =>
      obtain ⟨alone, one⟩ := List.forall_mem_cons.mp one
      obtain ⟨aloneNext, other⟩ := List.forall_mem_cons.mp other
      -- The blank in front of a clause counts to the run that the sign of the clause ends.
      have split : (first ++ [' ']) ++ '^' :: (text ++ rest.flatMap fun text => ' ' :: '^' :: text) =
          (second ++ [' ']) ++ '^' :: (next ++ later.flatMap fun text => ' ' :: '^' :: text) := by
        simpa using same
      obtain ⟨start, same⟩ := run_append_inj (· != '^') (plain alone) (plain aloneNext) (by simp) (by simp) split
      obtain ⟨rfl, rfl⟩ := ih one other (List.cons.inj same).2
      exact ⟨List.append_cancel_right start, rfl⟩

private theorem join_pieces {α β : Type} {text : α → String} {part? : α → Option β} {piece : β → Char × List Char}
    (written : ∀ item, (text item).toList = match part? item with
      | some part => (piece part).1 :: (piece part).2
      | none => []) (items : List α) :
    (String.join (items.map text)).toList =
      ((items.filterMap part?).map piece).flatMap fun piece => piece.1 :: piece.2 := by
  induction items with
  | nil => rfl
  | cons item rest ih =>
    rw [String.toList_join, List.flatMap_map] at ih ⊢
    rw [List.flatMap_cons, ih, written]
    cases left : part? item with
    | some part => rw [List.filterMap_cons_some left, List.map_cons, List.flatMap_cons]
    | none => rw [List.filterMap_cons_none left, List.nil_append]

end Runs

namespace VersionList

def clause (list : VersionList) : String :=
  if list.isAny then "" else "@" ++ list.text

private theorem clause_cases (list : VersionList) :
    list.isAny = true ∧ list.clause.toList = [] ∨ list.isAny = false ∧ list.clause.toList = '@' :: list.text.toList := by
  cases any : list.isAny <;> simp [clause, any]

private theorem beq_of_clause {left right : VersionList} (first : left.Normal) (second : right.Normal)
    (same : left.clause = right.clause) : (left == right) = true := by
  rcases left.clause_cases with ⟨whole, text⟩ | ⟨bounded, text⟩
  · rcases right.clause_cases with ⟨wholeRight, _⟩ | ⟨_, textRight⟩
    · rw [first.unbounded whole, second.unbounded wholeRight]
      exact BEq.refl any
    · rw [← same, text] at textRight
      cases textRight
  · rcases right.clause_cases with ⟨_, textRight⟩ | ⟨boundedRight, textRight⟩
    · rw [same, textRight] at text
      cases text
    · rw [same, textRight] at text
      have texts : right.text = left.text := String.toList_inj.mp (List.cons.inj text).2
      obtain ⟨again, read, like⟩ := parse_text first bounded
      obtain ⟨other, readRight, likeRight⟩ := parse_text second boundedRight
      rw [texts] at readRight
      cases read.symm.trans readRight
      exact BEq.trans (BEq.symm like) likeRight

/-- Versions are written in one run, with their sign in front. -/
private theorem characters_of_clause (list : VersionList) :
    ∀ c ∈ list.clause.toList, (isVersionCharacter c || c == '@') = true := by
  intro c member
  rcases list.clause_cases with ⟨_, text⟩ | ⟨_, text⟩
  · rw [text] at member
    cases member
  · rw [text] at member
    rcases List.mem_cons.mp member with rfl | inside
    · rfl
    · rw [list.characters_of_text c inside, Bool.true_or]

private theorem beginsWith_clause (list : VersionList) : BeginsWith ['@'] list.clause.toList := by
  rcases list.clause_cases with ⟨_, text⟩ | ⟨_, text⟩
  · rw [text]
    exact beginsWith_nil _
  · rw [text]
    rintro _ ⟨⟩
    exact List.mem_cons_self

end VersionList

namespace CompilerSpec

theorem text_toList (compiler : CompilerSpec) :
    compiler.text.toList = '%' :: (compiler.name.toList ++ compiler.versions.clause.toList) := by
  rw [text, String.toList_append, String.toList_append]
  rfl

theorem beq_of_text {left right : CompilerSpec} (word : IsWord left.name) (wordRight : IsWord right.name)
    (first : left.versions.Normal) (second : right.versions.Normal) (same : left.text = right.text) :
    (left == right) = true := by
  have texts := congrArg String.toList same
  rw [text_toList, text_toList] at texts
  obtain ⟨names, clauses⟩ := run_append_inj isNameCharacter word.characters wordRight.characters
    (ends_run isNameCharacter left.versions.beginsWith_clause rfl)
    (ends_run isNameCharacter right.versions.beginsWith_clause rfl) (List.cons.inj texts).2
  rw [beq_eq, Bool.and_eq_true, beq_iff_eq]
  exact ⟨String.toList_inj.mp names, VersionList.beq_of_clause first second (String.toList_inj.mp clauses)⟩

end CompilerSpec

namespace VariantSetting

variable {list more : List String}

private theorem intercalate_ne_empty (written : (values list).Written) (nonempty : list ≠ []) :
    ",".intercalate list ≠ "" := by
  obtain ⟨first, rest, rfl⟩ := List.exists_cons_of_ne_nil nonempty
  have visible := (written.2 first List.mem_cons_self).1
  intro empty
  have texts := congrArg String.toList empty
  cases rest <;> simp_all

private theorem words_inj (first : (values list).Written) (second : (values more).Written)
    (same : ",".intercalate list = ",".intercalate more) : list = more := by
  by_cases none : list = []
  · subst none
    by_cases noneMore : more = []
    · exact noneMore.symm
    · exact absurd same.symm (intercalate_ne_empty second noneMore)
  · by_cases noneMore : more = []
    · subst noneMore
      exact absurd same (intercalate_ne_empty first none)
    · have words := congrArg (fun text : String => Text.fields ',' text.toList) same
      rw [fields_intercalate_words first none, fields_intercalate_words second noneMore] at words
      exact List.map_injective_iff.mpr (fun _ _ => String.toList_injective) words

end VariantSetting

section Members

variable {α β : Type}

/-- Items whose texts tell them apart are told apart, in their order, by their texts. -/
private theorem beq_of_map_eq [BEq α] {text : α → β} {items more : List α}
    (told : ∀ item ∈ items, ∀ other ∈ more, text item = text other → (item == other) = true)
    (same : items.map text = more.map text) : (items == more) = true := by
  induction items generalizing more with
  | nil =>
    rw [List.map_eq_nil_iff.mp same.symm]
    rfl
  | cons item rest ih =>
    cases more with
    | nil => cases same
    | cons other later =>
      obtain ⟨first, same⟩ := List.cons.inj same
      have heads := told item List.mem_cons_self other List.mem_cons_self first
      have tails := ih (fun item member other present => told item (List.mem_cons_of_mem _ member) other
        (List.mem_cons_of_mem _ present)) same
      exact Bool.and_eq_true_iff.mpr ⟨heads, tails⟩

private theorem beq_of_getD_eq [BEq α] {text : α → String} {first second : Option α}
    (told : ∀ item, first = some item → ∀ other, second = some other → text item = text other → (item == other) = true)
    (nonempty : ∀ item, first = some item → (text item).toList ≠ [])
    (nonemptyOther : ∀ other, second = some other → (text other).toList ≠ [])
    (same : (first.map text).getD "" = (second.map text).getD "") : (first == second) = true := by
  cases first with
  | none =>
    cases second with
    | none => rfl
    | some other => exact absurd (congrArg String.toList same).symm (nonemptyOther other rfl)
  | some item =>
    cases second with
    | none => exact absurd (congrArg String.toList same) (nonempty item rfl)
    | some other => exact told item rfl other rfl same

end Members

namespace Node

def switches (variants : List (String × VariantSetting)) : List (String × Bool) :=
  variants.filterMap fun
    | (name, .enabled on) => some (name, on)
    | (_, .values _) => none

def valued (variants : List (String × VariantSetting)) : List (String × List String) :=
  variants.filterMap fun
    | (_, .enabled _) => none
    | (name, .values values) => some (name, values)

def switchPiece (switch : String × Bool) : Char × List Char :=
  (if switch.2 then '+' else '~', switch.1.toList)

def valuedPiece (variant : String × List String) : Char × List Char :=
  (' ', variant.1.toList ++ '=' :: (",".intercalate variant.2).toList)

section Variants

variable {variants more : List (String × VariantSetting)}

private theorem join_switchText (variants : List (String × VariantSetting)) :
    (String.join (variants.map switchText)).toList =
      ((switches variants).map switchPiece).flatMap fun piece => piece.1 :: piece.2 := by
  rw [switches]
  refine join_pieces ?_ variants
  rintro ⟨name, on | list⟩
  · exact switchText_toList name on
  · rfl

private theorem join_valuesText (variants : List (String × VariantSetting)) :
    (String.join (variants.map valuesText)).toList =
      ((valued variants).map valuedPiece).flatMap fun piece => piece.1 :: piece.2 := by
  rw [valued]
  refine join_pieces ?_ variants
  rintro ⟨name, on | list⟩
  · rfl
  · exact valuesText_toList name list

private theorem mem_switches {name : String} {on : Bool} :
    (name, on) ∈ switches variants ↔ (name, .enabled on) ∈ variants := by
  simp only [switches, List.mem_filterMap]
  constructor
  · rintro ⟨⟨other, _ | _⟩, member, same⟩ <;> cases same
    exact member
  · exact fun member => ⟨_, member, rfl⟩

private theorem mem_valued {name : String} {list : List String} :
    (name, list) ∈ valued variants ↔ (name, .values list) ∈ variants := by
  simp only [valued, List.mem_filterMap]
  constructor
  · rintro ⟨⟨other, _ | _⟩, member, same⟩ <;> cases same
    exact member
  · exact fun member => ⟨_, member, rfl⟩

private theorem switches_inj (words : ∀ entry ∈ variants, IsWord entry.1) (wordsMore : ∀ entry ∈ more, IsWord entry.1)
    (same : String.join (variants.map switchText) = String.join (more.map switchText)) :
    switches variants = switches more := by
  have plain : ∀ {variants : List (String × VariantSetting)}, (∀ entry ∈ variants, IsWord entry.1) →
      ∀ piece ∈ (switches variants).map switchPiece,
        (!isNameCharacter piece.1) = true ∧ ∀ c ∈ piece.2, (!isNameCharacter c) = false := by
    intro variants words piece member
    obtain ⟨⟨name, on⟩, listed, rfl⟩ := List.mem_map.mp member
    refine ⟨by cases on <;> rfl, fun c inside => ?_⟩
    rw [(words _ (mem_switches.mp listed)).characters c inside]
    rfl
  have texts := congrArg String.toList same
  rw [join_switchText, join_switchText] at texts
  refine List.map_injective_iff.mpr ?_ (pieces_inj (!isNameCharacter ·) (plain words) (plain wordsMore) texts)
  rintro ⟨name, on⟩ ⟨other, off⟩ pieces
  obtain ⟨sign, names⟩ := Prod.mk.inj pieces
  cases String.toList_injective names
  cases on <;> cases off <;> first | rfl | cases sign

private theorem valued_inj (written : ∀ entry ∈ variants, IsWord entry.1 ∧ entry.2.Written)
    (writtenMore : ∀ entry ∈ more, IsWord entry.1 ∧ entry.2.Written)
    (same : String.join (variants.map valuesText) = String.join (more.map valuesText)) : valued variants = valued more := by
  have plain : ∀ {variants : List (String × VariantSetting)}, (∀ entry ∈ variants, IsWord entry.1 ∧ entry.2.Written) →
      ∀ piece ∈ (valued variants).map valuedPiece, (piece.1 == ' ') = true ∧ ∀ c ∈ piece.2, (c == ' ') = false := by
    intro variants written piece member
    obtain ⟨⟨name, list⟩, listed, rfl⟩ := List.mem_map.mp member
    obtain ⟨word, values⟩ := written _ (mem_valued.mp listed)
    refine ⟨rfl, fun c inside => beq_eq_false_iff_ne.mpr ?_⟩
    rintro rfl
    rcases List.mem_append.mp inside with named | inside
    · cases word.characters ' ' named
    rcases List.mem_cons.mp inside with impossible | valued
    · cases impossible
    · cases VariantSetting.characters_of_words values ' ' valued
  have texts := congrArg String.toList same
  rw [join_valuesText, join_valuesText] at texts
  refine eq_of_beq (beq_of_map_eq ?_ (pieces_inj (· == ' ') (plain written) (plain writtenMore) texts))
  rintro ⟨name, list⟩ member ⟨other, words⟩ present piece
  obtain ⟨word, first⟩ := written _ (mem_valued.mp member)
  obtain ⟨wordOther, second⟩ := writtenMore _ (mem_valued.mp present)
  obtain ⟨names, texts⟩ := run_append_inj isNameCharacter word.characters wordOther.characters
    (by simp; rfl) (by simp; rfl) (Prod.mk.inj piece).2
  rw [beq_iff_eq]
  exact Prod.ext (String.toList_injective names)
    (VariantSetting.words_inj first second (String.toList_injective (List.cons.inj texts).2))

/-- Settings are told by the text of all switches and the text of all others. -/
private theorem variants_inj {left right : OrderedMap String VariantSetting}
    (first : left.All fun name setting => IsWord name ∧ setting.Written)
    (second : right.All fun name setting => IsWord name ∧ setting.Written)
    (switched : String.join (left.entries.map switchText) = String.join (right.entries.map switchText))
    (set : String.join (left.entries.map valuesText) = String.join (right.entries.map valuesText)) : left = right := by
  have switches := switches_inj (fun entry member => (first entry member).1)
    (fun entry member => (second entry member).1) switched
  have valued := valued_inj first second set
  refine OrderedMap.eq_of_mem_iff ?_
  rintro ⟨name, on | list⟩
  · rw [← mem_switches, ← mem_switches, switches]
  · rw [← mem_valued, ← mem_valued, valued]

private theorem characters_of_switches (words : ∀ entry ∈ variants, IsWord entry.1) :
    ∀ c ∈ (String.join (variants.map switchText)).toList, (isNameCharacter c || c == '+' || c == '~') = true := by
  intro c member
  rw [join_switchText] at member
  obtain ⟨piece, listed, inside⟩ := List.mem_flatMap.mp member
  obtain ⟨⟨name, on⟩, present, rfl⟩ := List.mem_map.mp listed
  rcases List.mem_cons.mp inside with rfl | named
  · cases on <;> rfl
  · simp [(words _ (mem_switches.mp present)).characters c named]

private theorem characters_of_valued (written : ∀ entry ∈ variants, IsWord entry.1 ∧ entry.2.Written) :
    ∀ c ∈ (String.join (variants.map valuesText)).toList,
      (isNameCharacter c || isValueCharacter c || c == ' ' || c == '=') = true := by
  intro c member
  rw [join_valuesText] at member
  obtain ⟨piece, listed, inside⟩ := List.mem_flatMap.mp member
  obtain ⟨⟨name, list⟩, present, rfl⟩ := List.mem_map.mp listed
  obtain ⟨word, values⟩ := written _ (mem_valued.mp present)
  rcases List.mem_cons.mp inside with rfl | inside
  · rfl
  rcases List.mem_append.mp inside with named | inside
  · simp [word.characters c named]
  rcases List.mem_cons.mp inside with rfl | valued
  · rfl
  · simp [VariantSetting.characters_of_words values c valued]

end Variants

section Parts

variable {left right : Node} (node : Node)

def compilerText : String :=
  (node.compiler.map (·.text)).getD ""

/-- What stands in the text of a node behind its switches, its versions and its name. -/
def afterSwitches : List Char :=
  (String.join (node.variants.entries.map valuesText)).toList ++ node.compilerText.toList

def afterVersions : List Char :=
  (String.join (node.variants.entries.map switchText)).toList ++ node.afterSwitches

def afterName : List Char :=
  node.versions.clause.toList ++ node.afterVersions

theorem text_toList : node.text.toList = (node.name.getD "").toList ++ node.afterName := by
  simp only [text, afterName, afterVersions, afterSwitches, VersionList.clause, compilerText, String.toList_append,
    List.append_assoc]

private theorem beginsWith_compilerText : BeginsWith ['%'] node.compilerText.toList := by
  unfold compilerText
  cases node.compiler with
  | none => exact beginsWith_nil _
  | some compiler =>
    rw [Option.map_some, Option.getD_some, CompilerSpec.text_toList]
    rintro _ ⟨⟩
    exact List.mem_cons_self

private theorem beginsWith_afterSwitches : BeginsWith [' ', '%'] node.afterSwitches := by
  refine beginsWith_append (beginsWith_join ?_) (node.beginsWith_compilerText.mono (by simp))
  rintro ⟨name, on | list⟩ _
  · exact beginsWith_nil _
  · rw [valuesText_toList]
    rintro _ ⟨⟩
    exact List.mem_cons_self

private theorem beginsWith_afterVersions : BeginsWith ['+', '~', ' ', '%'] node.afterVersions := by
  refine beginsWith_append (beginsWith_join ?_) (node.beginsWith_afterSwitches.mono (by simp))
  rintro ⟨name, on | list⟩ _
  · rw [switchText_toList]
    rintro _ ⟨⟩
    cases on <;> decide
  · exact beginsWith_nil _

private theorem beginsWith_afterName : BeginsWith ['@', '+', '~', ' ', '%'] node.afterName :=
  beginsWith_append (node.versions.beginsWith_clause.mono (by simp)) (node.beginsWith_afterVersions.mono (by simp))

namespace Written

private theorem characters_of_name (written : node.Written) :
    ∀ c ∈ (node.name.getD "").toList, isNameCharacter c = true := by
  cases named : node.name with
  | none => exact nofun
  | some name => exact (written.name name named).characters

private theorem beq_name_of_text (first : left.Written) (second : right.Written)
    (same : left.name.getD "" = right.name.getD "") :
    (left.name == right.name) = true := by
  refine @beq_of_getD_eq _ _ id _ _ (fun _ _ _ _ => beq_of_eq) ?_ ?_ (by simpa using same)
  · exact fun name named => (first.name name named).nonempty
  · exact fun name named => (second.name name named).nonempty

private theorem beq_compiler_of_text (first : left.Written) (second : right.Written)
    (same : left.compilerText = right.compilerText) : (left.compiler == right.compiler) = true := by
  refine beq_of_getD_eq (fun compiler present other presentOther => ?_) (fun _ _ => ?_) (fun _ _ => ?_) same
  · exact CompilerSpec.beq_of_text (first.compiler compiler present) (second.compiler other presentOther)
      (first.normal.compiler compiler present) (second.normal.compiler other presentOther)
  all_goals
    rw [CompilerSpec.text_toList]
    exact List.cons_ne_nil _ _

theorem beq_of_text (first : left.Written) (second : right.Written) (same : left.text = right.text) :
    (left == right) = true := by
  have texts := congrArg String.toList same
  rw [text_toList, text_toList] at texts
  -- What follows a part begins with a sign that the part cannot have in it, so each part in
  -- turn can be cut off both texts.
  obtain ⟨names, texts⟩ := run_append_inj isNameCharacter (characters_of_name left first) (characters_of_name right second)
    (ends_run _ left.beginsWith_afterName rfl) (ends_run _ right.beginsWith_afterName rfl) texts
  obtain ⟨versions, texts⟩ := run_append_inj _ left.versions.characters_of_clause right.versions.characters_of_clause
    (ends_run _ left.beginsWith_afterVersions rfl) (ends_run _ right.beginsWith_afterVersions rfl) texts
  obtain ⟨switches, texts⟩ := run_append_inj _ (characters_of_switches fun entry member => (first.variants entry member).1)
    (characters_of_switches fun entry member => (second.variants entry member).1)
    (ends_run _ left.beginsWith_afterSwitches rfl) (ends_run _ right.beginsWith_afterSwitches rfl) texts
  obtain ⟨set, compiler⟩ := run_append_inj _ (characters_of_valued first.variants) (characters_of_valued second.variants)
    (ends_run _ left.beginsWith_compilerText rfl) (ends_run _ right.beginsWith_compilerText rfl) texts
  have variants := variants_inj first.variants second.variants (String.toList_injective switches)
    (String.toList_injective set)
  rw [beq_eq, Bool.and_eq_true, Bool.and_eq_true, Bool.and_eq_true]
  exact ⟨beq_name_of_text first second (String.toList_injective names),
    VersionList.beq_of_clause first.normal.versions second.normal.versions (String.toList_injective versions),
    variants ▸ BEq.refl left.variants,
    beq_compiler_of_text first second (String.toList_injective compiler)⟩

/-- The sign of a clause on a dependency is in no node. -/
private theorem caret_notMem_text (written : node.Written) : '^' ∉ node.text.toList := by
  intro member
  rw [text_toList, afterName, afterVersions, afterSwitches] at member
  simp only [List.mem_append] at member
  rcases member with named | versioned | switched | valued | compiled
  · cases characters_of_name node written '^' named
  · cases node.versions.characters_of_clause '^' versioned
  · cases characters_of_switches (fun entry member => (written.variants entry member).1) '^' switched
  · cases characters_of_valued written.variants '^' valued
  · unfold compilerText at compiled
    cases present : node.compiler with
    | none =>
      rw [present] at compiled
      cases compiled
    | some compiler =>
      rw [present, Option.map_some, Option.getD_some, CompilerSpec.text_toList, List.mem_cons, List.mem_append] at compiled
      rcases compiled with impossible | named | versioned
      · cases impossible
      · cases (written.compiler compiler present).characters '^' named
      · cases compiler.versions.characters_of_clause '^' versioned

end Written

end Parts

end Node

namespace Spec

theorem text_toList (spec : Spec) : spec.text.toList = spec.node.text.toList ++
    (spec.dependencies.entries.map fun entry => entry.2.text.toList).flatMap fun text => ' ' :: '^' :: text := by
  rw [text, String.toList_append, String.toList_join, OrderedMap.values, List.map_map, List.flatMap_map, List.flatMap_map]
  simp

/-- What holds of all expressions that are read, as far as it matters to their texts. -/
abbrev Written (spec : Spec) : Prop :=
  spec.Each Node.Written

theorem Written.beq_of_text {left right : Spec} (first : left.Written) (second : right.Written)
    (same : left.text = right.text) : (left == right) = true := by
  have plain : ∀ {spec : Spec}, spec.Written →
      ∀ text ∈ spec.node.text.toList :: spec.dependencies.entries.map fun entry => entry.2.text.toList, '^' ∉ text := by
    intro spec each
    refine List.forall_mem_cons.mpr ⟨each.node.caret_notMem_text, List.forall_mem_map.mpr fun entry member => ?_⟩
    exact (each.dependencies entry member).2.caret_notMem_text
  have texts := congrArg String.toList same
  rw [text_toList, text_toList] at texts
  obtain ⟨node, clauses⟩ := clauses_inj (plain first) (plain second) texts
  have dependencies : (left.dependencies.entries == right.dependencies.entries) = true := by
    refine beq_of_map_eq (fun entry member other present texts => ?_) clauses
    obtain ⟨named, written⟩ := first.dependencies entry member
    obtain ⟨namedOther, writtenOther⟩ := second.dependencies other present
    have same := written.beq_of_text writtenOther (String.toList_injective texts)
    have names := (Bool.and_eq_true_iff.mp (Node.beq_eq entry.2 other.2 ▸ same)).1
    rw [named, namedOther] at names
    exact Bool.and_eq_true_iff.mpr ⟨names, same⟩
  rw [beq_eq, Bool.and_eq_true]
  exact ⟨first.node.beq_of_text second.node (String.toList_injective node), dependencies⟩

section Owners

variable {name owner : String}

theorem isWord_of_isIdentifier (identifier : isIdentifier name = true) : IsWord name := by
  unfold isIdentifier at identifier
  split at identifier
  next => cases identifier
  next first rest text =>
    obtain ⟨start, later⟩ := Bool.and_eq_true_iff.mp identifier
    have named : ∀ {c}, isIdentifierStart c = true → isNameCharacter c = true := by
      intro c start
      rw [isNameCharacter, ← isIdentifierStart, start, Bool.true_or]
    constructor
    · rw [text]
      exact List.cons_ne_nil first rest
    · rw [text]
      refine List.forall_mem_cons.mpr ⟨named start, fun c member => ?_⟩
      rcases Bool.or_eq_true_iff.mp (List.all_eq_true.mp later c member) with plain | hyphen
      · exact named plain
      · rw [eq_of_beq hyphen]
        rfl

theorem written_of_parse {expression : String} {spec : Spec} (read : parse expression = .ok spec) : spec.Written :=
  each_of_parse Node.readInvariant_written read

theorem written_named (word : IsWord name) : (named name).Written :=
  each_named Node.readInvariant_written fun written => Node.readInvariant_written.named written word

theorem Written.anchor {spec anchored : Spec} (written : spec.Written) (word : IsWord owner)
    (run : spec.anchor owner = .ok anchored) : anchored.Written :=
  Each.anchor Node.readInvariant_written (fun written => Node.readInvariant_written.named written word) written run

inductive OwnedByIdentifiers : Spec → Prop where
  | parsed {expression : String} {spec : Spec} (read : parse expression = .ok spec) : OwnedByIdentifiers spec
  | named {name : String} (identifier : isIdentifier name = true) : OwnedByIdentifiers (named name)
  | anchored {spec anchored : Spec} {owner : String} (obtained : OwnedByIdentifiers spec)
      (identifier : isIdentifier owner = true) (run : spec.anchor owner = .ok anchored) : OwnedByIdentifiers anchored
  | anonymous {expression owner : String} {spec : Spec} (identifier : isIdentifier owner = true)
      (run : anonymous expression owner = .ok spec) : OwnedByIdentifiers spec
  | constrained {left right both : Spec} (first : OwnedByIdentifiers left) (second : OwnedByIdentifiers right)
      (run : left.constrain right = .ok both) : OwnedByIdentifiers both

theorem OwnedByIdentifiers.written {spec : Spec} (owned : spec.OwnedByIdentifiers) : spec.Written := by
  induction owned with
  | parsed read => exact written_of_parse read
  | named identifier => exact written_named (isWord_of_isIdentifier identifier)
  | anchored _ identifier run ih => exact ih.anchor (isWord_of_isIdentifier identifier) run
  | anonymous identifier run =>
    have word := isWord_of_isIdentifier identifier
    unfold Spec.anonymous at run
    dsimp only at run
    split at run
    next =>
      cases run
      exact written_named word
    next =>
      obtain ⟨_, read, run⟩ := bind_eq_ok.mp run
      exact (written_of_parse read).anchor word run
  | constrained _ _ run first second =>
    exact Each.narrow Node.readInvariant_written first second (constrain_eq_ok_iff.mp run)

end Owners

end Spec

end PackageRecipes
