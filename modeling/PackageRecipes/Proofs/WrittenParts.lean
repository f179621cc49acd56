import PackageRecipes.Proofs.ObtainableSpecs
import PackageRecipes.Proofs.ScannedText
import PackageRecipes.Proofs.TextFields

/-! The parts of an expression are read back from their texts. -/

namespace PackageRecipes

namespace Version

private theorem isNameCharacter_of_step {reading next : Reading} {c : Char} (read : reading.step c = some next) :
    Item.isNameCharacter c = true ∨ c = '.' := by
  rw [Reading.step] at read
  split at read
  next separator =>
    simp only [isSeparator, Bool.or_eq_true, beq_iff_eq] at separator
    rcases separator with (rfl | rfl) | rfl
    · exact .inr rfl
    all_goals exact .inl rfl
  next =>
    split at read
    next alphanumeric => exact .inl (by simp [Item.isNameCharacter, alphanumeric])
    next => cases read

theorem characters_of_segments? {text : List Char} {segments : List Segment} (read : segments? text = some segments) :
    text ≠ [] ∧ ∀ c ∈ text, Item.isNameCharacter c = true ∨ c = '.' := by
  obtain ⟨reading, run, finished⟩ := Option.bind_eq_some_iff.mp read
  constructor
  · rintro rfl
    cases run
    cases finished
  · clear read finished
    generalize (⟨[], []⟩ : Reading) = start at run
    induction text generalizing start with
    | nil => exact nofun
    | cons first rest ih =>
      obtain ⟨next, stepped, run⟩ := Option.bind_eq_some_iff.mp run
      exact List.forall_mem_cons.mpr ⟨isNameCharacter_of_step stepped, ih next run⟩

variable (version : Version)

theorem text_ne_nil : version.text.toList ≠ [] :=
  (characters_of_segments? version.read).1

private theorem isVersionCharacter_of_mem {c : Char} (member : c ∈ version.text.toList) :
    Item.isVersionCharacter c = true := by
  rcases (characters_of_segments? version.read).2 c member with named | rfl
  · simp [Item.isVersionCharacter, named]
  · rfl

theorem not_mem_text {c : Char} (sign : c = ':' ∨ c = ',') : c ∉ version.text.toList := by
  intro member
  rcases (characters_of_segments? version.read).2 c member with named | rfl
  · rcases sign with rfl | rfl <;> cases named
  · rcases sign with impossible | impossible <;> cases impossible

private theorem isBlank_of_mem_text {c : Char} (member : c ∈ version.text.toList) : Text.isBlank c = false :=
  Item.isBlank_of_isVersionCharacter (version.isVersionCharacter_of_mem member)

theorem parse_text : parse version.text = .ok version := by
  have whole : Text.trim version.text = version.text := by
    rw [Text.trim, Text.trimList_of_visible fun c => version.isBlank_of_mem_text, String.ofList_toList]
  have nonempty : version.text.isEmpty = false := by
    simpa [Bool.eq_false_iff, String.isEmpty_iff] using version.text_ne_nil
  unfold parse
  simp only [whole, nonempty, Bool.false_eq_true, if_false]
  split
  next segments read =>
    rw [whole, version.read] at read
    cases read
    rfl
  next read =>
    rw [whole, version.read] at read
    cases read

end Version

namespace VersionRange

def boundText (bound : Option Version) : List Char :=
  (bound.map (·.text.toList)).getD []

private theorem mem_boundText {bound : Option Version} {c : Char} :
    c ∈ boundText bound ↔ ∃ version, bound = some version ∧ c ∈ version.text.toList := by
  cases bound <;> simp [boundText]

private theorem parseBound_boundText (bound : Option Version) : parseBound (boundText bound) = .ok bound := by
  cases bound with
  | none => rfl
  | some version =>
    have visible : (boundText (some version)).all Text.isBlank = false := by
      obtain ⟨c, member⟩ := List.exists_mem_of_ne_nil _ version.text_ne_nil
      exact List.all_eq_false.mpr ⟨c, member, by simp [version.isBlank_of_mem_text member]⟩
    rw [parseBound, visible, boundText, Option.map_some, Option.getD_some, String.ofList_toList, version.parse_text]
    rfl

private theorem text_cases (range : VersionRange) :
    (∃ version, (exact version == range) = true ∧ range.text = version.text) ∨
      range.text.toList = boundText range.lower ++ ':' :: boundText range.upper := by
  obtain ⟨lower, upper⟩ := range
  cases lower with
  | none => cases upper <;> simp [text, boundText]
  | some lower =>
    cases upper with
    | none => simp [text, boundText]
    | some upper =>
      simp only [text]
      split
      next same =>
        refine .inl ⟨lower, ?_, rfl⟩
        rw [beq_eq, Bool.and_eq_true]
        exact ⟨BEq.refl lower, same⟩
      next => exact .inr (by simp [boundText])

variable (range : VersionRange)

theorem text_ne_nil : range.text.toList ≠ [] := by
  rcases range.text_cases with ⟨version, _, same⟩ | same
  · rw [same]
    exact version.text_ne_nil
  · simp [same]

/-- There is nothing in the text of a range that could end it. -/
theorem characters_of_text : ∀ c ∈ range.text.toList, Item.isVersionCharacter c = true ∧ c ≠ ',' := by
  have plain : ∀ version : Version, ∀ c ∈ version.text.toList, Item.isVersionCharacter c = true ∧ c ≠ ',' := by
    intro version c member
    refine ⟨version.isVersionCharacter_of_mem member, ?_⟩
    rintro rfl
    exact version.not_mem_text (.inr rfl) member
  rcases range.text_cases with ⟨version, _, same⟩ | same
  · rw [same]
    exact plain version
  · intro c member
    rw [same, List.mem_append, List.mem_cons] at member
    rcases member with lower | rfl | upper
    · obtain ⟨version, _, inside⟩ := mem_boundText.mp lower
      exact plain version c inside
    · decide
    · obtain ⟨version, _, inside⟩ := mem_boundText.mp upper
      exact plain version c inside

/-- A range that admits some version is read back, up to the spelling of a bound. -/
theorem parse_text (inhabited : range.isEmpty = false) :
    ∃ again, parse range.text.toList = .ok again ∧ (again == range) = true := by
  rcases range.text_cases with ⟨version, same, written⟩ | written
  · refine ⟨exact version, ?_, same⟩
    rw [parse, written, Text.cutOnce_eq_none (version.not_mem_text (.inl rfl))]
    dsimp only
    rw [String.ofList_toList, version.parse_text]
    rfl
  · have apart : ':' ∉ boundText range.lower := by
      intro member
      obtain ⟨version, _, inside⟩ := mem_boundText.mp member
      exact version.not_mem_text (.inl rfl) inside
    refine ⟨range, ?_, BEq.refl range⟩
    rw [parse, written, Text.cutOnce_run _ apart]
    refine bind_eq_ok.mpr ⟨range.lower, parseBound_boundText _, bind_eq_ok.mpr ⟨range.upper, parseBound_boundText _, ?_⟩⟩
    exact if_neg (by simp [inhabited])

end VersionRange

namespace VersionList

variable (list : VersionList)

theorem text_toList : list.text.toList = [','].intercalate (list.ranges.map (·.text.toList)) := by
  rw [text, String.toList_intercalate, List.map_map]
  rfl

theorem characters_of_text : ∀ c ∈ list.text.toList, Item.isVersionCharacter c = true := by
  intro c member
  rw [text_toList] at member
  rcases Text.mem_intercalate member with rfl | ⟨part, written, inside⟩
  · rfl
  · obtain ⟨range, _, rfl⟩ := List.mem_map.mp written
    exact (range.characters_of_text c inside).1

theorem text_ne_nil {list : VersionList} (nonempty : list.ranges ≠ []) : list.text.toList ≠ [] := by
  obtain ⟨first, rest, same⟩ := List.exists_cons_of_ne_nil nonempty
  rw [text_toList, same, List.map_cons]
  cases rest with
  | nil => simp [first.text_ne_nil]
  | cons second others => simp [first.text_ne_nil]

theorem parse_text {list : VersionList} (normal : list.Normal) (bounded : list.isAny = false) :
    ∃ again, parse list.text = .ok again ∧ (again == list) = true := by
  have cut : Text.fields ',' list.text.toList = list.ranges.map (·.text.toList) := by
    rw [text_toList]
    refine Text.fields_intercalate (by simpa using normal.nonempty) ?_
    intro part written inside
    obtain ⟨range, _, rfl⟩ := List.mem_map.mp written
    exact (range.characters_of_text ',' inside).2 rfl
  obtain ⟨ranges, run, forth, back⟩ : ∃ ranges, (Text.fields ',' list.text.toList).mapM (fun part =>
        let trimmed := Text.trimList part
        if trimmed.isEmpty then .error (.version list.text) else VersionRange.parse trimmed) = .ok ranges ∧
      (∀ range ∈ list.ranges, ∃ again ∈ ranges, (again == range) = true) ∧
      ∀ again ∈ ranges, ∃ range ∈ list.ranges, (again == range) = true := by
    rw [cut, List.mapM_map]
    refine exists_mapM_eq_ok (fun range again => (again == range) = true) fun range member => ?_
    obtain ⟨again, parsed, same⟩ := range.parse_text (normal.ranges range member)
    refine ⟨again, ?_, same⟩
    have visible : Text.trimList range.text.toList = range.text.toList :=
      Text.trimList_of_visible fun c inside => Item.isBlank_of_isVersionCharacter (range.characters_of_text c inside).1
    simpa [visible, range.text_ne_nil] using parsed
  have parsed : parse list.text = .ok (normalize ranges) := bind_eq_ok.mpr ⟨ranges, run, rfl⟩
  refine ⟨_, parsed, (beq_iff_lists (normal_of_parse parsed) normal).mpr fun range => ?_⟩
  rw [lists_normalize]
  · constructor
    · rintro ⟨again, member, same⟩
      obtain ⟨original, present, equal⟩ := back again member
      exact ⟨original, present, BEq.trans (BEq.symm equal) same⟩
    · rintro ⟨original, member, same⟩
      obtain ⟨again, present, equal⟩ := forth original member
      exact ⟨again, present, BEq.trans equal same⟩
  · intro again member
    obtain ⟨original, present, equal⟩ := back again member
    refine Bool.eq_false_iff.mpr fun unbounded => ?_
    have whole := VersionRange.isAny_of_within (VersionRange.within_of_beq equal) unbounded
    rw [isAny, List.any_eq_false] at bounded
    exact bounded original present whole

end VersionList

namespace VariantSetting

def reread (name : String) : VariantSetting → Except SpecFault VariantSetting
  | enabled on => .ok (enabled on)
  | values list =>
    let text := ",".intercalate list
    if text.isEmpty then .error (.valueMissing name) else .ok (ofText text)

theorem readSwitch_eq {name : String} (word : IsWord name) (on : Bool) :
    Item.readSwitch on name.toList = ((enabled on).reread name).map (name, ·) := by
  simp [Item.readSwitch, Item.readName, reread, Except.map, word.nonempty]

theorem readValue_eq (name : String) (list : List String) :
    Item.readValue name (",".intercalate list).toList = ((values list).reread name).map (name, ·) := by
  have empty : (",".intercalate list).toList.isEmpty = (",".intercalate list).isEmpty := by
    rw [Bool.eq_iff_iff, List.isEmpty_iff, String.isEmpty_iff, String.toList_eq_nil_iff]
  rw [Item.readValue, empty, reread, String.ofList_toList]
  split <;> rfl

/-- Values as they are kept: in order and each once, none of them empty, and without the
comma that stands between them. -/
def Written : VariantSetting → Prop
  | enabled _ => True
  | values list => Increasing list ∧ ∀ word ∈ list, word.toList ≠ [] ∧
      ∀ c ∈ word.toList, Item.isValueCharacter c = true ∧ c ≠ ','

theorem IsRead.written {setting : VariantSetting} (read : setting.IsRead) : setting.Written := by
  rcases read with ⟨on, rfl⟩ | ⟨text, inside, rfl⟩
  · trivial
  · unfold ofText
    split
    · trivial
    split
    · trivial
    refine ⟨increasing_sorted _, fun word member => ?_⟩
    have listed := List.mem_mergeSort.mp (mem_of_mem_eraseReps member)
    obtain ⟨part, chosen, rfl⟩ := List.mem_map.mp listed
    obtain ⟨cut, nonempty⟩ := List.mem_filter.mp chosen
    rw [String.toList_ofList]
    refine ⟨by simpa using nonempty, fun c member => ?_⟩
    obtain ⟨present, other⟩ := Text.of_mem_fields cut c member
    exact ⟨inside c present, other⟩

/-- A setting whose text reads as itself. A list without values leaves nothing to read,
and one of the words of a switch alone reads as the switch. -/
def isLegible : VariantSetting → Bool
  | enabled _ => true
  | values [] => false
  | values [word] => !Text.sameIgnoringCase word "true" && !Text.sameIgnoringCase word "false"
  | values _ => true

/-- Several values joined by commas are no word of a switch. -/
private theorem sameIgnoringCase_of_comma {text word : String} (separated : ',' ∈ text.toList)
    (plain : ',' ∉ word.toList.map Text.lower) : Text.sameIgnoringCase text word = false := by
  rw [Text.sameIgnoringCase, beq_eq_false_iff_ne]
  intro same
  exact plain (same ▸ List.mem_map.mpr ⟨',', separated, by decide⟩)

/-- The text of values is one run without the signs that stand around it. -/
theorem characters_of_words {list : List String} (written : (values list).Written) :
    ∀ c ∈ (",".intercalate list).toList, Item.isValueCharacter c = true := by
  intro c member
  rw [String.toList_intercalate] at member
  rcases Text.mem_intercalate member with rfl | ⟨part, listed, inside⟩
  · rfl
  · obtain ⟨word, present, rfl⟩ := List.mem_map.mp listed
    exact ((written.2 word present).2 c inside).1

theorem fields_intercalate_words {list : List String} (written : (values list).Written) (nonempty : list ≠ []) :
    Text.fields ',' (",".intercalate list).toList = list.map String.toList := by
  rw [String.toList_intercalate]
  refine Text.fields_intercalate (by simpa using nonempty) fun part member inside => ?_
  obtain ⟨word, present, rfl⟩ := List.mem_map.mp member
  exact ((written.2 word present).2 ',' inside).2 rfl

/-- Values are read back unless they are taken for a switch. -/
private theorem ofText_intercalate {list : List String} (written : (values list).Written) (nonempty : list ≠ [])
    (on : Text.sameIgnoringCase (",".intercalate list) "true" = false)
    (off : Text.sameIgnoringCase (",".intercalate list) "false" = false) :
    ofText (",".intercalate list) = values list := by
  have cut := fields_intercalate_words written nonempty
  obtain ⟨increasing, words⟩ := written
  have kept : ((list.map String.toList).filter fun part => !part.isEmpty) = list.map String.toList := by
    refine List.filter_eq_self.mpr fun part member => ?_
    obtain ⟨word, present, rfl⟩ := List.mem_map.mp member
    simpa using (words word present).1
  rw [ofText, on, off, cut]
  dsimp only
  rw [kept, List.map_map]
  have same : list.map (String.ofList ∘ String.toList) = list := by simp
  rw [same]
  refine congrArg values (eq_of_increasing (increasing_sorted list) increasing fun word => ?_)
  constructor
  · exact fun member => List.mem_mergeSort.mp (mem_of_mem_eraseReps member)
  · intro member
    obtain ⟨other, found, equal⟩ := exists_beq_mem_eraseReps (List.mem_mergeSort.mpr member)
    rwa [← eq_of_beq equal] at found

/-- Text that is there is read as what follows the sign of a value. -/
private theorem reread_of_mem {name : String} {list : List String} {c : Char}
    (member : c ∈ (",".intercalate list).toList) :
    (values list).reread name = .ok (ofText (",".intercalate list)) := by
  refine if_neg fun empty => ?_
  rw [String.isEmpty_iff.mp empty] at member
  cases member

theorem reread_eq_ok_iff (name : String) {setting : VariantSetting} (written : setting.Written) :
    setting.reread name = .ok setting ↔ setting.isLegible = true := by
  match setting with
  | enabled on => exact ⟨fun _ => rfl, fun _ => rfl⟩
  | values [] => exact ⟨nofun, nofun⟩
  | values [word] =>
    obtain ⟨c, member⟩ := List.exists_mem_of_ne_nil _ (written.2 word List.mem_cons_self).1
    have alone : ",".intercalate [word] = word := String.intercalate_singleton
    rw [reread_of_mem (c := c) (by rwa [alone]), Except.ok.injEq, isLegible, Bool.and_eq_true, Bool.not_eq_true',
      Bool.not_eq_true']
    constructor
    · intro same
      rw [alone, ofText] at same
      split at same
      next => cases same
      next on =>
        split at same
        next => cases same
        next off => exact ⟨Bool.eq_false_iff.mpr on, Bool.eq_false_iff.mpr off⟩
    · rintro ⟨on, off⟩
      exact ofText_intercalate written (List.cons_ne_nil _ _) (by rwa [alone]) (by rwa [alone])
  | values (first :: second :: others) =>
    have separated : ',' ∈ (",".intercalate (first :: second :: others)).toList := by
      simp [String.toList_intercalate]
    rw [reread_of_mem separated, Except.ok.injEq]
    exact iff_of_true (ofText_intercalate written (List.cons_ne_nil _ _) (sameIgnoringCase_of_comma separated (by decide))
      (sameIgnoringCase_of_comma separated (by decide))) rfl

end VariantSetting

end PackageRecipes
