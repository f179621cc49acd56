import PackageRecipes.Text

/-! What a text is cut into at a separator, and what is trimmed from it. -/

namespace PackageRecipes.Text

theorem fields_ne_nil (separator : Char) (text : List Char) : fields separator text ≠ [] := by
  induction text with
  | nil => simp [fields]
  | cons c rest ih =>
    unfold fields
    split
    · simp
    · split <;> simp

/-- Each separator divides the parts before it from those behind it. -/
theorem fields_append (separator : Char) (before after : List Char) :
    fields separator (before ++ separator :: after) = fields separator before ++ fields separator after := by
  induction before with
  | nil => simp [fields]
  | cons c rest ih =>
    obtain ⟨first, others, same⟩ := List.exists_cons_of_ne_nil (fields_ne_nil separator rest)
    rw [List.cons_append, fields, fields, ih, same]
    split <;> rfl

theorem fields_single {separator : Char} {part : List Char} (apart : separator ∉ part) :
    fields separator part = [part] := by
  induction part with
  | nil => rfl
  | cons c others ih =>
    rw [List.mem_cons, not_or] at apart
    obtain ⟨other, apart⟩ := apart
    rw [fields, if_neg (Ne.symm other), ih apart]

theorem fields_run {separator : Char} {part : List Char} (rest : List Char) (apart : separator ∉ part) :
    fields separator (part ++ separator :: rest) = part :: fields separator rest := by
  rw [fields_append, fields_single apart, List.singleton_append]

/-- Parts without the separator are what a text joined from them is cut into. -/
theorem fields_intercalate {separator : Char} {parts : List (List Char)} (nonempty : parts ≠ [])
    (apart : ∀ part ∈ parts, separator ∉ part) : fields separator ([separator].intercalate parts) = parts := by
  induction parts with
  | nil => exact absurd rfl nonempty
  | cons first rest ih =>
    obtain ⟨alone, apart⟩ := List.forall_mem_cons.mp apart
    cases rest with
    | nil =>
      rw [List.intercalate_singleton]
      exact fields_single alone
    | cons second others =>
      rw [List.intercalate_cons_cons, List.append_assoc, List.singleton_append, fields_run _ alone,
        ih (List.cons_ne_nil second others) apart]

theorem mem_intercalate {separator c : Char} {parts : List (List Char)} (member : c ∈ [separator].intercalate parts) :
    c = separator ∨ ∃ part ∈ parts, c ∈ part := by
  induction parts with
  | nil => cases member
  | cons first rest ih =>
    cases rest with
    | nil =>
      rw [List.intercalate_singleton] at member
      exact .inr ⟨first, List.mem_cons_self, member⟩
    | cons second others =>
      rw [List.intercalate_cons_cons, List.append_assoc, List.mem_append, List.mem_append] at member
      rcases member with inside | separating | later
      · exact .inr ⟨first, List.mem_cons_self, inside⟩
      · exact .inl (List.mem_singleton.mp separating)
      · exact (ih later).imp_right fun ⟨part, present, inside⟩ => ⟨part, List.mem_cons_of_mem first present, inside⟩

/-- The parts together are the text without the separators. -/
private theorem flatten_fields (separator : Char) (text : List Char) :
    (fields separator text).flatten = text.filter (· != separator) := by
  induction text with
  | nil => rfl
  | cons c rest ih =>
    obtain ⟨first, others, same⟩ := List.exists_cons_of_ne_nil (fields_ne_nil separator rest)
    rw [same] at ih
    rw [fields, same]
    split
    next here => simp [here, ← ih]
    next other => simp [other, ← ih]

theorem of_mem_fields {separator : Char} {text part : List Char} (member : part ∈ fields separator text) :
    ∀ c ∈ part, c ∈ text ∧ c ≠ separator := by
  intro c inside
  have present := List.mem_flatten_of_mem member inside
  rw [flatten_fields, List.mem_filter] at present
  simpa using present

theorem length_le_of_mem_fields {separator : Char} {text part : List Char} (member : part ∈ fields separator text) :
    part.length ≤ text.length :=
  calc part.length ≤ (fields separator text).flatten.length := (List.sublist_flatten_of_mem member).length_le
    _ = (text.filter (· != separator)).length := by rw [flatten_fields]
    _ ≤ text.length := List.length_filter_le _ text

theorem cutOnce_run {separator : Char} {part : List Char} (rest : List Char) (apart : separator ∉ part) :
    cutOnce separator (part ++ separator :: rest) = some (part, rest) := by
  induction part with
  | nil => simp [cutOnce]
  | cons c others ih =>
    rw [List.mem_cons, not_or] at apart
    obtain ⟨other, apart⟩ := apart
    rw [List.cons_append, cutOnce, if_neg (Ne.symm other), ih apart]
    rfl

theorem cutOnce_eq_none {separator : Char} {text : List Char} (apart : separator ∉ text) :
    cutOnce separator text = none := by
  induction text with
  | nil => rfl
  | cons c others ih =>
    rw [List.mem_cons, not_or] at apart
    obtain ⟨other, apart⟩ := apart
    rw [cutOnce, if_neg (Ne.symm other), ih apart]
    rfl

theorem trimList_of_visible {text : List Char} (visible : ∀ c ∈ text, isBlank c = false) : trimList text = text := by
  have whole : ∀ {text : List Char}, (∀ c ∈ text, isBlank c = false) → text.dropWhile isBlank = text := by
    intro text visible
    cases text with
    | nil => rfl
    | cons c rest => exact List.dropWhile_cons_of_neg (by simp [visible c List.mem_cons_self])
  rw [trimList, whole visible, whole fun c member => visible c (List.mem_reverse.mp member), List.reverse_reverse]

end PackageRecipes.Text
