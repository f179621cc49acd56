import PackageRecipes.Proofs.OrderedMapLookup
import PackageRecipes.Proofs.Outcome
import PackageRecipes.Spec.Satisfaction

/-! Narrowing one part of an expression finds the weakest part that meets both. This is
one law for every part. It passes from the values of a part to optional ones, where
what is absent constrains nothing, and to maps, which are narrowed key by key. -/

namespace PackageRecipes

variable {κ ε α : Type}

/-- `narrow` is the meet of the preorder `meets` wherever a proper value lies below
both sides, and otherwise gives nothing. -/
structure PartialMeet (meets : α → α → Bool) (proper : α → Prop) (narrow : α → α → Option α) : Prop where
  refl : ∀ value, meets value value = true
  trans : ∀ {first second third}, meets first second = true → meets second third = true →
    meets first third = true
  below : ∀ {left right both}, narrow left right = some both →
    meets both left = true ∧ meets both right = true
  greatest : ∀ {value left right}, proper value → meets value left = true → meets value right = true →
    ∃ both, narrow left right = some both ∧ meets value both = true

/-- Narrowing where either side may constrain nothing. -/
def narrowOptional (narrow : α → α → Option α) : Option α → Option α → Option (Option α)
  | some left, some right => (narrow left right).map some
  | some left, none => some (some left)
  | none, right => some right

theorem PartialMeet.equality [BEq α] [LawfulBEq α] (proper : α → Prop) :
    PartialMeet (· == ·) proper fun left right => if left == right then some left else none where
  refl value := BEq.refl value
  trans first second := BEq.trans first second
  below {left right both} narrowed := by
    split at narrowed
    next same =>
      cases narrowed
      exact ⟨BEq.refl left, same⟩
    next => cases narrowed
  greatest {value left right} _ first second := by
    rw [← eq_of_beq first, ← eq_of_beq second]
    exact ⟨value, by simp, BEq.refl value⟩

section Optional

variable {meets : α → α → Bool} {proper : α → Prop} {narrow : α → α → Option α}

theorem meetsOptional_refl (refl : ∀ value, meets value value = true) (value : Option α) :
    meetsOptional meets value value = true := by
  cases value with
  | none => rfl
  | some value => exact refl value

theorem exists_of_meetsOptional {left : Option α} {value : α} (inside : meetsOptional meets left (some value) = true) :
    ∃ own, left = some own ∧ meets own value = true := by
  cases left with
  | none => cases inside
  | some own => exact ⟨own, rfl, inside⟩

theorem meetsOptional_of_beq [BEq α] (equal : ∀ {left right : α}, (left == right) = true → meets left right = true)
    {left right : Option α} (same : (left == right) = true) : meetsOptional meets left right = true := by
  cases right with
  | none => cases left <;> rfl
  | some second =>
    cases left with
    | none => cases same
    | some first => exact equal same

theorem PartialMeet.optional (meet : PartialMeet meets proper narrow) :
    PartialMeet (meetsOptional meets) (fun value => ∀ present, value = some present → proper present)
      (narrowOptional narrow) where
  refl := meetsOptional_refl meet.refl
  trans {first second third} early late := by
    cases third with
    | none => cases first <;> rfl
    | some last =>
      cases second with
      | none => cases late
      | some middle =>
        cases first with
        | none => cases early
        | some start => exact meet.trans early late
  below {left right both} narrowed := by
    cases left with
    | none =>
      cases narrowed
      exact ⟨by cases right <;> rfl, meetsOptional_refl meet.refl right⟩
    | some first =>
      cases right with
      | none =>
        cases narrowed
        exact ⟨meet.refl first, rfl⟩
      | some second =>
        obtain ⟨result, found, rfl⟩ := Option.map_eq_some_iff.mp narrowed
        exact meet.below found
  greatest {value left right} valid first second := by
    cases left with
    | none => exact ⟨right, rfl, second⟩
    | some one =>
      cases right with
      | none => exact ⟨some one, rfl, first⟩
      | some other =>
        cases value with
        | none => cases first
        | some present =>
          obtain ⟨both, found, least⟩ := meet.greatest (valid present rfl) first second
          exact ⟨some both, by simp [narrowOptional, found], least⟩

end Optional

section Maps

variable [Ord κ] [Std.TransOrd κ] {meets : α → α → Bool} {proper : α → Prop} {narrow : α → α → Option α}

/-- Every entry of the second map is met by what the first has under its key. -/
def meetsEntries (meets : α → α → Bool) (left right : OrderedMap κ α) : Bool :=
  right.entries.all fun entry => meetsOptional meets (left.find? entry.1) (some entry.2)

theorem meetsEntries_iff {left right : OrderedMap κ α} :
    meetsEntries meets left right = true ↔
      ∀ key, meetsOptional meets (left.find? key) (right.find? key) = true := by
  rw [meetsEntries, List.all_eq_true]
  constructor
  · intro each key
    cases found : right.find? key with
    | none => cases left.find? key <;> rfl
    | some value =>
      obtain ⟨entry, member, same, rfl⟩ := right.find?_eq_some_iff.mp found
      rw [left.find?_congr same]
      exact each entry member
  · intro each entry member
    rw [← right.find?_of_mem member]
    exact each entry.1

theorem exists_of_meetsEntries {left right : OrderedMap κ α} (inside : meetsEntries meets left right = true) {key : κ}
    {value : α} (found : right.find? key = some value) : ∃ own, left.find? key = some own ∧ meets own value = true := by
  have under := meetsEntries_iff.mp inside key
  rw [found] at under
  exact exists_of_meetsOptional under

/-- A step that narrows an entry into what a map has under its key. -/
def NarrowsEntry (narrow : α → α → Option α)
    (step : OrderedMap κ α → κ × α → Except ε (OrderedMap κ α)) : Prop :=
  ∀ map entry, (step map entry).toOption =
    match map.find? entry.1 with
    | some existing => (narrow existing entry.2).map (map.insert entry.1)
    | none => some (map.insert entry.1 entry.2)

variable {step : OrderedMap κ α → κ × α → Except ε (OrderedMap κ α)}

theorem NarrowsEntry.find? (narrows : NarrowsEntry narrow step) {map after : OrderedMap κ α}
    {entry : κ × α} (run : step map entry = .ok after) :
    (∃ value, narrowOptional narrow (map.find? entry.1) (some entry.2) = some (some value) ∧
      ∀ key, after.find? key = if compare key entry.1 = .eq then some value else map.find? key) := by
  have outcome := narrows map entry
  rw [run] at outcome
  cases found : map.find? entry.1 with
  | none =>
    simp only [found] at outcome
    cases outcome
    exact ⟨entry.2, rfl, fun key => map.find?_insert entry.1 key entry.2⟩
  | some existing =>
    simp only [found] at outcome
    obtain ⟨value, narrowed, same⟩ := Option.map_eq_some_iff.mp outcome.symm
    cases same
    exact ⟨value, by simp [narrowOptional, narrowed], fun key => map.find?_insert entry.1 key value⟩

/-- Narrowing by the entries of a map one after the other narrows key by key. -/
theorem NarrowsEntry.foldlM_find? (narrows : NarrowsEntry narrow step) {entries : List (κ × α)}
    (sorted : entries.Pairwise fun first second => compare first.1 second.1 = .lt)
    {left result : OrderedMap κ α} (run : entries.foldlM step left = .ok result) (key : κ) :
    narrowOptional narrow (left.find? key) (OrderedMap.lookup? key entries) = some (result.find? key) := by
  induction entries generalizing left with
  | nil =>
    cases run
    cases result.find? key <;> rfl
  | cons entry rest ih =>
    rw [List.foldlM_cons, bind_eq_ok] at run
    obtain ⟨after, first, run⟩ := run
    obtain ⟨value, narrowed, written⟩ := narrows.find? first
    have later := ih (List.Pairwise.of_cons sorted) run
    rw [written] at later
    simp only [OrderedMap.lookup?]
    split at later
    next here =>
      rw [OrderedMap.lookup?_eq_none_of_eq sorted here] at later
      rw [if_pos here, left.find?_congr here, narrowed]
      exact later
    next apart =>
      rw [if_neg apart]
      exact later

/-- Narrowing by one entry after the other succeeds if it does at each key. -/
theorem NarrowsEntry.foldlM_succeeds (narrows : NarrowsEntry narrow step) {entries : List (κ × α)}
    (sorted : entries.Pairwise fun first second => compare first.1 second.1 = .lt)
    {left : OrderedMap κ α}
    (each : ∀ entry ∈ entries, ∃ both, narrowOptional narrow (left.find? entry.1) (some entry.2) = some both) :
    ∃ result, entries.foldlM step left = .ok result := by
  induction entries generalizing left with
  | nil => exact ⟨left, rfl⟩
  | cons entry rest ih =>
    have stepped : ∃ after, step left entry = .ok after := by
      obtain ⟨both, narrowed⟩ := each entry List.mem_cons_self
      have outcome := narrows left entry
      cases found : left.find? entry.1 with
      | none =>
        rw [found] at outcome
        exact ⟨_, toOption_eq_some.mp outcome⟩
      | some existing =>
        rw [found] at outcome narrowed
        obtain ⟨value, narrowed, _⟩ := Option.map_eq_some_iff.mp narrowed
        simp only [narrowed] at outcome
        exact ⟨_, toOption_eq_some.mp outcome⟩
    obtain ⟨after, first⟩ := stepped
    obtain ⟨value, _, written⟩ := narrows.find? first
    have remaining : ∀ other ∈ rest,
        ∃ both, narrowOptional narrow (after.find? other.1) (some other.2) = some both := by
      intro other member
      have less := List.rel_of_pairwise_cons sorted member
      rw [written, if_neg (by rw [Std.OrientedCmp.gt_of_lt less]; simp)]
      exact each other (List.mem_cons_of_mem entry member)
    obtain ⟨result, run⟩ := ih (List.Pairwise.of_cons sorted) remaining
    exact ⟨result, by rw [List.foldlM_cons, first]; exact run⟩

theorem PartialMeet.entries (meet : PartialMeet meets proper narrow) (narrows : NarrowsEntry narrow step) :
    PartialMeet (meetsEntries meets)
      (fun map => ∀ key value, map.find? key = some value → proper value)
      (fun left right => (right.entries.foldlM step left).toOption) where
  refl map := meetsEntries_iff.mpr fun key => meet.optional.refl (map.find? key)
  trans early late := by
    rw [meetsEntries_iff] at early late ⊢
    exact fun key => meet.optional.trans (early key) (late key)
  below {left right both} narrowed := by
    have run := toOption_eq_some.mp narrowed
    have keywise := fun key => meet.optional.below (narrows.foldlM_find? right.increasing run key)
    exact ⟨meetsEntries_iff.mpr fun key => (keywise key).1, meetsEntries_iff.mpr fun key => (keywise key).2⟩
  greatest {value left right} valid first second := by
    rw [meetsEntries_iff] at first second
    have keywise := fun key => meet.optional.greatest (valid key) (first key) (second key)
    have each : ∀ entry ∈ right.entries,
        ∃ both, narrowOptional narrow (left.find? entry.1) (some entry.2) = some both := by
      intro entry member
      obtain ⟨both, narrowed, _⟩ := keywise entry.1
      rw [right.find?_of_mem member] at narrowed
      exact ⟨both, narrowed⟩
    obtain ⟨result, run⟩ := narrows.foldlM_succeeds right.increasing each
    refine ⟨result, toOption_eq_some.mpr run, meetsEntries_iff.mpr fun key => ?_⟩
    obtain ⟨both, narrowed, least⟩ := keywise key
    have reached := (narrows.foldlM_find? right.increasing run key).symm.trans narrowed
    rwa [Option.some.inj reached]

end Maps

end PackageRecipes
