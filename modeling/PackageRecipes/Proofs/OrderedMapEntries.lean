import Mathlib.Order.Defs.Unbundled
import PackageRecipes.Proofs.OrderedMapLookup

/-! What writing to an ordered map does to its entries. No entry goes away, keys keep
their spelling, and at most one value changes. -/

namespace PackageRecipes.OrderedMap

variable {κ α : Type} [Ord κ]

section Lists

variable {key : κ} {update : Option α → α} {entries : List (κ × α)} {entry : κ × α}

private theorem mem_upsertEntry_cases (member : entry ∈ upsertEntry key update entries) :
    entry ∈ entries ∨ entry = (key, update none) ∨
      ∃ value, (entry.1, value) ∈ entries ∧ compare key entry.1 = .eq ∧ entry.2 = update (some value) := by
  induction entries with
  | nil => exact .inr (.inl (List.mem_singleton.mp member))
  | cons head rest ih =>
    obtain ⟨other, value⟩ := head
    unfold upsertEntry at member
    split at member
    next =>
      rcases List.mem_cons.mp member with new | old
      · exact .inr (.inl new)
      · exact .inl old
    next same =>
      rcases List.mem_cons.mp member with rfl | old
      · exact .inr (.inr ⟨value, List.mem_cons_self, same, rfl⟩)
      · exact .inl (List.mem_cons_of_mem _ old)
    next =>
      rcases List.mem_cons.mp member with rfl | later
      · exact .inl List.mem_cons_self
      · rcases ih later with old | new | ⟨before, present, changed⟩
        · exact .inl (List.mem_cons_of_mem _ old)
        · exact .inr (.inl new)
        · exact .inr (.inr ⟨before, List.mem_cons_of_mem _ present, changed⟩)

private theorem exists_mem_upsertEntry (member : entry ∈ entries) :
    ∃ value, (entry.1, value) ∈ upsertEntry key update entries ∧
      (value = entry.2 ∨ compare key entry.1 = .eq ∧ value = update (some entry.2)) := by
  induction entries with
  | nil => cases member
  | cons head rest ih =>
    obtain ⟨other, value⟩ := head
    unfold upsertEntry
    split
    next => exact ⟨entry.2, List.mem_cons_of_mem _ member, .inl rfl⟩
    next same =>
      rcases List.mem_cons.mp member with rfl | later
      · exact ⟨update (some value), List.mem_cons_self, .inr ⟨same, rfl⟩⟩
      · exact ⟨entry.2, List.mem_cons_of_mem _ later, .inl rfl⟩
    next =>
      rcases List.mem_cons.mp member with rfl | later
      · exact ⟨value, List.mem_cons_self, .inl rfl⟩
      · obtain ⟨found, present, changed⟩ := ih later
        exact ⟨found, List.mem_cons_of_mem _ present, changed⟩


end Lists

def All (holds : κ → α → Prop) (map : OrderedMap κ α) : Prop :=
  ∀ entry ∈ map.entries, holds entry.1 entry.2

theorem all_empty (holds : κ → α → Prop) : (empty : OrderedMap κ α).All holds :=
  fun _ none => absurd none List.not_mem_nil

/-- Every key of the one map is in the other as it is spelled, with a value that has grown. -/
def Extends (grows : α → α → Prop) (before after : OrderedMap κ α) : Prop :=
  ∀ entry ∈ before.entries, ∃ value, (entry.1, value) ∈ after.entries ∧ grows entry.2 value

variable {map before middle after : OrderedMap κ α} {key : κ} {update : Option α → α} {holds : κ → α → Prop}
  {grows : α → α → Prop}

theorem Extends.refl [Std.Refl grows] (map : OrderedMap κ α) : map.Extends grows map :=
  fun entry member => ⟨entry.2, member, refl_of grows entry.2⟩

theorem Extends.trans [IsTrans α grows] (early : before.Extends grows middle) (late : middle.Extends grows after) :
    before.Extends grows after := by
  intro entry member
  obtain ⟨value, present, grown⟩ := early entry member
  obtain ⟨last, final, more⟩ := late _ present
  exact ⟨last, final, trans_of grows grown more⟩

instance [IsPreorder α grows] : IsPreorder (OrderedMap κ α) (Extends grows) where
  refl := Extends.refl
  trans _ _ _ := Extends.trans

/-- Growing from the first value to the last of a fold, step by step. -/
theorem Extends.foldl [IsPreorder α grows] {ι : Type} {step : OrderedMap κ α → ι → OrderedMap κ α}
    (grown : ∀ (map : OrderedMap κ α) item, map.Extends grows (step map item)) (items : List ι)
    (map : OrderedMap κ α) :
    map.Extends grows (items.foldl step map) :=
  List.foldlRecOn items step (.refl map) fun _ so item _ => so.trans (grown _ item)

section Writing

variable [Std.TransOrd κ]

theorem All.find? (all : map.All holds) {value : α} (found : map.find? key = some value) :
    ∃ other, compare key other = .eq ∧ holds other value := by
  obtain ⟨entry, member, same, rfl⟩ := map.find?_eq_some_iff.mp found
  exact ⟨entry.1, same, all entry member⟩

/-- Writing under a key keeps the property if the value written has it: under the key
itself if it is new, else under the equal one that is there. -/
theorem All.upsert (all : map.All holds) (added : holds key (update none))
    (changed : ∀ other value, compare key other = .eq → holds other value → holds other (update (some value))) :
    (map.upsert key update).All holds := by
  intro entry member
  rcases mem_upsertEntry_cases member with old | rfl | ⟨value, old, same, written⟩
  · exact all entry old
  · exact added
  · rw [written]
    exact changed entry.1 value same (all _ old)

/-- There is at most one entry if all keys are the same. -/
theorem All.size_le_one (all : map.All fun other _ => other = key) : map.size ≤ 1 := by
  obtain ⟨entries, increasing⟩ := map
  match entries, increasing, all with
  | [], _, _ => exact Nat.zero_le 1
  | [_], _, _ => exact Nat.le_refl 1
  | first :: second :: _, increasing, all =>
    have less := List.rel_of_pairwise_cons increasing List.mem_cons_self
    rw [all first List.mem_cons_self, all second (List.mem_cons_of_mem _ List.mem_cons_self)] at less
    exact absurd (less.symm.trans Std.ReflCmp.compare_self) (by simp)

theorem Extends.upsert [Std.Refl grows]
    (grown : ∀ value, map.find? key = some value → grows value (update (some value))) :
    map.Extends grows (map.upsert key update) := by
  intro entry member
  obtain ⟨value, present, rfl | ⟨same, rfl⟩⟩ := @exists_mem_upsertEntry _ _ _ key update _ _ member
  · exact ⟨_, present, refl_of grows _⟩
  · exact ⟨_, present, grown _ ((map.find?_congr same).trans (map.find?_of_mem member))⟩

theorem keys_upsert_of_contains (present : map.contains key = true) : (map.upsert key update).keys = map.keys := by
  obtain ⟨value, found⟩ := Option.isSome_iff_exists.mp present
  obtain ⟨entries, increasing⟩ := map
  change (upsertEntry key update entries).map (·.1) = entries.map (·.1)
  change lookup? key entries = some value at found
  clear present
  induction entries with
  | nil => cases found
  | cons head rest ih =>
    unfold upsertEntry
    split
    next less =>
      rw [lookup?_eq_none_of_lt increasing less] at found
      cases found
    next => rfl
    next greater =>
      simp only [lookup?, greater] at found
      rw [List.map_cons, List.map_cons, ih (List.Pairwise.of_cons increasing) found]

theorem upsert_ne_empty (map : OrderedMap κ α) (key : κ) (update : Option α → α) :
    (map.upsert key update).entries ≠ [] := by
  have found := map.find?_upsert key key update
  rw [if_pos Std.ReflCmp.compare_self] at found
  obtain ⟨entry, member, _⟩ := (map.upsert key update).find?_eq_some_iff.mp found
  exact List.ne_nil_of_mem member

end Writing

end PackageRecipes.OrderedMap
