import PackageRecipes.OrderedMap

/-! What is found in an ordered map after each way of writing to it. Keys count only
up to comparison, so every law speaks of keys that compare equal. -/

namespace PackageRecipes.OrderedMap

variable {κ α β : Type} [Ord κ]

section Lists

variable [Std.TransOrd κ] {entries : List (κ × α)}

theorem lookup?_congr {key other : κ} (same : compare key other = .eq) :
    lookup? key entries = lookup? other entries := by
  induction entries with
  | nil => rfl
  | cons head rest ih =>
    simp only [lookup?, Std.TransCmp.congr_left same, ih]

theorem lookup?_eq_none_of_lt {key : κ} {head : κ × α}
    (sorted : (head :: entries).Pairwise fun first second => compare first.1 second.1 = .lt)
    (below : compare key head.1 = .lt) : lookup? key (head :: entries) = none := by
  apply lookup?_eq_none
  intro entry member same
  rcases List.mem_cons.mp member with rfl | later
  · exact absurd (below.symm.trans same) (by simp)
  · have less := Std.TransCmp.lt_trans below (List.rel_of_pairwise_cons sorted later)
    exact absurd (less.symm.trans same) (by simp)

theorem lookup?_eq_none_of_eq {key : κ} {head : κ × α}
    (sorted : (head :: entries).Pairwise fun first second => compare first.1 second.1 = .lt)
    (same : compare key head.1 = .eq) : lookup? key entries = none := by
  apply lookup?_eq_none
  intro entry member equal
  have less := List.rel_of_pairwise_cons sorted member
  rw [← Std.TransCmp.congr_left same, equal] at less
  cases less

theorem lookup?_upsertEntry (key other : κ) (update : Option α → α)
    (sorted : entries.Pairwise fun first second => compare first.1 second.1 = .lt) :
    lookup? other (upsertEntry key update entries) =
      if compare other key = .eq then some (update (lookup? key entries))
      else lookup? other entries := by
  induction entries with
  | nil => simp [upsertEntry, lookup?]
  | cons head rest ih =>
    obtain ⟨first, value⟩ := head
    unfold upsertEntry
    split
    next less =>
      rw [lookup?_eq_none_of_lt sorted less]
      simp only [lookup?]
    next same =>
      have swap : compare other key = compare other first := Std.TransCmp.congr_right same
      simp only [lookup?, same, if_true, swap]
      split <;> rfl
    next greater =>
      simp only [lookup?, ih (List.Pairwise.of_cons sorted), greater]
      split
      next here =>
        have apart : compare other key ≠ .eq := by
          intro same
          rw [Std.TransCmp.congr_left same, greater] at here
          cases here
        simp [apart]
      next => simp

theorem lookup?_eq_some_iff {key : κ} {value : α}
    (sorted : entries.Pairwise fun first second => compare first.1 second.1 = .lt) :
    lookup? key entries = some value ↔
      ∃ entry ∈ entries, compare key entry.1 = .eq ∧ entry.2 = value := by
  induction entries with
  | nil => simp [lookup?]
  | cons head rest ih =>
    obtain ⟨first, found⟩ := head
    have later := List.pairwise_cons.mp sorted
    simp only [lookup?]
    split
    next here =>
      constructor
      · intro same
        exact ⟨(first, found), List.mem_cons_self, here, Option.some.inj same⟩
      · rintro ⟨entry, member, same, rfl⟩
        rcases List.mem_cons.mp member with rfl | behind
        · rfl
        · have less := later.1 entry behind
          rw [← Std.TransCmp.congr_left here, same] at less
          cases less
    next apart =>
      rw [ih later.2]
      constructor
      · rintro ⟨entry, member, matched⟩
        exact ⟨entry, List.mem_cons_of_mem _ member, matched⟩
      · rintro ⟨entry, member, same, equal⟩
        rcases List.mem_cons.mp member with rfl | behind
        · exact absurd same apart
        · exact ⟨entry, behind, same, equal⟩

private theorem upsertEntry_of_lookup? {key : κ} {value : α} {update : Option α → α}
    (sorted : entries.Pairwise fun first second => compare first.1 second.1 = .lt)
    (found : lookup? key entries = some value) (kept : update (some value) = value) :
    upsertEntry key update entries = entries := by
  induction entries with
  | nil => cases found
  | cons head rest ih =>
    obtain ⟨first, present⟩ := head
    unfold upsertEntry
    split
    next less =>
      rw [lookup?_eq_none_of_lt sorted less] at found
      cases found
    next same =>
      simp only [lookup?, same, if_true] at found
      rw [Option.some.inj found, kept]
    next greater =>
      simp only [lookup?, greater] at found
      rw [ih (List.Pairwise.of_cons sorted) found]

theorem upsertEntry_upsertEntry (key : κ) (early late : Option α → α) :
    upsertEntry key late (upsertEntry key early entries) = upsertEntry key (fun old => late (some (early old))) entries := by
  induction entries with
  | nil => simp [upsertEntry, Std.ReflCmp.compare_self]
  | cons head rest ih =>
    obtain ⟨first, present⟩ := head
    cases order : compare key first with
    | lt => simp [upsertEntry, order, Std.ReflCmp.compare_self]
    | eq => simp [upsertEntry, order]
    | gt => simp [upsertEntry, order, ih]

end Lists

theorem find?_mapValues (map : OrderedMap κ α) (f : α → β) (key : κ) :
    (map.mapValues f).find? key = (map.find? key).map f := by
  simp only [find?, mapValues]
  induction map.entries with
  | nil => rfl
  | cons head rest ih =>
    simp only [List.map_cons, lookup?, ih]
    split <;> rfl

theorem find?_getD_empty (map : Option (OrderedMap κ α)) (key : κ) :
    (map.getD empty).find? key = map.bind (·.find? key) := by
  cases map <;> rfl

variable [Std.TransOrd κ] (map : OrderedMap κ α)

theorem find?_congr {key other : κ} (same : compare key other = .eq) :
    map.find? key = map.find? other :=
  lookup?_congr same

theorem find?_eq_some_iff {key : κ} {value : α} :
    map.find? key = some value ↔
      ∃ entry ∈ map.entries, compare key entry.1 = .eq ∧ entry.2 = value :=
  lookup?_eq_some_iff map.increasing

theorem find?_of_mem {entry : κ × α} (member : entry ∈ map.entries) :
    map.find? entry.1 = some entry.2 :=
  map.find?_eq_some_iff.mpr ⟨entry, member, Std.ReflCmp.compare_self, rfl⟩

theorem find?_upsert (key other : κ) (update : Option α → α) :
    (map.upsert key update).find? other =
      if compare other key = .eq then some (update (map.find? key)) else map.find? other :=
  lookup?_upsertEntry key other update map.increasing

theorem contains_upsert [Std.LawfulEqOrd κ] {key other : κ} {update : Option α → α} :
    (map.upsert key update).contains other = true ↔ other = key ∨ map.contains other = true := by
  rw [contains, contains, find?_upsert]
  split
  next same => simp [Std.LawfulEqOrd.eq_of_compare same]
  next apart =>
    have different : other ≠ key := fun same => apart (same ▸ Std.ReflCmp.compare_self)
    simp [different]

theorem find?_insert (key other : κ) (value : α) :
    (map.insert key value).find? other =
      if compare other key = .eq then some value else map.find? other :=
  map.find?_upsert key other fun _ => value

theorem contains_insert_eq_false_iff [Std.LawfulEqOrd κ] {key other : κ} {value : α} :
    (map.insert key value).contains other = false ↔ other ≠ key ∧ map.contains other = false := by
  rw [← Bool.not_eq_true, ← Bool.not_eq_true, ← not_or]
  exact not_congr (map.contains_upsert)

/-- What holds wherever something is found, and of the value written under all keys equal to
its own, holds wherever something is found afterwards. -/
theorem forall_insert {holds : κ → α → Prop} {key : κ} {value : α}
    (each : ∀ other found, map.find? other = some found → holds other found)
    (added : ∀ other, compare other key = .eq → holds other value) :
    ∀ other found, (map.insert key value).find? other = some found → holds other found := by
  intro other found present
  rw [find?_insert] at present
  split at present
  next same =>
    cases present
    exact added other same
  next => exact each other found present

theorem upsert_of_find? {key : κ} {value : α} {update : Option α → α} (found : map.find? key = some value)
    (kept : update (some value) = value) : map.upsert key update = map := by
  obtain ⟨entries, increasing⟩ := map
  simp only [upsert, mk.injEq]
  exact upsertEntry_of_lookup? increasing found kept

theorem insert_of_find? {key : κ} {value : α} (found : map.find? key = some value) :
    map.insert key value = map :=
  map.upsert_of_find? found rfl

/-- Of two writes under one key the first only prepares the value for the second. -/
theorem upsert_upsert (key : κ) (early late : Option α → α) :
    (map.upsert key early).upsert key late = map.upsert key fun old => late (some (early old)) := by
  simp only [upsert, mk.injEq]
  exact upsertEntry_upsertEntry key early late

theorem mem_keys_iff [Std.LawfulEqOrd κ] {key : κ} : key ∈ map.keys ↔ (map.find? key).isSome := by
  rw [Option.isSome_iff_exists]
  constructor
  · intro member
    obtain ⟨entry, present, rfl⟩ := List.mem_map.mp member
    exact ⟨entry.2, map.find?_of_mem present⟩
  · rintro ⟨value, found⟩
    obtain ⟨entry, present, same, _⟩ := map.find?_eq_some_iff.mp found
    rw [Std.LawfulEqOrd.eq_of_compare same]
    exact List.mem_map_of_mem present

theorem nodup_keys : map.keys.Nodup := by
  refine List.Pairwise.map _ (fun first second less same => ?_) map.increasing
  rw [same] at less
  exact absurd (less.symm.trans Std.ReflCmp.compare_self) (by simp)

end PackageRecipes.OrderedMap

namespace PackageRecipes.OrderedSet

variable {κ : Type} [Ord κ] [Std.TransOrd κ] [Std.LawfulEqOrd κ]

theorem mem_toList_iff {members : OrderedSet κ} {member : κ} :
    member ∈ toList members ↔ OrderedMap.contains members member = true :=
  members.mem_keys_iff

theorem mem_toList_add {members : OrderedSet κ} {added member : κ} :
    member ∈ toList (add members added) ↔ member = added ∨ member ∈ toList members := by
  rw [mem_toList_iff, mem_toList_iff]
  exact members.contains_upsert

theorem mem_toList_ofList {list : List κ} {member : κ} : member ∈ toList (ofList list) ↔ member ∈ list := by
  induction list with
  | nil => exact ⟨nofun, nofun⟩
  | cons first rest ih =>
    rw [List.mem_cons, ← ih]
    exact mem_toList_add

theorem contains_ofList [BEq κ] [LawfulBEq κ] {list : List κ} {member : κ} :
    OrderedMap.contains (ofList list) member = list.contains member := by
  rw [Bool.eq_iff_iff, ← mem_toList_iff, mem_toList_ofList, List.contains_iff_mem]

end PackageRecipes.OrderedSet
