import PackageRecipes.Proofs.OrderedMapLookup

/-! Lists in strictly increasing order. They are equal as soon as they have the same
members, where members count only up to equality. -/

namespace PackageRecipes

variable {α β : Type} [Ord α]

def Increasing (items : List α) : Prop :=
  items.Pairwise fun first second => compare first second = .lt

instance (items : List α) : Decidable (Increasing items) :=
  inferInstanceAs (Decidable (items.Pairwise fun first second => compare first second = .lt))

theorem OrderedMap.increasing_keys (map : OrderedMap α β) : Increasing map.keys :=
  map.increasing.map _ fun _ _ less => less

variable [BEq α] {left right : List α}

def MembersIn (left right : List α) : Prop :=
  ∀ item ∈ left, ∃ other ∈ right, (item == other) = true

omit [Ord α] in
theorem membersIn_of_beq (same : (left == right) = true) : MembersIn left right := by
  induction left generalizing right with
  | nil => exact nofun
  | cons head tail ih =>
    cases right with
    | nil => cases same
    | cons other rest =>
      obtain ⟨heads, tails⟩ := Bool.and_eq_true_iff.mp same
      intro item member
      rcases List.mem_cons.mp member with rfl | later
      · exact ⟨other, List.mem_cons_self, heads⟩
      · exact (ih tails item later).imp fun _ found => ⟨List.mem_cons_of_mem other found.1, found.2⟩

variable [Std.TransOrd α] [Std.LawfulBEqOrd α]

private theorem beq_heads {first second : α} {others rest : List α} (sorted : Increasing (first :: others))
    (forth : MembersIn (second :: rest) (first :: others)) (back : MembersIn (first :: others) (second :: rest))
    (increasing : Increasing (second :: rest)) : (first == second) = true := by
  rw [← Std.compare_eq_iff_beq]
  obtain ⟨one, member, same⟩ := back first List.mem_cons_self
  rcases List.mem_cons.mp member with rfl | later
  · exact Std.compare_eq_iff_beq.mpr same
  obtain ⟨other, present, equal⟩ := forth second List.mem_cons_self
  have above : compare second first = .lt := by
    rw [Std.TransCmp.congr_right (Std.compare_eq_iff_beq.mpr same)]
    exact List.rel_of_pairwise_cons increasing later
  rcases List.mem_cons.mp present with rfl | behind
  · rw [Std.compare_eq_iff_beq.mpr equal] at above
    cases above
  · have below : compare first second = .lt := by
      rw [Std.TransCmp.congr_right (Std.compare_eq_iff_beq.mpr equal)]
      exact List.rel_of_pairwise_cons sorted behind
    rw [Std.OrientedCmp.gt_of_lt above] at below
    cases below

private theorem membersIn_tail {first second : α} {others rest : List α} (sorted : Increasing (first :: others))
    (same : (first == second) = true) (members : MembersIn (first :: others) (second :: rest)) :
    MembersIn others rest := by
  intro item member
  obtain ⟨other, present, equal⟩ := members item (List.mem_cons_of_mem first member)
  rcases List.mem_cons.mp present with rfl | later
  · have less := List.rel_of_pairwise_cons sorted member
    rw [Std.TransCmp.congr_right (Std.compare_eq_iff_beq.mpr equal), Std.compare_eq_iff_beq.mpr same] at less
    cases less
  · exact ⟨other, later, equal⟩

theorem beq_of_increasing (first : Increasing left) (second : Increasing right) (forth : MembersIn left right)
    (back : MembersIn right left) : (left == right) = true := by
  induction left generalizing right with
  | nil =>
    cases right with
    | nil => rfl
    | cons other rest =>
      obtain ⟨_, none, _⟩ := back other List.mem_cons_self
      cases none
  | cons head tail ih =>
    cases right with
    | nil =>
      obtain ⟨_, none, _⟩ := forth head List.mem_cons_self
      cases none
    | cons other rest =>
      have same := beq_heads first back forth second
      have swapped : (other == head) = true := by
        rw [← Std.compare_eq_iff_beq] at same ⊢
        exact Std.OrientedCmp.eq_comm.mp same
      have tails := ih (List.Pairwise.of_cons first) (List.Pairwise.of_cons second)
        (membersIn_tail first same forth) (membersIn_tail second swapped back)
      exact Bool.and_eq_true_iff.mpr ⟨same, tails⟩

/-- Where equality is that of spelling, the members alone make out the list. -/
theorem eq_of_increasing [LawfulBEq α] (first : Increasing left) (second : Increasing right)
    (members : ∀ item, item ∈ left ↔ item ∈ right) : left = right :=
  eq_of_beq <| beq_of_increasing first second (fun item member => ⟨item, (members item).mp member, BEq.refl item⟩)
    fun item member => ⟨item, (members item).mpr member, BEq.refl item⟩

/-- Maps in which the same keys are found have equal keys. -/
theorem OrderedMap.beq_keys {map other : OrderedMap α β} (same : ∀ key, map.contains key = other.contains key) :
    (map.keys == other.keys) = true := by
  have forth : ∀ {map other : OrderedMap α β}, (∀ key, map.contains key = other.contains key) →
      MembersIn map.keys other.keys := by
    intro map other same key member
    obtain ⟨entry, present, rfl⟩ := List.mem_map.mp member
    have found := same entry.1
    rw [contains, map.find?_of_mem present, Option.isSome_some, eq_comm, contains, Option.isSome_iff_exists] at found
    obtain ⟨value, found⟩ := found
    obtain ⟨equal, there, order, _⟩ := other.find?_eq_some_iff.mp found
    exact ⟨equal.1, List.mem_map_of_mem there, Std.compare_eq_iff_beq.mp order⟩
  exact beq_of_increasing map.increasing_keys other.increasing_keys (forth same) (forth fun key => (same key).symm)

omit [BEq α] [Std.LawfulBEqOrd α] in
theorem OrderedMap.map_some_entries (map : OrderedMap α β) :
    map.entries.map some = map.keys.map fun key => (map.find? key).map fun value => (key, value) := by
  rw [keys, List.map_map]
  exact List.map_congr_left fun entry member => by simp [map.find?_of_mem member]

/-- A map is made out by what is found in it. -/
theorem OrderedMap.eq_of_find? [LawfulBEq α] {map other : OrderedMap α β}
    (same : ∀ key, map.find? key = other.find? key) : map = other := by
  have keys : map.keys = other.keys := eq_of_beq <| beq_keys fun key => by rw [contains, contains, same]
  have entries : map.entries.map some = other.entries.map some := by
    rw [map_some_entries, map_some_entries, keys]
    simp only [same]
  cases map
  cases other
  cases (List.map_inj_right fun _ _ => Option.some.inj).mp entries
  rfl

/-- Values under different keys may be written in any order. -/
theorem OrderedMap.insert_comm [LawfulBEq α] (map : OrderedMap α β) {first second : α}
    (apart : compare first second ≠ .eq) (value other : β) :
    (map.insert first value).insert second other = (map.insert second other).insert first value := by
  refine eq_of_find? fun key => ?_
  simp only [find?_insert]
  by_cases here : compare key first = .eq
  · have there : compare key second ≠ .eq := fun there =>
      apart (Std.TransCmp.eq_trans (Std.OrientedCmp.eq_comm.mp here) there)
    rw [if_neg there, if_pos here, if_pos here]
  · rw [if_neg here, if_neg here]

theorem OrderedMap.eq_of_mem_iff [LawfulBEq α] {map other : OrderedMap α β}
    (members : ∀ entry, entry ∈ map.entries ↔ entry ∈ other.entries) : map = other := by
  refine eq_of_find? fun key => Option.ext fun value => ?_
  simp only [find?_eq_some_iff, members]

private theorem increasing_eraseRepsLoop {kept : α} {rest earlier : List α}
    (sorted : (kept :: rest).Pairwise fun first second => (compare first second).isLE = true)
    (before : (kept :: earlier).Pairwise fun later first => compare first later = .lt) :
    Increasing (List.eraseRepsBy.loop (· == ·) kept rest earlier) := by
  induction rest generalizing kept earlier with
  | nil => exact List.pairwise_reverse.mpr before
  | cons next others ih =>
    obtain ⟨above, sorted⟩ := List.pairwise_cons.mp sorted
    simp only [List.eraseRepsBy.loop]
    split
    next =>
      refine ih (List.pairwise_cons.mpr ⟨fun item member => ?_, List.Pairwise.of_cons sorted⟩) before
      exact above item (List.mem_cons_of_mem next member)
    next apart =>
      have less : compare kept next = .lt := by
        have atMost := above next List.mem_cons_self
        rw [Bool.eq_false_iff, ne_eq, ← Std.compare_eq_iff_beq] at apart
        cases order : compare kept next <;> simp_all
      refine ih sorted (List.pairwise_cons.mpr ⟨fun first member => ?_, before⟩)
      rcases List.mem_cons.mp member with rfl | earlier
      · exact less
      · exact Std.TransCmp.lt_trans (List.rel_of_pairwise_cons before earlier) less

/-- Sorting items and keeping each once puts them in strictly increasing order. -/
theorem increasing_sorted (items : List α) :
    Increasing (items.mergeSort fun left right => (compare left right).isLE).eraseReps := by
  have total : ∀ left right : α, ((compare left right).isLE || (compare right left).isLE) = true := by
    intro left right
    rw [Std.OrientedOrd.eq_swap (a := right)]
    cases compare left right <;> rfl
  have sorted : (items.mergeSort fun left right => (compare left right).isLE).Pairwise
      fun left right => (compare left right).isLE = true :=
    List.pairwise_mergeSort (fun _ _ _ => Std.TransCmp.isLE_trans) total items
  revert sorted
  cases items.mergeSort fun left right => (compare left right).isLE with
  | nil => exact fun _ => .nil
  | cons first rest => exact fun sorted => increasing_eraseRepsLoop sorted (List.pairwise_singleton _ first)

omit [Std.TransOrd α] in
private theorem eraseRepsLoop_of_increasing {kept : α} {rest earlier : List α}
    (increasing : Increasing (kept :: rest)) :
    List.eraseRepsBy.loop (· == ·) kept rest earlier = earlier.reverse ++ kept :: rest := by
  induction rest generalizing kept earlier with
  | nil => simp [List.eraseRepsBy.loop]
  | cons next others ih =>
    have apart : (kept == next) = false := by
      rw [Bool.eq_false_iff, ne_eq, ← Std.compare_eq_iff_beq, List.rel_of_pairwise_cons increasing List.mem_cons_self]
      simp
    simp [List.eraseRepsBy.loop, apart, ih (List.Pairwise.of_cons increasing)]

omit [Std.TransOrd α] in
/-- Items in strictly increasing order are sorted and there once already. -/
theorem sorted_of_increasing {items : List α} (increasing : Increasing items) :
    (items.mergeSort fun left right => (compare left right).isLE).eraseReps = items := by
  have sorted : items.Pairwise fun left right => (compare left right).isLE = true :=
    increasing.imp fun {left right} less => by
      rw [less]
      rfl
  rw [List.mergeSort_of_pairwise sorted]
  cases items with
  | nil => rfl
  | cons first rest => exact eraseRepsLoop_of_increasing increasing

end PackageRecipes
