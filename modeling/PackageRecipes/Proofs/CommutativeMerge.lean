import PackageRecipes.Proofs.PartialMeet

/-! Merging that may fail and does not depend on the order in which it is done. The laws
hold up to a likeness of values, and only as far as merging succeeds: where one
order succeeds, so does the other. They pass from parts to wholes, to optional values
and to maps. -/

namespace PackageRecipes

variable {κ ε α β : Type}

/-- Merging of normal values is commutative and associative up to likeness. -/
structure CommutativeMerge (alike : α → α → Prop) (normal : α → Prop) (merge : α → α → Option α) : Prop where
  same : Equivalence alike
  closed : ∀ {left right both}, normal left → normal right → merge left right = some both → normal both
  congr : ∀ {left right first second both}, normal left → normal right → normal first → normal second →
    alike left first → alike right second → merge left right = some both →
    ∃ other, merge first second = some other ∧ alike both other
  comm : ∀ {left right both}, normal left → normal right → merge left right = some both →
    ∃ other, merge right left = some other ∧ alike both other
  assoc : ∀ {first second third both result}, normal first → normal second → normal third →
    merge first second = some both → merge both third = some result →
    ∃ later other, merge second third = some later ∧ merge first later = some other ∧ alike result other

section Laws

variable {alike : α → α → Prop} {normal : α → Prop} {merge : α → α → Option α}

theorem CommutativeMerge.rightComm (laws : CommutativeMerge alike normal merge) {start first second both result : α}
    (begins : normal start) (early : normal first) (late : normal second)
    (once : merge start first = some both) (twice : merge both second = some result) :
    ∃ both' result', merge start second = some both' ∧ merge both' first = some result' ∧ alike result result' := by
  obtain ⟨pair, whole, joined, found, likeWhole⟩ := laws.assoc begins early late once twice
  have pairNormal := laws.closed early late joined
  obtain ⟨whole', found, likeTurned⟩ := laws.comm begins pairNormal found
  obtain ⟨both', nested, other, found, likeNested⟩ := laws.assoc early late begins joined found
  obtain ⟨both'', merged, likeBoth⟩ := laws.comm late begins other
  obtain ⟨outer, found, likeOuter⟩ := laws.comm early (laws.closed late begins other) found
  obtain ⟨result', found, likeResult⟩ := laws.congr (laws.closed late begins other) early
    (laws.closed begins late merged) early likeBoth (laws.same.refl first) found
  refine ⟨both'', result', merged, found, ?_⟩
  exact laws.same.trans likeWhole <| laws.same.trans likeTurned <| laws.same.trans likeNested <|
    laws.same.trans likeOuter likeResult

theorem rel_of_exists {first second : Option α}
    (forth : ∀ value, first = some value → ∃ other, second = some other ∧ alike value other)
    (back : ∀ other, second = some other → ∃ value, first = some value) : Option.Rel alike first second := by
  cases found : first with
  | some value =>
    obtain ⟨other, again, like⟩ := forth value found
    rw [again]
    exact .some like
  | none =>
    cases again : second with
    | none => exact .none
    | some other =>
      obtain ⟨value, impossible⟩ := back other again
      cases found.symm.trans impossible

/-- What comes of values that are alike is alike again. -/
theorem rel_bind {alike' : β → β → Prop} {first second : Option α} {next next' : α → Option β}
    (like : Option.Rel alike first second)
    (later : ∀ {value other}, first = some value → second = some other → alike value other →
      Option.Rel alike' (next value) (next' other)) :
    Option.Rel alike' (first.bind next) (second.bind next') := by
  cases like with
  | none => exact .none
  | some same => exact later rfl rfl same

theorem CommutativeMerge.rel_comm (laws : CommutativeMerge alike normal merge) {left right : α} (one : normal left)
    (two : normal right) : Option.Rel alike (merge left right) (merge right left) := by
  apply rel_of_exists
  · exact fun _ merged => laws.comm one two merged
  · intro other merged
    obtain ⟨value, found, _⟩ := laws.comm two one merged
    exact ⟨value, found⟩

theorem CommutativeMerge.rel_assoc (laws : CommutativeMerge alike normal merge) {first second third : α}
    (one : normal first) (two : normal second) (three : normal third) :
    Option.Rel alike ((merge first second).bind (merge · third)) ((merge second third).bind (merge first)) := by
  apply rel_of_exists
  · intro result merged
    obtain ⟨both, early, late⟩ := Option.bind_eq_some_iff.mp merged
    obtain ⟨later, other, next, again, like⟩ := laws.assoc one two three early late
    exact ⟨other, Option.bind_eq_some_iff.mpr ⟨later, next, again⟩, like⟩
  · intro other merged
    obtain ⟨later, next, last⟩ := Option.bind_eq_some_iff.mp merged
    -- Turned round, the law for three values applies twice: the first one moves to the front.
    obtain ⟨_, turned, _⟩ := laws.comm one (laws.closed two three next) last
    obtain ⟨outer, _, outerFound, nested, _⟩ := laws.assoc two three one next turned
    obtain ⟨_, turned, _⟩ := laws.comm two (laws.closed three one outerFound) nested
    obtain ⟨both, _, bothFound, whole, _⟩ := laws.assoc three one two outerFound turned
    obtain ⟨result, found, _⟩ := laws.comm three (laws.closed one two bothFound) whole
    exact ⟨result, Option.bind_eq_some_iff.mpr ⟨both, bothFound, found⟩⟩

/-- A meet is unique up to likeness where values that meet each other are alike. -/
theorem PartialMeet.commutativeMerge {meets : α → α → Bool} (meet : PartialMeet meets normal merge)
    (same : Equivalence alike) (ofAlike : ∀ {left right}, alike left right → meets left right = true)
    (antisymm : ∀ {left right}, meets left right = true → meets right left = true → alike left right)
    (proper : ∀ {left right both}, merge left right = some both → normal both) :
    CommutativeMerge alike (fun _ => True) merge := by
  have greatest : ∀ {value left right both}, normal value → merge left right = some both →
      meets value left = true → meets value right = true → meets value both = true := by
    intro value left right both valid merged one two
    obtain ⟨other, found, inside⟩ := meet.greatest valid one two
    rw [merged] at found
    cases found
    exact inside
  have unique : ∀ {left right first second both}, merge left right = some both →
      (∀ value, normal value → ((meets value left = true ∧ meets value right = true) ↔
        (meets value first = true ∧ meets value second = true))) →
      ∃ other, merge first second = some other ∧ alike both other := by
    intro left right first second both merged bounds
    obtain ⟨one, two⟩ := (bounds both (proper merged)).mp (meet.below merged)
    obtain ⟨other, found, inside⟩ := meet.greatest (proper merged) one two
    obtain ⟨back, forth⟩ := (bounds other (proper found)).mpr (meet.below found)
    exact ⟨other, found, antisymm inside (greatest (proper found) merged back forth)⟩
  constructor
  case same => exact same
  case closed => exact fun _ _ _ => trivial
  case congr =>
    intro left right first second both _ _ _ _ likeLeft likeRight merged
    refine unique merged fun value _ => ⟨fun below => ?_, fun below => ?_⟩
    · exact ⟨meet.trans below.1 (ofAlike likeLeft), meet.trans below.2 (ofAlike likeRight)⟩
    · exact ⟨meet.trans below.1 (ofAlike (same.symm likeLeft)), meet.trans below.2 (ofAlike (same.symm likeRight))⟩
  case comm =>
    intro left right both _ _ merged
    exact unique merged fun value _ => and_comm
  case assoc =>
    intro first second third both result _ _ _ early late
    have belowBoth := meet.below early
    have belowResult := meet.below late
    obtain ⟨later, found, _⟩ :=
      meet.greatest (proper late) (meet.trans belowResult.1 belowBoth.2) belowResult.2
    have belowLater := meet.below found
    obtain ⟨other, whole, like⟩ := @unique _ _ first later _ late fun value valid => by
      constructor
      · rintro ⟨one, two⟩
        exact ⟨meet.trans one belowBoth.1, greatest valid found (meet.trans one belowBoth.2) two⟩
      · rintro ⟨one, two⟩
        exact ⟨greatest valid early one (meet.trans two belowLater.1), meet.trans two belowLater.2⟩
    exact ⟨later, other, found, whole, like⟩

end Laws

section Optional

variable {alike : α → α → Prop} {normal : α → Prop} {merge : α → α → Option α}

theorem rel_equivalence (same : Equivalence alike) : Equivalence (Option.Rel alike) where
  refl value := by
    cases value with
    | none => exact .none
    | some value => exact .some (same.refl value)
  symm like := by
    cases like with
    | none => exact .none
    | some like => exact .some (same.symm like)
  trans early late := by
    cases early with
    | none => exact late
    | some early =>
      cases late with
      | some late => exact .some (same.trans early late)

theorem isSome_of_rel {first second : Option α} (like : Option.Rel alike first second) : first.isSome = second.isSome := by
  cases like <;> rfl

theorem rel_map_some {first second : Option α} (like : Option.Rel alike first second) :
    Option.Rel (Option.Rel alike) (first.map some) (second.map some) := by
  cases like with
  | none => exact .none
  | some like => exact .some (.some like)

/-- Where either side may be absent, the laws stay as they are. -/
theorem CommutativeMerge.optional (laws : CommutativeMerge alike normal merge) :
    CommutativeMerge (Option.Rel alike) (fun value => ∀ present, value = some present → normal present)
      (narrowOptional merge) where
  same := rel_equivalence laws.same
  closed {left right both} one two merged := by
    cases left with
    | none =>
      cases merged
      exact two
    | some first =>
      cases right with
      | none =>
        cases merged
        exact one
      | some second =>
        obtain ⟨result, found, rfl⟩ := Option.map_eq_some_iff.mp merged
        rintro present ⟨⟩
        exact laws.closed (one first rfl) (two second rfl) found
  congr {left right first second both} one two three four likeLeft likeRight merged := by
    cases likeLeft with
    | none =>
      cases merged
      exact ⟨second, rfl, likeRight⟩
    | some likeLeft =>
      cases likeRight with
      | none =>
        cases merged
        exact ⟨_, rfl, .some likeLeft⟩
      | some likeRight =>
        obtain ⟨result, found, rfl⟩ := Option.map_eq_some_iff.mp merged
        obtain ⟨other, again, like⟩ :=
          laws.congr (one _ rfl) (two _ rfl) (three _ rfl) (four _ rfl) likeLeft likeRight found
        exact ⟨some other, by simp [narrowOptional, again], .some like⟩
  comm {left right both} one two merged := by
    cases left with
    | none =>
      cases merged
      exact ⟨right, by cases right <;> rfl, (rel_equivalence laws.same).refl right⟩
    | some first =>
      cases right with
      | none =>
        cases merged
        exact ⟨some first, rfl, .some (laws.same.refl first)⟩
      | some second =>
        obtain ⟨result, found, rfl⟩ := Option.map_eq_some_iff.mp merged
        obtain ⟨other, again, like⟩ := laws.comm (one _ rfl) (two _ rfl) found
        exact ⟨some other, by simp [narrowOptional, again], .some like⟩
  assoc {first second third both result} one two three early late := by
    have refl := (rel_equivalence laws.same).refl result
    cases first with
    | none =>
      cases early
      exact ⟨result, result, late, by cases result <;> rfl, refl⟩
    | some start =>
      cases second with
      | none =>
        cases early
        exact ⟨third, result, by cases third <;> rfl, late, refl⟩
      | some middle =>
        obtain ⟨pair, found, rfl⟩ := Option.map_eq_some_iff.mp early
        cases third with
        | none =>
          cases late
          exact ⟨some middle, some pair, rfl, early, refl⟩
        | some last =>
          obtain ⟨whole, completed, rfl⟩ := Option.map_eq_some_iff.mp late
          obtain ⟨later, other, next, again, like⟩ := laws.assoc (one _ rfl) (two _ rfl) (three _ rfl) found completed
          exact ⟨some later, some other, by simp [narrowOptional, next], by simp [narrowOptional, again], .some like⟩

end Optional

section Parts

variable {alike : α → α → Prop} {normal : α → Prop} {merge : α → α → Option α}

theorem pair_eq_some_iff {one : Option α} {two : Option β} {both : α × β} :
    (one.bind fun first => two.map fun second => (first, second)) = some both ↔ one = some both.1 ∧ two = some both.2 := by
  simp only [Option.bind_eq_some_iff, Option.map_eq_some_iff]
  constructor
  · rintro ⟨first, found, second, again, rfl⟩
    exact ⟨found, again⟩
  · rintro ⟨found, again⟩
    exact ⟨both.1, found, both.2, again, rfl⟩

theorem CommutativeMerge.prod {alike' : β → β → Prop} {normal' : β → Prop} {merge' : β → β → Option β}
    (laws : CommutativeMerge alike normal merge) (laws' : CommutativeMerge alike' normal' merge') :
    CommutativeMerge (fun left right : α × β => alike left.1 right.1 ∧ alike' left.2 right.2)
      (fun pair => normal pair.1 ∧ normal' pair.2)
      (fun left right => (merge left.1 right.1).bind fun one => (merge' left.2 right.2).map fun two => (one, two)) := by
  constructor
  case same =>
    refine ⟨fun pair => ⟨laws.same.refl _, laws'.same.refl _⟩, fun like => ?_, fun early late => ?_⟩
    · exact ⟨laws.same.symm like.1, laws'.same.symm like.2⟩
    · exact ⟨laws.same.trans early.1 late.1, laws'.same.trans early.2 late.2⟩
  case closed =>
    intro left right both one two found
    rw [pair_eq_some_iff] at found
    exact ⟨laws.closed one.1 two.1 found.1, laws'.closed one.2 two.2 found.2⟩
  case congr =>
    intro left right first second both one two three four likeLeft likeRight found
    rw [pair_eq_some_iff] at found
    obtain ⟨other, again, like⟩ := laws.congr one.1 two.1 three.1 four.1 likeLeft.1 likeRight.1 found.1
    obtain ⟨other', again', like'⟩ := laws'.congr one.2 two.2 three.2 four.2 likeLeft.2 likeRight.2 found.2
    exact ⟨(other, other'), pair_eq_some_iff.mpr ⟨again, again'⟩, like, like'⟩
  case comm =>
    intro left right both one two found
    rw [pair_eq_some_iff] at found
    obtain ⟨other, again, like⟩ := laws.comm one.1 two.1 found.1
    obtain ⟨other', again', like'⟩ := laws'.comm one.2 two.2 found.2
    exact ⟨(other, other'), pair_eq_some_iff.mpr ⟨again, again'⟩, like, like'⟩
  case assoc =>
    intro first second third both result one two three early late
    rw [pair_eq_some_iff] at early late
    obtain ⟨later, other, next, again, like⟩ := laws.assoc one.1 two.1 three.1 early.1 late.1
    obtain ⟨later', other', next', again', like'⟩ := laws'.assoc one.2 two.2 three.2 early.2 late.2
    exact ⟨(later, later'), (other, other'), pair_eq_some_iff.mpr ⟨next, next'⟩,
      pair_eq_some_iff.mpr ⟨again, again'⟩, like, like'⟩

/-- What is made of its parts is merged as they are. -/
theorem CommutativeMerge.ofParts (laws : CommutativeMerge alike normal merge) (mergeWhole : β → β → Option β)
    (parts : β → α) (whole : ∀ value, ∃ made, parts made = value)
    (merged : ∀ {left right both}, mergeWhole left right = some both ↔
      merge (parts left) (parts right) = some (parts both)) :
    CommutativeMerge (fun left right => alike (parts left) (parts right)) (fun made => normal (parts made)) mergeWhole := by
  constructor
  case same => exact ⟨fun _ => laws.same.refl _, laws.same.symm, laws.same.trans⟩
  case closed => exact fun one two found => laws.closed one two (merged.mp found)
  case congr =>
    intro left right first second both one two three four likeLeft likeRight found
    obtain ⟨other, again, like⟩ := laws.congr one two three four likeLeft likeRight (merged.mp found)
    obtain ⟨made, rfl⟩ := whole other
    exact ⟨made, merged.mpr again, like⟩
  case comm =>
    intro left right both one two found
    obtain ⟨other, again, like⟩ := laws.comm one two (merged.mp found)
    obtain ⟨made, rfl⟩ := whole other
    exact ⟨made, merged.mpr again, like⟩
  case assoc =>
    intro first second third both result one two three early late
    obtain ⟨later, other, next, again, like⟩ := laws.assoc one two three (merged.mp early) (merged.mp late)
    obtain ⟨between, rfl⟩ := whole later
    obtain ⟨made, rfl⟩ := whole other
    exact ⟨between, made, merged.mpr next, merged.mpr again, like⟩

end Parts

section Maps

variable [Ord κ] {alike : α → α → Prop} {normal : α → Prop} {merge : α → α → Option α}
  {mergeMaps : OrderedMap κ α → OrderedMap κ α → Option (OrderedMap κ α)}

def AlikeEntries (alike : α → α → Prop) (left right : OrderedMap κ α) : Prop :=
  ∀ key, Option.Rel alike (left.find? key) (right.find? key)

/-- Maps are merged if and as their values under each key are. -/
structure MergesEntries (merge : α → α → Option α)
    (mergeMaps : OrderedMap κ α → OrderedMap κ α → Option (OrderedMap κ α)) : Prop where
  found : ∀ {left right both}, mergeMaps left right = some both →
    ∀ key, narrowOptional merge (left.find? key) (right.find? key) = some (both.find? key)
  succeeds : ∀ {left right},
    (∀ key, ∃ value, narrowOptional merge (left.find? key) (right.find? key) = some value) →
    ∃ both, mergeMaps left right = some both

/-- Maps merge to one alike to a given map if their values do under each key. -/
theorem MergesEntries.exists_alike (keywise : MergesEntries merge mergeMaps) {left right both : OrderedMap κ α}
    (each : ∀ key, ∃ value, narrowOptional merge (left.find? key) (right.find? key) = some value ∧
      Option.Rel alike (both.find? key) value) :
    ∃ other, mergeMaps left right = some other ∧ AlikeEntries alike both other := by
  obtain ⟨other, merged⟩ := keywise.succeeds fun key => (each key).imp fun _ => And.left
  refine ⟨other, merged, fun key => ?_⟩
  obtain ⟨value, found, like⟩ := each key
  rw [keywise.found merged key] at found
  cases found
  exact like

theorem NarrowsEntry.mergesEntries [Std.TransOrd κ] {step : OrderedMap κ α → κ × α → Except ε (OrderedMap κ α)}
    (narrows : NarrowsEntry merge step) :
    MergesEntries merge fun left right => (right.entries.foldlM step left).toOption where
  found {left right both} merged := narrows.foldlM_find? right.increasing (toOption_eq_some.mp merged)
  succeeds {left right} keywise := by
    have each : ∀ entry ∈ right.entries,
        ∃ both, narrowOptional merge (left.find? entry.1) (some entry.2) = some both := by
      intro entry member
      rw [← right.find?_of_mem member]
      exact keywise entry.1
    obtain ⟨result, run⟩ := narrows.foldlM_succeeds right.increasing each
    exact ⟨result, toOption_eq_some.mpr run⟩

theorem CommutativeMerge.entries (laws : CommutativeMerge alike normal merge) (keywise : MergesEntries merge mergeMaps) :
    CommutativeMerge (AlikeEntries alike) (fun map => ∀ key value, map.find? key = some value → normal value)
      mergeMaps := by
  have each := laws.optional
  constructor
  case same =>
    exact ⟨fun map key => each.same.refl _, fun like key => each.same.symm (like key),
      fun early late key => each.same.trans (early key) (late key)⟩
  case closed =>
    intro left right both one two found key
    exact each.closed (one key) (two key) (keywise.found found key)
  case congr =>
    intro left right first second both one two three four likeLeft likeRight found
    exact keywise.exists_alike fun key =>
      each.congr (one key) (two key) (three key) (four key) (likeLeft key) (likeRight key) (keywise.found found key)
  case comm =>
    intro left right both one two found
    exact keywise.exists_alike fun key => each.comm (one key) (two key) (keywise.found found key)
  case assoc =>
    intro first second third both result one two three early late
    have other := fun key =>
      each.assoc (one key) (two key) (three key) (keywise.found early key) (keywise.found late key)
    obtain ⟨later, next⟩ := keywise.succeeds fun key => (other key).imp fun _ found => found.choose_spec.1
    have each : ∀ key, ∃ value, narrowOptional merge (first.find? key) (later.find? key) = some value ∧
        Option.Rel alike (result.find? key) value := fun key => by
      obtain ⟨between, value, found, again⟩ := other key
      rw [keywise.found next key] at found
      cases found
      exact ⟨value, again⟩
    obtain ⟨whole, merged, like⟩ := keywise.exists_alike each
    exact ⟨later, whole, next, merged, like⟩

end Maps

end PackageRecipes
