import PackageRecipes.Proofs.PartialMeet
import PackageRecipes.Proofs.VersionBounds

/-! Intersections of ranges, and of their unions, are the weakest ranges within both
sides. The bounds of ranges are narrowed each for itself; that some range lies
within both sides is what keeps the overlap from being empty. -/

namespace PackageRecipes

namespace VersionRange
open Std Version

def lowerMeets (inside outside : Version) : Bool :=
  (compare outside inside).isLE

def upperMeets (inside outside : Version) : Bool :=
  tighterUpper outside inside == inside

theorem upperMeets_iff {inside outside : Version} :
    upperMeets inside outside = true ↔ (compareUpper inside outside).isLE = true := by
  rw [upperMeets, tighterUpper_eq]
  split
  next less =>
    have apart : ¬(outside == inside) = true := by
      rw [← compareUpper_eq_iff, less]
      simp
    simp [apart, OrientedCmp.gt_of_lt less]
  next notLess =>
    have swap : compareUpper inside outside = (compareUpper outside inside).swap :=
      (inferInstance : OrientedCmp compareUpper).eq_swap
    rw [BEq.refl, swap]
    cases order : compareUpper outside inside <;> simp_all

theorem lowerMeet : PartialMeet lowerMeets (fun _ => True) fun left right => some (tighterLower left right) where
  refl value := ReflOrd.isLE_rfl
  trans early late := TransOrd.isLE_trans late early
  below {left right both} narrowed := by
    cases narrowed
    unfold tighterLower lowerMeets
    split
    next greater => exact ⟨ReflOrd.isLE_rfl, by rw [OrientedOrd.eq_swap, greater]; rfl⟩
    next notGreater =>
      exact ⟨by cases order : compare left right <;> simp_all, ReflOrd.isLE_rfl⟩
  greatest {value left right} _ first second := by
    refine ⟨_, rfl, ?_⟩
    unfold tighterLower
    split <;> assumption

theorem upperMeet : PartialMeet upperMeets (fun _ => True) fun left right => some (tighterUpper left right) where
  refl value := upperMeets_iff.mpr ReflCmp.isLE_rfl
  trans early late := upperMeets_iff.mpr (TransCmp.isLE_trans (upperMeets_iff.mp early) (upperMeets_iff.mp late))
  below {left right both} narrowed := by
    cases narrowed
    have tighter := compareUpper_tighterUpper left right
    exact ⟨upperMeets_iff.mpr tighter.1, upperMeets_iff.mpr tighter.2⟩
  greatest {value left right} _ first second :=
    ⟨_, rfl, upperMeets_iff.mpr
      (compareUpper_tighterUpper_of_le (upperMeets_iff.mp first) (upperMeets_iff.mp second))⟩

theorem within_iff {inner outer : VersionRange} :
    inner.within outer = true ↔
      meetsOptional lowerMeets inner.lower outer.lower = true ∧
        meetsOptional upperMeets inner.upper outer.upper = true := by
  obtain ⟨innerLower, innerUpper⟩ := inner
  obtain ⟨outerLower, outerUpper⟩ := outer
  rw [← Bool.and_eq_true]
  cases innerLower <;> cases outerLower <;> cases innerUpper <;> cases outerUpper <;> rfl

private theorem narrowOptional_joinBounds (tighter : Version → Version → Version) (left right : Option Version) :
    narrowOptional (fun left right => some (tighter left right)) left right =
      some (joinBounds tighter left right) := by
  cases left <;> cases right <;> rfl

theorem isEmpty_of_within {inner outer : VersionRange} (inside : inner.within outer = true)
    (inhabited : inner.isEmpty = false) : outer.isEmpty = false := by
  obtain ⟨innerLower, innerUpper⟩ := inner
  obtain ⟨outerLower, outerUpper⟩ := outer
  obtain ⟨lower, upper⟩ := within_iff.mp inside
  cases outerLower with
  | none => rfl
  | some outerLower =>
    cases outerUpper with
    | none => rfl
    | some outerUpper =>
      obtain ⟨innerLower, rfl, above⟩ := exists_of_meetsOptional lower
      obtain ⟨innerUpper, rfl, below⟩ := exists_of_meetsOptional upper
      simp only [isEmpty, admitsBelow, Option.all_some, Bool.not_eq_false'] at inhabited ⊢
      exact isWithinUpper_mono (upperMeets_iff.mp below) (isWithinUpper_of_le above inhabited)

theorem intersect_eq_some_iff {left right overlap : VersionRange} :
    left.intersect right = some overlap ↔
      overlap = ⟨joinBounds tighterLower left.lower right.lower, joinBounds tighterUpper left.upper right.upper⟩ ∧
        overlap.isEmpty = false := by
  unfold intersect
  constructor
  · intro found
    dsimp only at found
    split at found
    next => cases found
    next inhabited =>
      cases found
      exact ⟨rfl, by simpa using inhabited⟩
  · rintro ⟨rfl, inhabited⟩
    simp [inhabited]

/-- The overlap of two ranges is the widest range within both. -/
theorem rangeMeet : PartialMeet within (fun range => range.isEmpty = false) intersect where
  refl range := within_iff.mpr ⟨lowerMeet.optional.refl _, upperMeet.optional.refl _⟩
  trans early late := by
    rw [within_iff] at early late ⊢
    exact ⟨lowerMeet.optional.trans early.1 late.1, upperMeet.optional.trans early.2 late.2⟩
  below {left right both} narrowed := by
    obtain ⟨rfl, _⟩ := intersect_eq_some_iff.mp narrowed
    have lower := lowerMeet.optional.below (narrowOptional_joinBounds tighterLower left.lower right.lower)
    have upper := upperMeet.optional.below (narrowOptional_joinBounds tighterUpper left.upper right.upper)
    exact ⟨within_iff.mpr ⟨lower.1, upper.1⟩, within_iff.mpr ⟨lower.2, upper.2⟩⟩
  greatest {value left right} inhabited first second := by
    rw [within_iff] at first second
    obtain ⟨lower, narrowedLower, leastLower⟩ := lowerMeet.optional.greatest (fun _ _ => trivial) first.1 second.1
    obtain ⟨upper, narrowedUpper, leastUpper⟩ := upperMeet.optional.greatest (fun _ _ => trivial) first.2 second.2
    rw [narrowOptional_joinBounds] at narrowedLower narrowedUpper
    cases narrowedLower
    cases narrowedUpper
    have least : value.within
        ⟨joinBounds tighterLower left.lower right.lower, joinBounds tighterUpper left.upper right.upper⟩ = true :=
      within_iff.mpr ⟨leastLower, leastUpper⟩
    exact ⟨_, intersect_eq_some_iff.mpr ⟨rfl, isEmpty_of_within least inhabited⟩, least⟩

private theorem within_of_isAny {inner outer : VersionRange} (unbounded : outer.isAny = true) :
    inner.within outer = true := by
  obtain ⟨lower, upper⟩ := outer
  simp only [isAny, Bool.and_eq_true, Option.isNone_iff_eq_none] at unbounded
  obtain ⟨rfl, rfl⟩ := unbounded
  simp [within]

theorem within_of_beq {left right : VersionRange} (same : left == right) : left.within right = true := by
  rw [beq_eq, Bool.and_eq_true] at same
  refine within_iff.mpr ⟨meetsOptional_of_beq ?_ same.1, meetsOptional_of_beq ?_ same.2⟩
  · intro inside outside equal
    rw [lowerMeets, compare_eq_iff_beq.mpr (BEq.symm equal)]
    rfl
  · intro inside outside equal
    rw [upperMeets_iff, compareUpper_eq_iff.mpr equal]
    rfl

end VersionRange

section Repetitions

variable {α : Type} [BEq α]

private theorem mem_of_mem_eraseRepsLoop {kept value : α} {rest earlier : List α}
    (member : value ∈ List.eraseRepsBy.loop (· == ·) kept rest earlier) :
    value ∈ earlier ∨ value ∈ kept :: rest := by
  induction rest generalizing kept earlier with
  | nil => simpa [List.eraseRepsBy.loop, or_comm] using member
  | cons next others ih =>
    simp only [List.eraseRepsBy.loop] at member
    split at member
    · rcases ih member with before | inside
      · exact .inl before
      · exact .inr (List.cons_subset_cons kept (List.subset_cons_self next others) inside)
    · rcases ih member with before | inside
      · rcases List.mem_cons.mp before with rfl | before
        · exact .inr List.mem_cons_self
        · exact .inl before
      · exact .inr (List.mem_cons_of_mem kept inside)

theorem mem_of_mem_eraseReps {value : α} {values : List α} (member : value ∈ values.eraseReps) :
    value ∈ values := by
  cases values with
  | nil => exact member
  | cons first rest =>
    rcases mem_of_mem_eraseRepsLoop member with before | inside
    · cases before
    · exact inside

private theorem earlier_mem_eraseRepsLoop {kept value : α} {rest earlier : List α} (member : value ∈ kept :: earlier) :
    value ∈ List.eraseRepsBy.loop (· == ·) kept rest earlier := by
  induction rest generalizing kept earlier with
  | nil => exact List.mem_reverse.mpr member
  | cons next others ih =>
    simp only [List.eraseRepsBy.loop]
    split
    · exact ih member
    · exact ih (List.mem_cons_of_mem next member)

private theorem exists_beq_mem_eraseRepsLoop [EquivBEq α] {kept value : α} {rest earlier : List α}
    (member : value ∈ rest) :
    ∃ other ∈ List.eraseRepsBy.loop (· == ·) kept rest earlier, value == other := by
  induction rest generalizing kept earlier with
  | nil => cases member
  | cons next others ih =>
    simp only [List.eraseRepsBy.loop]
    rcases List.mem_cons.mp member with rfl | later
    · split
      next same =>
        exact ⟨kept, earlier_mem_eraseRepsLoop List.mem_cons_self, BEq.symm same⟩
      next => exact ⟨value, earlier_mem_eraseRepsLoop List.mem_cons_self, BEq.refl value⟩
    · split <;> exact ih later

theorem exists_beq_mem_eraseReps [EquivBEq α] {value : α} {values : List α} (member : value ∈ values) :
    ∃ other ∈ values.eraseReps, value == other := by
  cases values with
  | nil => cases member
  | cons first rest =>
    rcases List.mem_cons.mp member with rfl | later
    · exact ⟨value, earlier_mem_eraseRepsLoop List.mem_cons_self, BEq.refl value⟩
    · exact exists_beq_mem_eraseRepsLoop later

end Repetitions

namespace VersionList
open VersionRange

/-- Some version is admitted, and by every range of the list. -/
structure Proper (list : VersionList) : Prop where
  nonempty : list.ranges ≠ []
  ranges : ∀ range ∈ list.ranges, range.isEmpty = false

theorem proper_any : any.Proper where
  nonempty := by simp [any]
  ranges range member := by
    rw [List.mem_singleton.mp member]
    rfl

theorem exists_of_mem_normalize {ranges : List VersionRange} {range : VersionRange}
    (member : range ∈ (normalize ranges).ranges) :
    ∃ original ∈ ranges, range.within original = true := by
  unfold normalize at member
  split at member
  next unbounded =>
    obtain ⟨original, present, covers⟩ := List.any_eq_true.mp unbounded
    exact ⟨original, present, within_of_isAny covers⟩
  next =>
    exact ⟨range, List.mem_mergeSort.mp (mem_of_mem_eraseReps member), rangeMeet.refl range⟩

theorem exists_mem_normalize {ranges : List VersionRange} {range : VersionRange} (member : range ∈ ranges) :
    ∃ normal ∈ (normalize ranges).ranges, range.within normal = true := by
  unfold normalize
  split
  next => exact ⟨.any, List.mem_singleton.mpr rfl, within_of_isAny rfl⟩
  next =>
    obtain ⟨other, kept, same⟩ := exists_beq_mem_eraseReps (List.mem_mergeSort.mpr member)
    exact ⟨other, kept, within_of_beq same⟩

theorem proper_normalize {ranges : List VersionRange} (nonempty : ranges ≠ [])
    (inhabited : ∀ range ∈ ranges, range.isEmpty = false) : (normalize ranges).Proper where
  nonempty := by
    obtain ⟨range, member⟩ := List.exists_mem_of_ne_nil ranges nonempty
    obtain ⟨normal, present, _⟩ := exists_mem_normalize member
    exact List.ne_nil_of_mem present
  ranges range member := by
    unfold normalize at member
    split at member
    next =>
      rw [List.mem_singleton.mp member]
      rfl
    next => exact inhabited range (List.mem_mergeSort.mp (mem_of_mem_eraseReps member))

def overlaps (left right : VersionList) : List VersionRange :=
  left.ranges.flatMap fun range => right.ranges.filterMap range.intersect

theorem mem_overlaps {left right : VersionList} {overlap : VersionRange} :
    overlap ∈ left.overlaps right ↔
      ∃ first ∈ left.ranges, ∃ second ∈ right.ranges, first.intersect second = some overlap := by
  simp [overlaps]

theorem within_iff {inner outer : VersionList} :
    inner.within outer = true ↔
      ∀ range ∈ inner.ranges, ∃ other ∈ outer.ranges, range.within other = true := by
  rw [within, Bool.or_eq_true, List.all_eq_true]
  constructor
  · rintro (unbounded | each) range member
    · obtain ⟨other, present, covers⟩ := List.any_eq_true.mp unbounded
      exact ⟨other, present, within_of_isAny covers⟩
    · exact List.any_eq_true.mp (each range member)
  · exact fun each => .inr fun range member => List.any_eq_true.mpr (each range member)

theorem intersect_cases {left right both : VersionList} (found : left.intersect right = some both) :
    left.isAny = true ∧ both = right ∨ right.isAny = true ∧ both = left ∨
      left.overlaps right ≠ [] ∧ both = normalize (left.overlaps right) := by
  unfold intersect at found
  split at found
  next unbounded =>
    cases found
    exact .inl ⟨unbounded, rfl⟩
  next =>
    split at found
    next unbounded =>
      cases found
      exact .inr (.inl ⟨unbounded, rfl⟩)
    next =>
      change (if (left.overlaps right).isEmpty then none else some (normalize (left.overlaps right))) = some both at found
      split at found
      next => cases found
      next some =>
        cases found
        exact .inr (.inr ⟨by simpa using some, rfl⟩)

theorem proper_intersect {left right both : VersionList} (first : left.Proper) (second : right.Proper)
    (found : left.intersect right = some both) : both.Proper := by
  rcases intersect_cases found with ⟨_, rfl⟩ | ⟨_, rfl⟩ | ⟨nonempty, rfl⟩
  · exact second
  · exact first
  · refine proper_normalize nonempty ?_
    intro overlap member
    obtain ⟨one, _, other, _, narrowed⟩ := mem_overlaps.mp member
    exact (intersect_eq_some_iff.mp narrowed).2

private theorem within_of_isAny {inner outer : VersionList} (unbounded : outer.isAny = true) :
    inner.within outer = true := by
  simp [within, unbounded]

theorem within_refl (list : VersionList) : list.within list = true :=
  within_iff.mpr fun range member => ⟨range, member, rangeMeet.refl range⟩

/-- The intersection of two lists is the weakest list within both. -/
theorem listMeet : PartialMeet within Proper intersect where
  refl := within_refl
  trans {first second third} early late := by
    rw [within_iff] at early late ⊢
    intro range member
    obtain ⟨middle, present, inside⟩ := early range member
    obtain ⟨outer, last, outside⟩ := late middle present
    exact ⟨outer, last, rangeMeet.trans inside outside⟩
  below {left right both} narrowed := by
    rcases intersect_cases narrowed with ⟨unbounded, rfl⟩ | ⟨unbounded, rfl⟩ | ⟨_, rfl⟩
    · exact ⟨within_of_isAny unbounded, within_refl _⟩
    · exact ⟨within_refl _, within_of_isAny unbounded⟩
    · constructor
      all_goals
        refine within_iff.mpr fun range member => ?_
        obtain ⟨overlap, present, inside⟩ := exists_of_mem_normalize member
        obtain ⟨first, firstMember, second, secondMember, found⟩ := mem_overlaps.mp present
      · exact ⟨first, firstMember, rangeMeet.trans inside (rangeMeet.below found).1⟩
      · exact ⟨second, secondMember, rangeMeet.trans inside (rangeMeet.below found).2⟩
  greatest {value left right} proper first second := by
    unfold intersect
    split
    next => exact ⟨right, rfl, second⟩
    next =>
      split
      next => exact ⟨left, rfl, first⟩
      next =>
        have overlap : ∀ range ∈ value.ranges, ∃ both ∈ left.overlaps right, range.within both = true := by
          intro range member
          obtain ⟨one, oneMember, inOne⟩ := within_iff.mp first range member
          obtain ⟨other, otherMember, inOther⟩ := within_iff.mp second range member
          obtain ⟨both, found, least⟩ := rangeMeet.greatest (proper.ranges range member) inOne inOther
          exact ⟨both, mem_overlaps.mpr ⟨one, oneMember, other, otherMember, found⟩, least⟩
        obtain ⟨range, member⟩ := List.exists_mem_of_ne_nil value.ranges proper.nonempty
        obtain ⟨both, present, _⟩ := overlap range member
        refine ⟨normalize (left.overlaps right), if_neg ?_, within_iff.mpr fun range member => ?_⟩
        · rw [List.isEmpty_iff]
          exact List.ne_nil_of_mem present
        · obtain ⟨both, present, inside⟩ := overlap range member
          obtain ⟨normal, kept, outside⟩ := exists_mem_normalize present
          exact ⟨normal, kept, rangeMeet.trans inside outside⟩

end VersionList

end PackageRecipes
