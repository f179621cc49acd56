import PackageRecipes.Proofs.CommutativeMerge
import PackageRecipes.Proofs.SortedLists
import PackageRecipes.Proofs.VersionUnions

/-! Version lists in the form in which they are kept: their ranges in order and each once,
and one range alone where it has no bounds. Up to equality such a list is the set of
its ranges, so an intersection does not depend on the order in which overlaps are
formed. -/

namespace PackageRecipes

namespace VersionRange
open Std Version

private theorem beq_of_meetsOptional {meets : Version → Version → Bool}
    (antisymm : ∀ {left right}, meets left right = true → meets right left = true → (left == right) = true)
    {left right : Option Version} (forth : meetsOptional meets left right = true)
    (back : meetsOptional meets right left = true) : (left == right) = true := by
  cases left with
  | none =>
    cases right with
    | none => rfl
    | some => cases forth
  | some first =>
    cases right with
    | none => cases back
    | some second => exact antisymm forth back

theorem beq_of_within {left right : VersionRange} (forth : left.within right = true) (back : right.within left = true) :
    (left == right) = true := by
  rw [within_iff] at forth back
  rw [beq_eq, Bool.and_eq_true]
  constructor
  · refine beq_of_meetsOptional (fun {left right} one two => ?_) forth.1 back.1
    exact compare_eq_iff_beq.mp (OrientedCmp.isLE_antisymm two one)
  · refine beq_of_meetsOptional (fun {left right} one two => ?_) forth.2 back.2
    rw [upperMeets_iff] at one two
    exact compareUpper_eq_iff.mp (OrientedCmp.isLE_antisymm one two)

private theorem equivalence_beq : Equivalence fun left right : VersionRange => (left == right) = true :=
  ⟨BEq.refl, BEq.symm, BEq.trans⟩

theorem rangeMerge : CommutativeMerge (fun left right => (left == right) = true) (fun _ => True) intersect :=
  rangeMeet.commutativeMerge equivalence_beq within_of_beq beq_of_within fun merged =>
    (intersect_eq_some_iff.mp merged).2

theorem isAny_of_within {inner outer : VersionRange} (inside : inner.within outer = true)
    (unbounded : inner.isAny = true) : outer.isAny = true := by
  obtain ⟨lower, upper⟩ := inner
  simp only [isAny, Bool.and_eq_true, Option.isNone_iff_eq_none] at unbounded
  obtain ⟨rfl, rfl⟩ := unbounded
  obtain ⟨outerLower, outerUpper⟩ := outer
  cases outerLower <;> cases outerUpper <;> first | rfl | cases inside

theorem any_intersect {range : VersionRange} (inhabited : range.isEmpty = false) : any.intersect range = some range :=
  intersect_eq_some_iff.mpr ⟨rfl, inhabited⟩

end VersionRange

namespace VersionList
open VersionRange

structure Normal (list : VersionList) : Prop extends list.Proper where
  increasing : Increasing list.ranges
  unbounded : list.isAny = true → list = any

theorem normal_any : any.Normal where
  toProper := proper_any
  increasing := List.pairwise_singleton _ _
  unbounded _ := rfl

theorem normal_normalize {ranges : List VersionRange} (nonempty : ranges ≠ [])
    (inhabited : ∀ range ∈ ranges, range.isEmpty = false) : (normalize ranges).Normal where
  toProper := proper_normalize nonempty inhabited
  increasing := by
    unfold normalize
    split
    · exact normal_any.increasing
    · exact increasing_sorted ranges
  unbounded unbounded := by
    obtain ⟨range, member, whole⟩ := List.any_eq_true.mp unbounded
    obtain ⟨original, present, inside⟩ := exists_of_mem_normalize member
    exact if_pos (List.any_eq_true.mpr ⟨original, present, isAny_of_within inside whole⟩)

theorem normal_intersect {left right both : VersionList} (first : left.Normal) (second : right.Normal)
    (found : left.intersect right = some both) : both.Normal := by
  rcases intersect_cases found with ⟨_, rfl⟩ | ⟨_, rfl⟩ | ⟨nonempty, rfl⟩
  · exact second
  · exact first
  · refine normal_normalize nonempty ?_
    intro overlap member
    obtain ⟨one, _, other, _, narrowed⟩ := mem_overlaps.mp member
    exact (intersect_eq_some_iff.mp narrowed).2

def Lists (list : VersionList) (range : VersionRange) : Prop :=
  ∃ member ∈ list.ranges, (member == range) = true

theorem lists_of_mem {list : VersionList} {range : VersionRange} (member : range ∈ list.ranges) : list.Lists range :=
  ⟨range, member, BEq.refl range⟩

private theorem Lists.of_membersIn {left right : VersionList} {range : VersionRange} (lists : left.Lists range)
    (members : MembersIn left.ranges right.ranges) : right.Lists range := by
  obtain ⟨member, present, same⟩ := lists
  obtain ⟨other, found, equal⟩ := members member present
  exact ⟨other, found, BEq.trans (BEq.symm equal) same⟩

theorem beq_iff_lists {left right : VersionList} (first : left.Normal) (second : right.Normal) :
    (left == right) = true ↔ ∀ range, left.Lists range ↔ right.Lists range := by
  rw [beq_eq]
  constructor
  · intro same range
    have back : (right.ranges == left.ranges) = true := BEq.symm same
    exact ⟨fun lists => lists.of_membersIn (membersIn_of_beq same), fun lists => lists.of_membersIn (membersIn_of_beq back)⟩
  · intro same
    refine beq_of_increasing first.increasing second.increasing (fun range member => ?_) fun range member => ?_
    · obtain ⟨other, found, equal⟩ := (same range).mp (lists_of_mem member)
      exact ⟨other, found, BEq.symm equal⟩
    · obtain ⟨other, found, equal⟩ := (same range).mpr (lists_of_mem member)
      exact ⟨other, found, BEq.symm equal⟩

private theorem normalize_of_bounded {ranges : List VersionRange} (bounded : ∀ range ∈ ranges, range.isAny = false) :
    normalize ranges = ⟨(ranges.mergeSort fun left right => (compare left right).isLE).eraseReps⟩ := by
  refine if_neg fun unbounded => ?_
  obtain ⟨range, member, whole⟩ := List.any_eq_true.mp unbounded
  rw [bounded range member] at whole
  cases whole

theorem normalize_of_increasing {ranges : List VersionRange} (increasing : Increasing ranges)
    (bounded : ∀ range ∈ ranges, range.isAny = false) : normalize ranges = ⟨ranges⟩ := by
  rw [normalize_of_bounded bounded, sorted_of_increasing increasing]

theorem lists_normalize {ranges : List VersionRange} (bounded : ∀ range ∈ ranges, range.isAny = false)
    {range : VersionRange} : (normalize ranges).Lists range ↔ ∃ member ∈ ranges, (member == range) = true := by
  rw [normalize_of_bounded bounded]
  constructor
  · rintro ⟨member, kept, same⟩
    exact ⟨member, List.mem_mergeSort.mp (mem_of_mem_eraseReps kept), same⟩
  · rintro ⟨member, present, same⟩
    obtain ⟨other, kept, equal⟩ := exists_beq_mem_eraseReps (List.mem_mergeSort.mpr present)
    exact ⟨other, kept, BEq.trans (BEq.symm equal) same⟩

def ListsOverlap (left right : VersionList) (range : VersionRange) : Prop :=
  ∃ first ∈ left.ranges, ∃ second ∈ right.ranges,
    ∃ overlap, first.intersect second = some overlap ∧ (overlap == range) = true

private theorem listsOverlap_of_lists {left right : VersionList} {first second overlap : VersionRange}
    (inLeft : left.Lists first) (inRight : right.Lists second) (found : first.intersect second = some overlap) :
    left.ListsOverlap right overlap := by
  obtain ⟨one, present, same⟩ := inLeft
  obtain ⟨other, presentRight, equal⟩ := inRight
  obtain ⟨result, again, like⟩ :=
    rangeMerge.congr trivial trivial trivial trivial (BEq.symm same) (BEq.symm equal) found
  exact ⟨one, present, other, presentRight, result, again, BEq.symm like⟩

theorem ListsOverlap.congr {left right : VersionList} {range other : VersionRange} (lists : left.ListsOverlap right range)
    (same : (range == other) = true) : left.ListsOverlap right other := by
  obtain ⟨first, inLeft, second, inRight, overlap, found, equal⟩ := lists
  exact ⟨first, inLeft, second, inRight, overlap, found, BEq.trans equal same⟩

theorem ListsOverlap.comm {left right : VersionList} {range : VersionRange} (lists : left.ListsOverlap right range) :
    right.ListsOverlap left range := by
  obtain ⟨first, inLeft, second, inRight, overlap, found, same⟩ := lists
  obtain ⟨other, again, equal⟩ := rangeMerge.comm trivial trivial found
  exact ⟨second, inRight, first, inLeft, other, again, BEq.trans (BEq.symm equal) same⟩

private theorem any_listsOverlap {list : VersionList} (proper : list.Proper) {range : VersionRange} :
    any.ListsOverlap list range ↔ list.Lists range := by
  constructor
  · rintro ⟨first, whole, second, present, overlap, found, same⟩
    rw [List.mem_singleton.mp whole, any_intersect (proper.ranges second present)] at found
    cases found
    exact ⟨second, present, same⟩
  · rintro ⟨member, present, same⟩
    exact ⟨.any, List.mem_singleton.mpr rfl, member, present, member, any_intersect (proper.ranges member present), same⟩

/-- An intersection lists the overlaps and nothing else. -/
theorem lists_intersect {left right both : VersionList} (first : left.Normal) (second : right.Normal)
    (found : left.intersect right = some both) (range : VersionRange) :
    both.Lists range ↔ left.ListsOverlap right range := by
  by_cases whole : left.isAny = true
  · rw [intersect, if_pos whole] at found
    cases found
    rw [first.unbounded whole, any_listsOverlap second.toProper]
  by_cases wholeRight : right.isAny = true
  · rw [intersect, if_neg whole, if_pos wholeRight] at found
    cases found
    rw [second.unbounded wholeRight, ← any_listsOverlap first.toProper]
    exact ⟨.comm, .comm⟩
  rcases intersect_cases found with ⟨impossible, _⟩ | ⟨impossible, _⟩ | ⟨_, rfl⟩
  · exact absurd impossible whole
  · exact absurd impossible wholeRight
  rw [lists_normalize]
  · constructor
    · rintro ⟨overlap, member, same⟩
      obtain ⟨one, inLeft, other, inRight, found⟩ := mem_overlaps.mp member
      exact ⟨one, inLeft, other, inRight, overlap, found, same⟩
    · rintro ⟨one, inLeft, other, inRight, overlap, found, same⟩
      exact ⟨overlap, mem_overlaps.mpr ⟨one, inLeft, other, inRight, found⟩, same⟩
  · intro overlap member
    obtain ⟨one, inLeft, other, inRight, found⟩ := mem_overlaps.mp member
    refine Bool.eq_false_iff.mpr fun unbounded => whole ?_
    exact List.any_eq_true.mpr ⟨one, inLeft, isAny_of_within (rangeMeet.below found).1 unbounded⟩

/-- Overlaps with an overlap are overlaps of three ranges, whichever two come first. -/
theorem ListsOverlap.assoc {first second third both : VersionList} {range : VersionRange}
    (joined : ∀ range, both.Lists range → first.ListsOverlap second range) (lists : both.ListsOverlap third range) :
    ∃ start ∈ first.ranges, ∃ between, second.ListsOverlap third between ∧
      ∃ overlap, start.intersect between = some overlap ∧ (overlap == range) = true := by
  obtain ⟨pair, inBoth, last, inThird, whole, found, same⟩ := lists
  obtain ⟨start, inFirst, middle, inSecond, overlap, joined, equal⟩ := joined pair (lists_of_mem inBoth)
  obtain ⟨whole', found, likeWhole⟩ :=
    rangeMerge.congr trivial trivial trivial trivial (BEq.symm equal) (BEq.refl last) found
  obtain ⟨between, result, next, again, like⟩ := rangeMerge.assoc trivial trivial trivial joined found
  refine ⟨start, inFirst, between, ⟨middle, inSecond, last, inThird, between, next, BEq.refl between⟩, result, again, ?_⟩
  exact BEq.trans (BEq.symm (BEq.trans likeWhole like)) same

theorem exists_intersect {left right : VersionList} {range : VersionRange} (overlap : left.ListsOverlap right range) :
    ∃ both, left.intersect right = some both := by
  obtain ⟨one, inLeft, other, inRight, overlap, found, _⟩ := overlap
  unfold intersect
  split
  · exact ⟨right, rfl⟩
  split
  · exact ⟨left, rfl⟩
  refine ⟨normalize (left.overlaps right), if_neg ?_⟩
  rw [List.isEmpty_iff]
  exact List.ne_nil_of_mem (mem_overlaps.mpr ⟨one, inLeft, other, inRight, found⟩)

private theorem Normal.exists_lists {list : VersionList} (normal : list.Normal) : ∃ range, list.Lists range := by
  obtain ⟨range, member⟩ := List.exists_mem_of_ne_nil list.ranges normal.nonempty
  exact ⟨range, lists_of_mem member⟩

theorem intersect_eq_of_overlaps {left right first second both : VersionList} (normalLeft : left.Normal)
    (normalRight : right.Normal) (normalFirst : first.Normal) (normalSecond : second.Normal)
    (found : left.intersect right = some both)
    (overlaps : ∀ range, left.ListsOverlap right range ↔ first.ListsOverlap second range) :
    ∃ other, first.intersect second = some other ∧ (both == other) = true := by
  have normal := normal_intersect normalLeft normalRight found
  have lists := lists_intersect normalLeft normalRight found
  obtain ⟨range, listed⟩ := normal.exists_lists
  obtain ⟨other, again⟩ := exists_intersect ((overlaps range).mp ((lists range).mp listed))
  refine ⟨other, again, (beq_iff_lists normal (normal_intersect normalFirst normalSecond again)).mpr fun range => ?_⟩
  rw [lists, overlaps, lists_intersect normalFirst normalSecond again]

theorem listMerge : CommutativeMerge (fun left right => (left == right) = true) Normal intersect := by
  constructor
  case same => exact ⟨BEq.refl, BEq.symm, BEq.trans⟩
  case closed => exact normal_intersect
  case congr =>
    intro left right first second both one two three four likeLeft likeRight found
    rw [beq_iff_lists one three] at likeLeft
    rw [beq_iff_lists two four] at likeRight
    refine intersect_eq_of_overlaps one two three four found fun range => ⟨?_, ?_⟩
    · rintro ⟨one, inLeft, other, inRight, overlap, found, same⟩
      exact (listsOverlap_of_lists ((likeLeft one).mp (lists_of_mem inLeft))
        ((likeRight other).mp (lists_of_mem inRight)) found).congr same
    · rintro ⟨one, inLeft, other, inRight, overlap, found, same⟩
      exact (listsOverlap_of_lists ((likeLeft one).mpr (lists_of_mem inLeft))
        ((likeRight other).mpr (lists_of_mem inRight)) found).congr same
  case comm =>
    intro left right both one two found
    exact intersect_eq_of_overlaps one two two one found fun range => ⟨.comm, .comm⟩
  case assoc =>
    intro first second third both result one two three early late
    have normalBoth := normal_intersect one two early
    have inBoth := lists_intersect one two early
    have overlapping : ∀ range, both.ListsOverlap third range →
        ∃ start ∈ first.ranges, ∃ between, second.ListsOverlap third between ∧
          ∃ overlap, start.intersect between = some overlap ∧ (overlap == range) = true :=
      fun range => ListsOverlap.assoc fun range => (inBoth range).mp
    obtain ⟨range, listed⟩ := (normal_intersect normalBoth three late).exists_lists
    obtain ⟨_, _, between, inner, _⟩ := overlapping range ((lists_intersect normalBoth three late range).mp listed)
    obtain ⟨later, next⟩ := exists_intersect inner
    have inLater := lists_intersect two three next
    obtain ⟨other, again, like⟩ :=
      intersect_eq_of_overlaps normalBoth three one (normal_intersect two three next) late fun range => by
        constructor
        · intro nested
          obtain ⟨start, inFirst, between, inner, overlap, found, same⟩ := overlapping range nested
          exact (listsOverlap_of_lists (lists_of_mem inFirst) ((inLater between).mpr inner) found).congr same
        · intro nested
          obtain ⟨last, inThird, between, inner, overlap, found, same⟩ :=
            ListsOverlap.assoc (fun range listed => ((inLater range).mp listed).comm) nested.comm
          exact ((listsOverlap_of_lists (lists_of_mem inThird) ((inBoth between).mpr inner.comm) found).congr same).comm
    exact ⟨later, other, next, again, like⟩

end VersionList

end PackageRecipes
