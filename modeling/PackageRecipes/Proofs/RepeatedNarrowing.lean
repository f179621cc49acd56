import PackageRecipes.Proofs.DependencyMerge

/-! Narrowing by what is satisfied already. Version lists are intersected range by range, so
a list whose own ranges overlap comes back with the overlaps besides the ranges, which
admits no other versions but is not an equal list. Overlaps of overlaps are overlaps
themselves: narrowing by the same expression again changes nothing more. -/

namespace PackageRecipes
open Std

section Laws

variable {κ α : Type} [BEq α]

/-- When narrowing by what a value meets gives an equal value back, and how often
narrowing by the value itself can change anything. -/
structure RepeatedMeet (normal : α → Prop) (meets holds : α → α → Bool) (narrow : α → α → Option α) : Prop where
  ofEqual : ∀ {left right}, (left == right) = true → meets left right = true
  kept : ∀ {left right both}, normal left → normal right → meets left right = true → narrow left right = some both →
    (both == left) = holds left right
  settled : ∀ {value both again}, normal value → narrow value value = some both → narrow both value = some again →
    (again == both) = true

theorem RepeatedMeet.equality [LawfulBEq α] :
    RepeatedMeet (fun _ : α => True) (· == ·) (· == ·) fun left right => if left == right then some left else none where
  ofEqual := id
  kept {left right both} _ _ same narrowed := by
    rw [if_pos same] at narrowed
    cases narrowed
    rw [same, BEq.refl]
  settled {value both again} _ early late := by
    rw [if_pos (BEq.refl value)] at early
    cases early
    rw [if_pos (BEq.refl value)] at late
    cases late
    exact BEq.refl value

variable {normal : α → Prop} {meets holds : α → α → Bool} {narrow : α → α → Option α}

theorem RepeatedMeet.optional [EquivBEq α] (laws : RepeatedMeet normal meets holds narrow) :
    RepeatedMeet (fun value => ∀ present, value = some present → normal present) (meetsOptional meets)
      (meetsOptional holds) (narrowOptional narrow) where
  ofEqual := meetsOptional_of_beq laws.ofEqual
  kept {left right both} one two inside narrowed := by
    cases right with
    | none =>
      cases left with
      | none =>
        cases narrowed
        rfl
      | some first =>
        cases narrowed
        exact BEq.refl first
    | some second =>
      obtain ⟨first, rfl, meets⟩ := exists_of_meetsOptional inside
      obtain ⟨result, found, rfl⟩ := Option.map_eq_some_iff.mp narrowed
      exact laws.kept (one first rfl) (two second rfl) meets found
  settled {value both again} valid early late := by
    cases value with
    | none =>
      cases early
      cases late
      rfl
    | some value =>
      obtain ⟨result, found, rfl⟩ := Option.map_eq_some_iff.mp early
      obtain ⟨last, twice, rfl⟩ := Option.map_eq_some_iff.mp late
      exact laws.settled (valid value rfl) found twice

theorem RepeatedMeet.entries [EquivBEq α] [Ord κ] [TransOrd κ] [BEq κ] [LawfulBEqOrd κ] [Ord α] [TransOrd α]
    [LawfulBEqOrd α] {mergeMaps : OrderedMap κ α → OrderedMap κ α → Option (OrderedMap κ α)}
    (laws : RepeatedMeet normal meets holds narrow) (keywise : MergesEntries narrow mergeMaps) :
    RepeatedMeet (fun map : OrderedMap κ α => ∀ key value, map.find? key = some value → normal value)
      (meetsEntries meets) (meetsEntries holds) mergeMaps where
  ofEqual {left right} same := by
    rw [beq_iff_alikeEntries] at same
    exact meetsEntries_iff.mpr fun key => laws.optional.ofEqual (beq_iff_rel.mpr (same key))
  kept {left right both} one two inside merged := by
    rw [meetsEntries_iff] at inside
    rw [Bool.eq_iff_iff, beq_iff_alikeEntries, meetsEntries_iff]
    refine forall_congr' fun key => ?_
    rw [← beq_iff_rel, laws.optional.kept (one key) (two key) (inside key) (keywise.found merged key)]
  settled {value both again} valid early late := by
    refine beq_iff_alikeEntries.mpr fun key => beq_iff_rel.mp ?_
    exact laws.optional.settled (valid key) (keywise.found early key) (keywise.found late key)

end Laws

namespace VersionRange
open Version

/-- A range is its overlap with any range around it. -/
private theorem intersect_of_within {range outer : VersionRange} (inhabited : range.isEmpty = false)
    (inside : range.within outer = true) : ∃ overlap, range.intersect outer = some overlap ∧ (overlap == range) = true := by
  obtain ⟨overlap, found, least⟩ := rangeMeet.greatest inhabited (rangeMeet.refl range) inside
  exact ⟨overlap, found, beq_of_within (rangeMeet.below found).1 least⟩

private theorem joinBounds_eq_or {tighter : Version → Version → Version}
    (selects : ∀ left right, tighter left right = left ∨ tighter left right = right) (left right : Option Version) :
    joinBounds tighter left right = left ∨ joinBounds tighter left right = right := by
  cases left with
  | none => exact .inr rfl
  | some first =>
    cases right with
    | none => exact .inl rfl
    | some second => exact (selects first second).imp (congrArg some) (congrArg some)

def Selects (bound : VersionRange → Option Version) : Prop :=
  ∀ {left right overlap}, left.intersect right = some overlap → bound overlap = bound left ∨ bound overlap = bound right

private theorem selects_lower : Selects lower := by
  intro left right overlap found
  rw [(intersect_eq_some_iff.mp found).1]
  refine joinBounds_eq_or (fun one other => ?_) left.lower right.lower
  unfold tighterLower
  split
  · exact .inl rfl
  · exact .inr rfl

private theorem selects_upper : Selects upper := by
  intro left right overlap found
  rw [(intersect_eq_some_iff.mp found).1]
  refine joinBounds_eq_or (fun one other => ?_) left.upper right.upper
  rw [tighterUpper_eq]
  split
  · exact .inl rfl
  · exact .inr rfl

/-- A range is the overlap of two ranges around it that have its bounds. -/
theorem intersect_of_bounds {range one other : VersionRange} (inhabited : range.isEmpty = false)
    (inOne : range.within one = true) (inOther : range.within other = true) (lower : range.lower = one.lower)
    (upper : range.upper = other.upper) : ∃ overlap, one.intersect other = some overlap ∧ (overlap == range) = true := by
  obtain ⟨overlap, found, least⟩ := rangeMeet.greatest inhabited inOne inOther
  obtain ⟨first, second⟩ := rangeMeet.below found
  refine ⟨overlap, found, beq_of_within (within_iff.mpr ⟨?_, ?_⟩) least⟩
  · rw [lower]
    exact (within_iff.mp first).1
  · rw [upper]
    exact (within_iff.mp second).2

end VersionRange

namespace VersionList
open VersionRange

variable {list other : VersionList} {range : VersionRange}

/-- Every overlap with a range of the other list is in the list already. -/
def holdsOverlaps (list other : VersionList) : Bool :=
  list.ranges.all fun range => other.ranges.all fun limit => (range.intersect limit).all list.ranges.contains

private theorem holdsOverlaps_iff :
    list.holdsOverlaps other = true ↔ ∀ range, list.ListsOverlap other range → list.Lists range := by
  simp only [holdsOverlaps, List.all_eq_true, Option.all_eq_true, List.contains_iff_exists_mem_beq]
  constructor
  · intro each range overlaps
    obtain ⟨first, inList, second, inOther, overlap, found, same⟩ := overlaps
    obtain ⟨member, present, equal⟩ := each first inList second inOther overlap found
    exact ⟨member, present, BEq.trans (BEq.symm equal) same⟩
  · intro each first inList second inOther overlap found
    obtain ⟨member, present, same⟩ := each overlap ⟨first, inList, second, inOther, overlap, found, BEq.refl overlap⟩
    exact ⟨member, present, BEq.symm same⟩

private theorem listsOverlap_of_within (proper : list.Proper) (inside : list.within other = true)
    (lists : list.Lists range) :
    list.ListsOverlap other range := by
  obtain ⟨member, present, same⟩ := lists
  obtain ⟨outer, found, covers⟩ := within_iff.mp inside member present
  obtain ⟨overlap, narrowed, equal⟩ := intersect_of_within (proper.ranges member present) covers
  exact ⟨member, present, outer, found, overlap, narrowed, BEq.trans equal same⟩

/-- A range of the list around the given one has the same bound. -/
def HasBound (bound : VersionRange → Option Version) (list : VersionList) (range : VersionRange) : Prop :=
  ∃ member ∈ list.ranges, range.within member = true ∧ bound range = bound member

section Bounds

variable {bound : VersionRange → Option Version}

private theorem hasBound_of_mem (member : range ∈ list.ranges) : HasBound bound list range :=
  ⟨range, member, rangeMeet.refl range, rfl⟩

theorem HasBound.intersect {first second overlap : VersionRange} (selects : Selects bound) (one : HasBound bound list first)
    (two : HasBound bound list second) (found : first.intersect second = some overlap) : HasBound bound list overlap := by
  obtain ⟨inFirst, inSecond⟩ := rangeMeet.below found
  rcases selects found with same | same
  · obtain ⟨member, present, inside, equal⟩ := one
    exact ⟨member, present, rangeMeet.trans inFirst inside, same.trans equal⟩
  · obtain ⟨member, present, inside, equal⟩ := two
    exact ⟨member, present, rangeMeet.trans inSecond inside, same.trans equal⟩

end Bounds

/-- However many ranges of a list have an overlap, two of them have the same: those with its bounds. -/
private theorem listsOverlap_of_bounds (inhabited : range.isEmpty = false)
    (lower : HasBound VersionRange.lower list range)
    (upper : HasBound VersionRange.upper list range) : list.ListsOverlap list range := by
  obtain ⟨one, inList, inOne, lower⟩ := lower
  obtain ⟨other, present, inOther, upper⟩ := upper
  obtain ⟨overlap, found, same⟩ := intersect_of_bounds inhabited inOne inOther lower upper
  exact ⟨one, inList, other, present, overlap, found, same⟩

private theorem listsOverlap_of_intersect {both : VersionList} (normal : list.Normal)
    (found : list.intersect list = some both)
    (lists : both.ListsOverlap list range) : list.ListsOverlap list range := by
  obtain ⟨pair, inBoth, last, inList, whole, joined, same⟩ := lists
  obtain ⟨start, inStart, middle, inMiddle, overlap, narrowed, equal⟩ :=
    (lists_intersect normal normal found pair).mp (lists_of_mem inBoth)
  obtain ⟨whole', joined, like⟩ :=
    rangeMerge.congr trivial trivial trivial trivial (BEq.symm equal) (BEq.refl last) joined
  have bounded : ∀ {bound}, Selects bound → HasBound bound list whole' := fun selects =>
    ((hasBound_of_mem inStart).intersect selects (hasBound_of_mem inMiddle) narrowed).intersect selects
      (hasBound_of_mem inList) joined
  have inhabited := (intersect_eq_some_iff.mp joined).2
  exact (listsOverlap_of_bounds inhabited (bounded selects_lower) (bounded selects_upper)).congr
    (BEq.trans (BEq.symm like) same)

theorem repeatedMeet : RepeatedMeet Normal within holdsOverlaps intersect where
  ofEqual {left right} same := by
    rw [beq_eq] at same
    refine within_iff.mpr fun range member => ?_
    obtain ⟨other, present, equal⟩ := membersIn_of_beq same range member
    exact ⟨other, present, within_of_beq equal⟩
  kept {left right both} one two inside found := by
    have lists := lists_intersect one two found
    rw [Bool.eq_iff_iff, beq_iff_lists (normal_intersect one two found) one, holdsOverlaps_iff]
    refine forall_congr' fun range => ?_
    rw [lists]
    exact ⟨Iff.mp, fun held => ⟨held, listsOverlap_of_within one.toProper inside⟩⟩
  settled {value both again} normal early late := by
    have normalBoth := normal_intersect normal normal early
    refine (beq_iff_lists (normal_intersect normalBoth normal late) normalBoth).mpr fun range => ?_
    rw [lists_intersect normalBoth normal late, lists_intersect normal normal early]
    constructor
    · exact listsOverlap_of_intersect normal early
    · intro overlap
      have lists := (lists_intersect normal normal early range).mpr overlap
      exact listsOverlap_of_within normalBoth.toProper (listMeet.below early).1 lists

end VersionList

namespace CompilerSpec

def holdsOverlaps (left right : CompilerSpec) : Bool :=
  left.versions.holdsOverlaps right.versions

theorem repeatedMeet : RepeatedMeet (fun compiler => compiler.versions.Normal) satisfies holdsOverlaps
    fun left right => (narrow left right).toOption where
  ofEqual same := by
    rw [beq_eq, Bool.and_eq_true] at same
    exact satisfies_iff.mpr ⟨eq_of_beq same.1, VersionList.repeatedMeet.ofEqual same.2⟩
  kept one two inside narrowed := by
    obtain ⟨_, named, versions⟩ := narrow_eq_ok_iff.mp (toOption_eq_some.mp narrowed)
    rw [beq_eq, named, BEq.refl, Bool.true_and]
    exact VersionList.repeatedMeet.kept one two (satisfies_iff.mp inside).2 versions
  settled normal early late := by
    obtain ⟨_, _, first⟩ := narrow_eq_ok_iff.mp (toOption_eq_some.mp early)
    obtain ⟨_, named, second⟩ := narrow_eq_ok_iff.mp (toOption_eq_some.mp late)
    rw [beq_eq, named, BEq.refl, Bool.true_and]
    exact VersionList.repeatedMeet.settled normal first second

end CompilerSpec

namespace Node

def holdsOverlaps (left right : Node) : Bool :=
  left.versions.holdsOverlaps right.versions && meetsOptional CompilerSpec.holdsOverlaps left.compiler right.compiler

theorem repeatedMeet : RepeatedMeet Normal satisfies holdsOverlaps fun left right => (narrow left right).toOption := by
  have names := (RepeatedMeet.equality (α := String)).optional
  have variants := (RepeatedMeet.equality (α := VariantSetting)).entries narrowVariant_narrows.mergesEntries
  have compilers := CompilerSpec.repeatedMeet.optional
  constructor
  case ofEqual =>
    intro left right same
    simp only [beq_eq, Bool.and_eq_true] at same
    obtain ⟨name, versions, settings, compiler⟩ := same
    exact satisfies_iff.mpr ⟨names.ofEqual name, compilers.ofEqual compiler, VersionList.repeatedMeet.ofEqual versions,
      variants.ofEqual settings⟩
  case kept =>
    intro left right both one two inside narrowed
    obtain ⟨name, compiler, versions, settings⟩ := satisfies_iff.mp inside
    obtain ⟨named, listed, set, compiled⟩ := narrow_eq_ok_iff.mp (toOption_eq_some.mp narrowed)
    have sameName := names.kept (fun _ _ => trivial) (fun _ _ => trivial) name (narrowName_eq_ok_iff.mp named)
    have sameSettings := variants.kept (fun _ _ _ => trivial) (fun _ _ _ => trivial) settings (toOption_eq_some.mpr set)
    have sameVersions := VersionList.repeatedMeet.kept one.versions two.versions versions listed
    have sameCompiler := compilers.kept one.compiler two.compiler compiler (narrowCompiler_eq_ok_iff.mp compiled)
    rw [beq_eq, sameName, name, sameVersions, sameSettings, settings, sameCompiler, Bool.true_and, Bool.true_and]
    rfl
  case settled =>
    intro value both again normal early late
    obtain ⟨named, listed, set, compiled⟩ := narrow_eq_ok_iff.mp (toOption_eq_some.mp early)
    obtain ⟨named', listed', set', compiled'⟩ := narrow_eq_ok_iff.mp (toOption_eq_some.mp late)
    simp only [beq_eq, Bool.and_eq_true]
    refine ⟨?name, VersionList.repeatedMeet.settled normal.versions listed listed', ?variants, ?compiler⟩
    case name => exact names.settled (fun _ _ => trivial) (narrowName_eq_ok_iff.mp named) (narrowName_eq_ok_iff.mp named')
    case variants =>
      exact variants.settled (fun _ _ _ => trivial) (toOption_eq_some.mpr set) (toOption_eq_some.mpr set')
    case compiler =>
      exact compilers.settled normal.compiler (narrowCompiler_eq_ok_iff.mp compiled) (narrowCompiler_eq_ok_iff.mp compiled')

end Node

namespace Spec

def holdsOverlaps (left right : Spec) : Bool :=
  left.node.holdsOverlaps right.node && meetsEntries Node.holdsOverlaps left.dependencies right.dependencies

theorem repeatedMeet : RepeatedMeet Normal satisfies holdsOverlaps fun left right => (narrow left right).toOption := by
  have dependencies := Node.repeatedMeet.entries narrowDependency_narrows.mergesEntries
  constructor
  case ofEqual =>
    intro left right same
    rw [beq_eq, Bool.and_eq_true] at same
    exact satisfies_iff.mpr ⟨Node.repeatedMeet.ofEqual same.1, dependencies.ofEqual same.2⟩
  case kept =>
    intro left right both one two inside narrowed
    obtain ⟨node, listed⟩ := satisfies_iff.mp inside
    obtain ⟨found, run⟩ := narrow_eq_ok_iff.mp (toOption_eq_some.mp narrowed)
    rw [beq_eq, Node.repeatedMeet.kept one.node two.node node (toOption_eq_some.mpr found),
      dependencies.kept one.dependencies two.dependencies listed (toOption_eq_some.mpr run)]
    rfl
  case settled =>
    intro value both again normal early late
    obtain ⟨first, run⟩ := narrow_eq_ok_iff.mp (toOption_eq_some.mp early)
    obtain ⟨second, rerun⟩ := narrow_eq_ok_iff.mp (toOption_eq_some.mp late)
    rw [beq_eq, Bool.and_eq_true]
    exact ⟨Node.repeatedMeet.settled normal.node (toOption_eq_some.mpr first) (toOption_eq_some.mpr second),
      dependencies.settled normal.dependencies (toOption_eq_some.mpr run) (toOption_eq_some.mpr rerun)⟩

/-- What constraining by a satisfied expression makes: an equivalent expression, and an
equal one exactly if there are no overlaps to add. -/
structure AddsOverlaps (before limit after : Spec) : Prop where
  narrower : after.satisfies before = true
  wider : before.satisfies after = true
  kept : (after == before) = before.holdsOverlaps limit

private theorem exists_addsOverlaps {spec limit : Spec} (first : spec.Obtainable) (second : limit.Obtainable)
    (inside : spec.satisfies limit = true) : ∃ after, spec.constrain limit = .ok after ∧ spec.AddsOverlaps limit after := by
  obtain ⟨after, narrowed, least⟩ := specMeet.greatest first.proper (specMeet.refl spec) inside
  exact ⟨after, constrain_eq_ok_iff.mpr (toOption_eq_some.mp narrowed), (specMeet.below narrowed).1, least,
    repeatedMeet.kept first.normal second.normal inside narrowed⟩

/-- Once an expression has been constrained by an equal one, others equal to it change nothing. -/
theorem beq_of_constrain_again {spec limit repeated both again : Spec} (first : spec.Obtainable) (second : limit.Obtainable)
    (third : repeated.Obtainable) (same : (limit == spec) = true) (alike : (repeated == spec) = true)
    (early : spec.constrain limit = .ok both) (late : both.constrain repeated = .ok again) : (again == both) = true := by
  have reached : both.Obtainable := .constrained first second early
  have narrowed := toOption_eq_some.mpr (constrain_eq_ok_iff.mp early)
  have narrowedAgain := toOption_eq_some.mpr (constrain_eq_ok_iff.mp late)
  have equal := specMerge.same
  obtain ⟨both', found, like⟩ :=
    specMerge.congr first.normal second.normal first.normal first.normal (equal.refl spec) same narrowed
  have normal := specMerge.closed first.normal first.normal found
  obtain ⟨again', foundAgain, likeAgain⟩ :=
    specMerge.congr reached.normal third.normal normal first.normal like alike narrowedAgain
  exact equal.trans likeAgain (equal.trans (repeatedMeet.settled first.normal found foundAgain) (equal.symm like))

end Spec

namespace Dependency

private theorem exists_merge_of_constrain {left right : Dependency} {target : Spec}
    (run : left.target.constrain right.target = .ok target) : ∃ both, left.merge right = .ok both ∧ both.target = target := by
  rw [merge_eq, run]
  exact ⟨_, rfl, rfl⟩

private theorem constrain_of_merge {left right both : Dependency} (run : left.merge right = .ok both) :
    left.target.constrain right.target = .ok both.target :=
  Spec.constrain_eq_ok_iff.mpr (merge_eq_ok_iff.mp run).1

private theorem exists_merge_addsOverlaps {first second : Dependency} (one : first.target.Obtainable)
    (two : second.target.Obtainable) (inside : first.target.satisfies second.target = true) :
    ∃ merged, first.merge second = .ok merged ∧ first.target.AddsOverlaps second.target merged.target := by
  obtain ⟨target, run, adds⟩ := Spec.exists_addsOverlaps one two inside
  obtain ⟨merged, merges, rfl⟩ := exists_merge_of_constrain run
  exact ⟨merged, merges, adds⟩

end Dependency

/-- Constraining an expression by one that it satisfies succeeds with an equivalent one, and
so does merging requirements on the same target. The result is equal to what was there
exactly if its version lists held the overlaps, and further merges leave it so. -/
theorem satisfied_constraint_adds_overlaps :
    (∀ spec limit : Spec, spec.Obtainable → limit.Obtainable → spec.satisfies limit = true →
      ∃ after, spec.constrain limit = .ok after ∧ spec.AddsOverlaps limit after) ∧
    ∀ first second third : Dependency,
      first.target.Obtainable → second.target.Obtainable → third.target.Obtainable →
      (second.target == first.target) = true → (third.target == first.target) = true →
      ∃ merged again, first.merge second = .ok merged ∧ merged.merge third = .ok again ∧
        first.target.AddsOverlaps second.target merged.target ∧ (again.target == merged.target) = true := by
  constructor
  · exact fun _ _ => Spec.exists_addsOverlaps
  · intro first second third one two three same alike
    have satisfied : ∀ {limit : Spec}, (limit == first.target) = true → first.target.satisfies limit = true :=
      fun equal => Spec.repeatedMeet.ofEqual (BEq.symm equal)
    obtain ⟨merged, early, adds⟩ := Dependency.exists_merge_addsOverlaps one two (satisfied same)
    have constrained := Dependency.constrain_of_merge early
    have reached : merged.target.Obtainable := .constrained one two constrained
    have inside := Spec.specMeet.trans adds.narrower (satisfied alike)
    obtain ⟨again, late, _⟩ := Dependency.exists_merge_addsOverlaps reached three inside
    have settled := Spec.beq_of_constrain_again one two three same alike constrained (Dependency.constrain_of_merge late)
    exact ⟨merged, again, early, late, adds, settled⟩

theorem single_ranges_stay :
    ∃ spec limit after : Spec,
      Spec.parse "hdf5@1.8:1.10.5 %gcc@9.2 ^mpich@3.2" = .ok spec ∧ Spec.parse "@1.8: %gcc@9 ^mpich@3" = .ok limit ∧
      spec.constrain limit = .ok after ∧ (after == spec) = true ∧
      ∃ merged again, (Dependency.new spec (.ofList [.build])).merge (.new spec (.ofList [.link])) = .ok merged ∧
        merged.merge (.new spec (.ofList [.run])) = .ok again ∧ (merged.target == spec) = true ∧
        (again.target == merged.target) = true := by
  have checked : (do
      let spec ← Spec.parse "hdf5@1.8:1.10.5 %gcc@9.2 ^mpich@3.2"
      let limit ← Spec.parse "@1.8: %gcc@9 ^mpich@3"
      return (spec.satisfies limit, spec.holdsOverlaps limit, spec.holdsOverlaps spec)).toOption =
        some (true, true, true) := by decide +kernel
  obtain ⟨spec, readSpec, checked⟩ := bind_eq_ok.mp (toOption_eq_some.mp checked)
  obtain ⟨limit, readLimit, checked⟩ := bind_eq_ok.mp checked
  obtain ⟨inside, holdsLimit, holdsOwn⟩ := by simpa using Except.ok.inj checked
  have obtained : spec.Obtainable := .parsed readSpec
  obtain ⟨constrained, merges⟩ := satisfied_constraint_adds_overlaps
  obtain ⟨after, run, adds⟩ := constrained spec limit obtained (.parsed readLimit) inside
  obtain ⟨merged, again, early, late, addsOwn, settled⟩ :=
    merges (.new spec (.ofList [.build])) (.new spec (.ofList [.link])) (.new spec (.ofList [.run]))
      obtained obtained obtained (BEq.refl spec) (BEq.refl spec)
  exact ⟨spec, limit, after, readSpec, readLimit, run, adds.kept.trans holdsLimit, merged, again, early, late,
    addsOwn.kept.trans holdsOwn, settled⟩

def crossingRanges : List VersionRange :=
  [⟨some ⟨"1", [.number 1], by decide +kernel⟩, some ⟨"3", [.number 3], by decide +kernel⟩⟩,
    ⟨some ⟨"2", [.number 2], by decide +kernel⟩, some ⟨"4", [.number 4], by decide +kernel⟩⟩]

def crossingVersions : Spec := ⟨⟨some "zlib", ⟨crossingRanges⟩, .empty, none⟩, .empty⟩

private theorem parse_crossingVersions : Spec.parse "zlib@1:3,2:4" = .ok crossingVersions := by
  have read : Spec.parse "zlib@1:3,2:4" = .ok ⟨⟨some "zlib", .normalize crossingRanges, .empty, none⟩, .empty⟩ := by
    with_unfolding_all rfl
  rw [read, VersionList.normalize_of_increasing (by decide +kernel) (by decide)]
  rfl

/-- Crossing ranges come back with their overlap, also from merging the requirement with itself. -/
theorem crossing_ranges_gain_overlap :
    ∃ spec both : Spec, Spec.parse "zlib@1:3,2:4" = .ok spec ∧ spec.satisfies spec = true ∧
      spec.constrain spec = .ok both ∧ (both == spec) = false ∧
      ∃ merged, (Dependency.new spec (.ofList [.build])).merge (.new spec (.ofList [.link])) = .ok merged ∧
        (merged.target == spec) = false := by
  have crosses : crossingVersions.holdsOverlaps crossingVersions = false := by decide +kernel
  have obtained : crossingVersions.Obtainable := .parsed parse_crossingVersions
  have inside := Spec.specMeet.refl crossingVersions
  obtain ⟨both, run, adds⟩ := Spec.exists_addsOverlaps obtained obtained inside
  obtain ⟨merged, merges, addsOwn⟩ :=
    @Dependency.exists_merge_addsOverlaps (.new crossingVersions (.ofList [.build])) (.new crossingVersions (.ofList [.link]))
      obtained obtained inside
  exact ⟨crossingVersions, both, parse_crossingVersions, inside, run, adds.kept.trans crosses, merged, merges,
    addsOwn.kept.trans crosses⟩

end PackageRecipes
