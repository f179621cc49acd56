import Mathlib.Data.List.Forall2
import PackageRecipes.Proofs.CommutativeMerge
import PackageRecipes.Proofs.FirstOccurrences

/-! Lists with the same items in another order, where items may be replaced by others
like them. Merging a list of values comes to the same for all such lists, and
dropping repetitions leaves such lists of such lists. -/

namespace PackageRecipes

variable {α β : Type} {alike : α → α → Prop}

/-- The items of the second list are those of the first up to likeness, in any order. -/
def Rearranged (alike : α → α → Prop) (items others : List α) : Prop :=
  ∃ middle, List.Forall₂ alike items middle ∧ middle.Perm others

/-- What is chosen from items that are alike is alike again. -/
theorem Rearranged.filterMap {alike' : β → β → Prop} {items others : List α} {choose : α → Option β}
    (rearranged : Rearranged alike items others)
    (congr : ∀ first ∈ items, ∀ second ∈ others, alike first second → Option.Rel alike' (choose first) (choose second)) :
    Rearranged alike' (items.filterMap choose) (others.filterMap choose) := by
  obtain ⟨middle, like, perm⟩ := rearranged
  refine ⟨middle.filterMap choose, ?_, perm.filterMap choose⟩
  have inside : ∀ second ∈ middle, second ∈ others := fun second member => perm.mem_iff.mp member
  clear perm
  induction like with
  | nil => exact .nil
  | @cons first second rest later same _ ih =>
    have chosen := congr first List.mem_cons_self second (inside second List.mem_cons_self) same
    have remaining := ih
      (fun first member second present => congr first (List.mem_cons_of_mem _ member) second present)
      (fun second member => inside second (List.mem_cons_of_mem _ member))
    rw [List.filterMap_cons, List.filterMap_cons]
    generalize choose first = one, choose second = two at chosen
    cases chosen with
    | none => exact remaining
    | some like => exact .cons like remaining

private theorem rel_mapM_perm {read : α → Option β} {items others : List α} (perm : items.Perm others) :
    Option.Rel List.Perm (items.mapM read) (others.mapM read) := by
  have same := rel_equivalence (List.isSetoid β).iseqv
  induction perm with
  | nil => exact .some (.refl _)
  | cons item _ ih =>
    rw [List.mapM_cons, List.mapM_cons]
    refine rel_bind ((rel_equivalence eq_equivalence).refl _) fun _ _ equal => rel_bind ih fun _ _ perm => ?_
    exact .some (equal ▸ perm.cons _)
  | swap first second rest =>
    rw [List.mapM_cons, List.mapM_cons, List.mapM_cons, List.mapM_cons]
    cases read first <;> cases read second <;> cases rest.mapM read
    case some.some.some one other later => exact .some (.swap one other later)
    all_goals exact .none
  | trans _ _ early late => exact same.trans early late

/-- What is read of items that are alike is the same in another order. -/
theorem Rearranged.rel_mapM {read : α → Option β} {items others : List α} (rearranged : Rearranged alike items others)
    (congr : ∀ {first second}, alike first second → read first = read second) :
    Option.Rel List.Perm (items.mapM read) (others.mapM read) := by
  obtain ⟨middle, like, perm⟩ := rearranged
  have same : items.mapM read = middle.mapM read := by
    clear perm
    induction like with
    | nil => rfl
    | cons equal _ ih => rw [List.mapM_cons, List.mapM_cons, congr equal, ih]
  rw [same]
  exact rel_mapM_perm perm

theorem Rearranged.exists_alike {items others : List α} (rearranged : Rearranged alike items others) :
    ∀ other ∈ others, ∃ item ∈ items, alike item other := by
  obtain ⟨middle, like, perm⟩ := rearranged
  intro other member
  have present := perm.mem_iff.mpr member
  clear perm member
  induction like with
  | nil => cases present
  | @cons first second rest later same _ ih =>
    rcases List.mem_cons.mp present with rfl | later
    · exact ⟨first, List.mem_cons_self, same⟩
    · exact (ih later).imp fun _ found => ⟨List.mem_cons_of_mem first found.1, found.2⟩

/-- Steps that commute lead to the same end in any order. -/
theorem foldlM_perm {step : β → α → Option β} {items others : List α} (perm : items.Perm others)
    (comm : ∀ state first second,
      (step state first).bind (step · second) = (step state second).bind (step · first)) (start : β) :
    items.foldlM step start = others.foldlM step start := by
  induction perm generalizing start with
  | nil => rfl
  | cons item _ ih =>
    rw [List.foldlM_cons, List.foldlM_cons]
    exact Option.bind_congr fun next _ => ih next
  | swap first second rest =>
    have turned := congrArg (·.bind fun next => rest.foldlM step next) (comm start second first)
    simpa only [List.foldlM_cons, Option.bind_eq_bind, Option.bind_assoc] using turned
  | trans _ _ early late => exact (early start).trans (late start)

section Merging

variable {normal : α → Prop} {merge : α → α → Option α} (laws : CommutativeMerge alike normal merge)
include laws

theorem CommutativeMerge.foldlM_congr {items others : List α} {start begin' result : α} (normalStart : normal start)
    (normalBegin : normal begin') (normalItems : ∀ item ∈ items, normal item) (normalOthers : ∀ item ∈ others, normal item)
    (starts : alike start begin') (like : List.Forall₂ alike items others)
    (run : items.foldlM merge start = some result) :
    ∃ other, others.foldlM merge begin' = some other ∧ alike result other := by
  induction like generalizing start begin' with
  | nil =>
    cases run
    exact ⟨begin', rfl, starts⟩
  | @cons first second rest later same _ ih =>
    rw [List.foldlM_cons, Option.bind_eq_bind, Option.bind_eq_some_iff] at run
    obtain ⟨both, merged, run⟩ := run
    have normalFirst := normalItems first List.mem_cons_self
    have normalSecond := normalOthers second List.mem_cons_self
    obtain ⟨other, again, likeBoth⟩ :=
      laws.congr normalStart normalFirst normalBegin normalSecond starts same merged
    obtain ⟨last, found, likeLast⟩ := ih (laws.closed normalStart normalFirst merged)
      (laws.closed normalBegin normalSecond again) (fun item member => normalItems item (List.mem_cons_of_mem _ member))
      (fun item member => normalOthers item (List.mem_cons_of_mem _ member)) likeBoth run
    refine ⟨last, ?_, likeLast⟩
    rw [List.foldlM_cons, again]
    exact found

theorem CommutativeMerge.foldlM_perm {items others : List α} (perm : items.Perm others) {start result : α}
    (normalStart : normal start) (normalItems : ∀ item ∈ items, normal item)
    (run : items.foldlM merge start = some result) :
    ∃ other, others.foldlM merge start = some other ∧ alike result other := by
  induction perm generalizing start result with
  | nil => exact ⟨result, run, laws.same.refl result⟩
  | cons item _ ih =>
    rw [List.foldlM_cons, Option.bind_eq_bind, Option.bind_eq_some_iff] at run
    obtain ⟨both, merged, run⟩ := run
    have normalBoth := laws.closed normalStart (normalItems item List.mem_cons_self) merged
    obtain ⟨other, found, like⟩ := ih normalBoth (fun other member => normalItems other (List.mem_cons_of_mem _ member)) run
    refine ⟨other, ?_, like⟩
    rw [List.foldlM_cons, merged]
    exact found
  | swap first second rest =>
    rw [List.foldlM_cons, Option.bind_eq_bind, Option.bind_eq_some_iff] at run
    obtain ⟨both, once, run⟩ := run
    rw [List.foldlM_cons, Option.bind_eq_bind, Option.bind_eq_some_iff] at run
    obtain ⟨both', twice, run⟩ := run
    have normalSecond := normalItems second List.mem_cons_self
    have normalFirst := normalItems first (List.mem_cons_of_mem _ List.mem_cons_self)
    obtain ⟨other, other', once', twice', like⟩ := laws.rightComm normalStart normalSecond normalFirst once twice
    have normalRest : ∀ item ∈ rest, normal item := fun item member =>
      normalItems item (List.mem_cons_of_mem _ (List.mem_cons_of_mem _ member))
    obtain ⟨last, found, likeLast⟩ := laws.foldlM_congr
      (laws.closed (laws.closed normalStart normalSecond once) normalFirst twice)
      (laws.closed (laws.closed normalStart normalFirst once') normalSecond twice') normalRest normalRest like
      (List.forall₂_same.mpr fun item _ => laws.same.refl item) run
    refine ⟨last, ?_, likeLast⟩
    rw [List.foldlM_cons, once', Option.bind_eq_bind, Option.bind_some, List.foldlM_cons, twice']
    exact found
  | trans early _ first second =>
    obtain ⟨middle, found, like⟩ := first normalStart normalItems run
    obtain ⟨last, found, likeLast⟩ :=
      second normalStart (fun item member => normalItems item (early.mem_iff.mpr member)) found
    exact ⟨last, found, laws.same.trans like likeLast⟩

/-- Merging values one after the other comes to the same in any order. -/
theorem CommutativeMerge.foldlM_rearranged {items others : List α} {start result : α} (normalStart : normal start)
    (normalItems : ∀ item ∈ items, normal item) (normalOthers : ∀ item ∈ others, normal item)
    (rearranged : Rearranged alike items others) (run : items.foldlM merge start = some result) :
    ∃ other, others.foldlM merge start = some other ∧ alike result other := by
  obtain ⟨middle, like, perm⟩ := rearranged
  have normalMiddle : ∀ item ∈ middle, normal item := fun item member => normalOthers item (perm.mem_iff.mp member)
  obtain ⟨other, found, likeOther⟩ :=
    laws.foldlM_congr normalStart normalStart normalItems normalMiddle (laws.same.refl start) like run
  obtain ⟨last, found, likeLast⟩ := laws.foldlM_perm perm normalStart normalMiddle found
  exact ⟨last, found, laws.same.trans likeOther likeLast⟩

private theorem CommutativeMerge.rel_foldlM_congr {items : List α} {start begin' : α} (normalStart : normal start)
    (normalBegin : normal begin') (normalItems : ∀ item ∈ items, normal item) (starts : alike start begin') :
    Option.Rel alike (items.foldlM merge start) (items.foldlM merge begin') := by
  have same : List.Forall₂ alike items items := List.forall₂_same.mpr fun item _ => laws.same.refl item
  apply rel_of_exists
  · exact fun _ run => laws.foldlM_congr normalStart normalBegin normalItems normalItems starts same run
  · intro other run
    obtain ⟨result, found, _⟩ :=
      laws.foldlM_congr normalBegin normalStart normalItems normalItems (laws.same.symm starts) same run
    exact ⟨result, found⟩

theorem CommutativeMerge.rel_foldlM_perm {items others : List α} (perm : items.Perm others) {start : α}
    (normalStart : normal start) (normalItems : ∀ item ∈ items, normal item) :
    Option.Rel alike (items.foldlM merge start) (others.foldlM merge start) := by
  apply rel_of_exists
  · exact fun _ run => laws.foldlM_perm perm normalStart normalItems run
  · intro other run
    obtain ⟨result, found, _⟩ :=
      laws.foldlM_perm perm.symm normalStart (fun item member => normalItems item (perm.mem_iff.mpr member)) run
    exact ⟨result, found⟩

/-- Values may be merged with one another before they are merged into another value. -/
theorem CommutativeMerge.rel_foldlM_assoc {items : List α} {start middle whole : α} (normalStart : normal start)
    (normalMiddle : normal middle) (normalItems : ∀ item ∈ items, normal item)
    (run : items.foldlM merge middle = some whole) :
    Option.Rel alike ((merge start middle).bind fun begins => items.foldlM merge begins) (merge start whole) := by
  induction items generalizing middle with
  | nil =>
    cases run
    change Option.Rel alike ((merge start whole).bind some) _
    rw [Option.bind_fun_some]
    exact (rel_equivalence laws.same).refl _
  | cons item rest ih =>
    rw [List.foldlM_cons, Option.bind_eq_bind, Option.bind_eq_some_iff] at run
    obtain ⟨both, merged, run⟩ := run
    obtain ⟨normalItem, normalRest⟩ := List.forall_mem_cons.mp normalItems
    have later := ih (laws.closed normalMiddle normalItem merged) normalRest run
    have turned := laws.rel_assoc normalStart normalMiddle normalItem
    rw [merged, Option.bind_some] at turned
    refine (rel_equivalence laws.same).trans ?_ later
    simp only [List.foldlM_cons, Option.bind_eq_bind, ← Option.bind_assoc]
    refine rel_bind turned fun early late like => ?_
    obtain ⟨first, once, twice⟩ := Option.bind_eq_some_iff.mp early
    exact laws.rel_foldlM_congr (laws.closed (laws.closed normalStart normalMiddle once) normalItem twice)
      (laws.closed normalStart (laws.closed normalMiddle normalItem merged) late) normalRest like

end Merging

section Repetitions

variable [BEq α] [EquivBEq α]

private theorem any_eq_false_of_apart {items : List α} {item sought : α}
    (apart : ∀ other ∈ items, (item == other) = false) (same : (item == sought) = true) :
    items.any (· == sought) = false := by
  refine List.any_eq_false.mpr fun other member equal => ?_
  have together : (item == other) = true := BEq.trans same (BEq.symm equal)
  rw [apart other member] at together
  cases together

/-- Lists without repetitions are rearrangements if they have the same items. -/
private theorem rearranged_of_any {items others : List α}
    (apart : items.Pairwise fun first second => (first == second) = false)
    (apart' : others.Pairwise fun first second => (first == second) = false)
    (same : ∀ item, items.any (· == item) = others.any (· == item)) :
    Rearranged (fun left right => (left == right) = true) items others := by
  induction items generalizing others with
  | nil =>
    cases others with
    | nil => exact ⟨[], .nil, .refl _⟩
    | cons first rest =>
      have found := same first
      rw [List.any_nil, List.any_cons, BEq.refl, Bool.true_or] at found
      cases found
  | cons item rest ih =>
    have found := same item
    rw [List.any_cons, BEq.refl, Bool.true_or, eq_comm, List.any_eq_true] at found
    obtain ⟨other, member, equal⟩ := found
    obtain ⟨before, after, rfl⟩ := List.append_of_mem member
    have shuffled : (before ++ other :: after).Perm (other :: (before ++ after)) := List.perm_middle
    obtain ⟨apartHead, apart⟩ := List.pairwise_cons.mp apart
    obtain ⟨apartOther, apart'⟩ := List.pairwise_cons.mp
      ((shuffled.pairwise_iff fun {first second} differ => by rwa [BEq.comm]).mp apart')
    obtain ⟨middle, like, perm⟩ := ih apart apart' fun sought => by
      have both := same sought
      rw [shuffled.any_eq, List.any_cons, List.any_cons, BEq.congr_left equal] at both
      by_cases here : (item == sought) = true
      · rw [any_eq_false_of_apart apartHead here, any_eq_false_of_apart apartOther (BEq.trans equal here)]
      · rwa [Bool.eq_false_iff.mpr here, Bool.false_or, Bool.false_or] at both
    exact ⟨other :: middle, .cons (BEq.symm equal) like, (perm.cons other).trans shuffled.symm⟩

theorem rearranged_firstOccurrences {items others : List α} (perm : items.Perm others) :
    Rearranged (fun left right => (left == right) = true) (firstOccurrences items) (firstOccurrences others) := by
  refine rearranged_of_any (pairwise_firstOccurrences items) (pairwise_firstOccurrences others) fun item => ?_
  rw [any_firstOccurrences, any_firstOccurrences]
  exact perm.any_eq

end Repetitions

end PackageRecipes
