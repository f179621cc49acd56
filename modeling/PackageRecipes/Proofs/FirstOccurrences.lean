import Mathlib.Data.List.Induction
import PackageRecipes.Builder
import PackageRecipes.Proofs.DirectiveEquality

/-! The first occurrences in a list. They are all different, and nothing is missing
from them up to equality. -/

namespace PackageRecipes

variable {α : Type} [BEq α]

def firstOccurrences (items : List α) : List α :=
  items.foldl (fun kept item => if kept.any (· == item) then kept else kept ++ [item]) []

theorem keepFirst_eq (directives : List Directive) : keepFirst directives = firstOccurrences directives :=
  rfl

theorem firstOccurrences_concat (items : List α) (item : α) :
    firstOccurrences (items ++ [item]) =
      if (firstOccurrences items).any (· == item) then firstOccurrences items
      else firstOccurrences items ++ [item] := by
  rw [firstOccurrences, List.foldl_append]
  rfl

/-- What has been kept up to some item stays in front of what is kept later. -/
theorem firstOccurrences_append (items others : List α) :
    ∃ later, firstOccurrences (items ++ others) = firstOccurrences items ++ later ∧ later.Sublist others := by
  induction others generalizing items with
  | nil => exact ⟨[], by simp, .slnil⟩
  | cons item rest ih =>
    obtain ⟨later, kept, sublist⟩ := ih (items ++ [item])
    rw [List.append_assoc, List.singleton_append, firstOccurrences_concat] at kept
    split at kept
    next => exact ⟨later, kept, sublist.cons item⟩
    next => exact ⟨item :: later, by simpa using kept, sublist.cons_cons item⟩

theorem firstOccurrences_sublist (items : List α) : (firstOccurrences items).Sublist items := by
  obtain ⟨later, kept, sublist⟩ := firstOccurrences_append [] items
  rw [List.nil_append] at kept
  rw [kept]
  exact sublist

theorem firstOccurrences_ne_nil {items : List α} (nonempty : items ≠ []) : firstOccurrences items ≠ [] := by
  cases items with
  | nil => exact absurd rfl nonempty
  | cons first rest =>
    obtain ⟨later, kept, _⟩ := firstOccurrences_append [first] rest
    rw [List.singleton_append] at kept
    rw [kept]
    exact List.cons_ne_nil first later

theorem any_firstOccurrences [EquivBEq α] (items : List α) (item : α) :
    (firstOccurrences items).any (· == item) = items.any (· == item) := by
  suffices folded : ∀ kept : List α,
      (items.foldl (fun kept item => if kept.any (· == item) then kept else kept ++ [item]) kept).any (· == item) =
        (kept.any (· == item) || items.any (· == item)) from folded []
  induction items with
  | nil => simp
  | cons first rest ih =>
    intro kept
    rw [List.foldl_cons, ih, List.any_cons]
    split
    next present =>
      by_cases same : first == item
      · have found : kept.any (· == item) = true := by
          obtain ⟨earlier, member, equal⟩ := List.any_eq_true.mp present
          exact List.any_eq_true.mpr ⟨earlier, member, BEq.trans equal same⟩
        simp [found]
      · simp [same]
    next => simp [Bool.or_assoc]

theorem any_congr [EquivBEq α] {items : List α} {item other : α} (same : (item == other) = true) :
    items.any (· == item) = items.any (· == other) := by
  congr 1
  funext first
  exact BEq.congr_right same

/-- Items are dropped as their images are, where these are compared in the same way. -/
theorem firstOccurrences_map {β : Type} [BEq β] {f : α → β} (same : ∀ left right, (f left == f right) = (left == right))
    (items : List α) : firstOccurrences (items.map f) = (firstOccurrences items).map f := by
  induction items using List.reverseRecOn with
  | nil => rfl
  | append_singleton earlier item ih =>
    have present : ((firstOccurrences earlier).map f).any (· == f item) = (firstOccurrences earlier).any (· == item) := by
      simp only [List.any_map, Function.comp_def, same]
    rw [List.map_append, List.map_singleton, firstOccurrences_concat, firstOccurrences_concat, ih, present]
    split
    next => rfl
    next => rw [List.map_append, List.map_singleton]

theorem pairwise_firstOccurrences (items : List α) :
    (firstOccurrences items).Pairwise fun first second => (first == second) = false := by
  suffices folded : ∀ kept : List α, (kept.Pairwise fun first second => (first == second) = false) →
      (items.foldl (fun kept item => if kept.any (· == item) then kept else kept ++ [item]) kept).Pairwise
        fun first second => (first == second) = false from folded [] .nil
  induction items with
  | nil => exact fun kept apart => apart
  | cons item rest ih =>
    intro kept apart
    rw [List.foldl_cons]
    apply ih
    split
    next => exact apart
    next absent =>
      refine List.pairwise_append.mpr ⟨apart, List.pairwise_singleton _ item, ?_⟩
      intro first member second last
      rw [List.mem_singleton.mp last]
      simp only [List.any_eq_true, not_exists, not_and] at absent
      exact Bool.eq_false_iff.mpr (absent first member)

end PackageRecipes
