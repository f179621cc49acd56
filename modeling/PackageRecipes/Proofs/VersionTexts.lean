import PackageRecipes.Proofs.AdmittedVersions
import PackageRecipes.Proofs.WrittenParts

/-! The text of a list of versions stands for the list. Intersections make ranges that
nobody wrote, with bounds that are equal but differ in their spelling or with a lower bound
that extends the upper one; they too are read back from their texts. -/

namespace PackageRecipes

namespace VersionList

variable {left right : VersionList}

private theorem contains_of_beq (normalLeft : left.Normal) (normalRight : right.Normal) (same : (left == right) = true)
    (version : Version) : left.contains version = right.contains version := by
  have lists := (beq_iff_lists normalLeft normalRight).mp same
  have inside : ∀ {first second : VersionList}, (∀ range, first.Lists range → second.Lists range) →
      first.contains version = true → second.contains version = true := by
    intro first second listed admitted
    obtain ⟨range, member, admits⟩ := contains_iff.mp admitted
    obtain ⟨other, present, equal⟩ := listed range (lists_of_mem member)
    have covers := VersionRange.within_of_beq (BEq.symm equal)
    exact contains_iff.mpr ⟨other, present, VersionRange.contains_of_within covers admits⟩
  rw [Bool.eq_iff_iff]
  exact ⟨inside fun range => (lists range).mp, inside fun range => (lists range).mpr⟩

private theorem parse_text_any : parse any.text = .ok any := by
  with_unfolding_all rfl

theorem Normal.parse_text {list : VersionList} (normal : list.Normal) :
    ∃ again, parse list.text = .ok again ∧ (again == list) = true := by
  cases bounded : list.isAny with
  | false => exact VersionList.parse_text normal bounded
  | true =>
    obtain rfl := normal.unbounded bounded
    exact ⟨any, parse_text_any, BEq.refl any⟩

/-- What can be made by reading and intersecting is read back from its text. -/
theorem obtainable_read_back {list : VersionList} (obtainable : list.Obtainable) :
    ∃ again, parse list.text = .ok again ∧ (again == list) = true ∧
      ∀ version, again.contains version = list.contains version := by
  have normal := obtainable.normal
  obtain ⟨again, read, same⟩ := normal.parse_text
  exact ⟨again, read, same, contains_of_beq (normal_of_parse read) normal same⟩

/-- The range `1.2.3:1-2` that comes first was not written, and then both its bounds become
equal in different spellings. -/
theorem intersection_read_back :
    ∃ left right third both all again : VersionList,
      parse "1.2.3:1.2" = .ok left ∧ parse ":1-2" = .ok right ∧ parse ":1-2-3" = .ok third ∧
      left.intersect right = some both ∧ both.intersect third = some all ∧
      parse all.text = .ok again ∧ (again == all) = true ∧
      ∀ version, again.contains version = all.contains version := by
  have overlap : (do
      let left ← (parse "1.2.3:1.2").toOption
      let right ← (parse ":1-2").toOption
      let third ← (parse ":1-2-3").toOption
      let both ← left.intersect right
      both.intersect third).isSome = true := by decide +kernel
  obtain ⟨all, found⟩ := Option.isSome_iff_exists.mp overlap
  obtain ⟨left, readLeft, found⟩ := Option.bind_eq_some_iff.mp found
  obtain ⟨right, readRight, found⟩ := Option.bind_eq_some_iff.mp found
  obtain ⟨third, readThird, found⟩ := Option.bind_eq_some_iff.mp found
  obtain ⟨both, first, second⟩ := Option.bind_eq_some_iff.mp found
  have readLeft := toOption_eq_some.mp readLeft
  have readRight := toOption_eq_some.mp readRight
  have readThird := toOption_eq_some.mp readThird
  obtain ⟨again, read, same, admits⟩ :=
    obtainable_read_back (.intersected (.intersected (.parsed readLeft) (.parsed readRight) first) (.parsed readThird) second)
  exact ⟨left, right, third, both, all, again, readLeft, readRight, readThird, first, second, read, same, admits⟩

end VersionList

end PackageRecipes
