import PackageRecipes.Directive
import PackageRecipes.Proofs.SpecEquality

/-! Equality of recorded directives is an equivalence, although it is not the equality
of their spellings: versions count by their segments, directories by their
components, tests and custom actions by their numbers. -/

namespace PackageRecipes

section Parts

variable {α β : Type} [BEq α] [BEq β]

/-- What is compared through its parts is compared by an equivalence if they are. -/
private theorem equivBEq_of_parts [EquivBEq β] (parts : α → β)
    (compared : ∀ left right, (left == right) = (parts left == parts right)) : EquivBEq α where
  rfl {value} := by
    rw [compared]
    exact BEq.refl (parts value)
  symm {left right} same := by
    rw [compared] at same ⊢
    exact BEq.symm same
  trans {first second third} early late := by
    rw [compared] at early late ⊢
    exact BEq.trans early late

instance equivBEqProd [EquivBEq α] [EquivBEq β] : EquivBEq (α × β) where
  symm {left right} same := by
    have both := Bool.and_eq_true_iff.mp same
    exact Bool.and_eq_true_iff.mpr ⟨BEq.symm both.1, BEq.symm both.2⟩
  trans {first second third} early late := by
    have one := Bool.and_eq_true_iff.mp early
    have two := Bool.and_eq_true_iff.mp late
    exact Bool.and_eq_true_iff.mpr ⟨BEq.trans one.1 two.1, BEq.trans one.2 two.2⟩

instance equivBEqOption [EquivBEq α] : EquivBEq (Option α) where
  symm {left right} same := by
    cases left <;> cases right
    case some.some left right => exact BEq.symm (a := left) same
    all_goals exact same
  trans {first second third} early late := by
    cases first <;> cases second <;> cases third
    case some.some.some first second third => exact BEq.trans (a := first) early late
    all_goals first | exact early | exact late | cases early

instance equivBEqList [EquivBEq α] : EquivBEq (List α) where
  symm {left right} same := by
    induction left generalizing right with
    | nil => cases right <;> exact same
    | cons head rest ih =>
      cases right with
      | nil => exact same
      | cons other others =>
        have both := Bool.and_eq_true_iff.mp same
        exact Bool.and_eq_true_iff.mpr ⟨BEq.symm both.1, ih both.2⟩
  trans {first second third} early late := by
    induction first generalizing second third with
    | nil =>
      cases second with
      | nil => exact late
      | cons => cases early
    | cons head rest ih =>
      cases second with
      | nil => cases early
      | cons middle others =>
        cases third with
        | nil => cases late
        | cons last remaining =>
          have one := Bool.and_eq_true_iff.mp early
          have two := Bool.and_eq_true_iff.mp late
          exact Bool.and_eq_true_iff.mpr ⟨BEq.trans one.1 two.1, ih one.2 two.2⟩

end Parts

instance {κ α : Type} [Ord κ] [BEq κ] [BEq α] [EquivBEq κ] [EquivBEq α] : EquivBEq (OrderedMap κ α) :=
  equivBEq_of_parts (·.entries) fun _ _ => rfl

instance : EquivBEq Directory :=
  equivBEq_of_parts (fun directory => Path.components directory.text) fun _ _ => rfl

instance : EquivBEq Conflict :=
  equivBEq_of_parts (fun conflict => (conflict.when, conflict.message)) fun _ _ => rfl

instance : EquivBEq DependencyPatch :=
  equivBEq_of_parts
    (fun patch => (patch.locator, patch.level, patch.when, patch.details, patch.directory)) fun _ _ => rfl

instance : EquivBEq VersionDeclaration :=
  equivBEq_of_parts (fun declared => (declared.version, declared.checksum, declared.metadata)) fun _ _ => rfl

instance : EquivBEq DependencyDeclaration :=
  equivBEq_of_parts
    (fun declared => (declared.target, declared.when, declared.types, declared.patches)) fun _ _ => rfl

instance : EquivBEq ExtensionDeclaration :=
  equivBEq_of_parts
    (fun declared => (declared.target, declared.when, declared.types, declared.options)) fun _ _ => rfl

instance : EquivBEq ConflictDeclaration :=
  equivBEq_of_parts (fun declared => (declared.conflict, declared.when, declared.message)) fun _ _ => rfl

instance : EquivBEq ProvisionDeclaration :=
  equivBEq_of_parts (fun declared => (declared.virtuals, declared.when)) fun _ _ => rfl

instance : EquivBEq PatchDeclaration :=
  equivBEq_of_parts
    (fun declared => (declared.locator, declared.level, declared.when, declared.details, declared.directory))
    fun _ _ => rfl

instance : EquivBEq ResourceDeclaration :=
  equivBEq_of_parts
    (fun declared =>
      (declared.name, declared.when, declared.destination, declared.placement, declared.fetch))
    fun _ _ => rfl

instance : EquivBEq ValueTest :=
  equivBEq_of_parts (·.number) fun _ _ => rfl

instance : EquivBEq GroupCheck :=
  equivBEq_of_parts (·.number) fun _ _ => rfl

instance : EquivBEq VariantDomain where
  rfl {domain} := by
    cases domain with
    | oneOf allowed => exact BEq.refl allowed
    | tested test => exact BEq.refl test
    | switch => rfl
    | any => rfl
  symm {left right} same := by
    cases left <;> cases right
    case oneOf.oneOf left right => exact BEq.symm (a := left) same
    case tested.tested left right => exact BEq.symm (a := left) same
    all_goals exact same
  trans {first second third} early late := by
    cases first <;> cases second <;> cases third
    case oneOf.oneOf.oneOf first second third => exact BEq.trans (a := first) early late
    case tested.tested.tested first second third => exact BEq.trans (a := first) early late
    all_goals first | exact early | exact late | cases early

instance : EquivBEq Variant :=
  equivBEq_of_parts
    (fun variant =>
      (variant.name, variant.default, variant.description, variant.domain, variant.multi, variant.check))
    fun _ _ => rfl

instance : EquivBEq Declaration where
  rfl {declaration} := by
    cases declaration
    all_goals next declared => exact BEq.refl declared
  symm {left right} same := by
    cases left <;> cases right <;> first | cases same | skip
    all_goals next left right => exact BEq.symm (a := left) same
  trans {first second third} early late := by
    cases first <;> cases second <;> first | cases early | skip
    all_goals cases third <;> first | cases late | skip
    all_goals next first second third => exact BEq.trans (a := first) early late

/-- Custom actions have no inside to compare, only the name and number of their record. -/
instance : EquivBEq Directive where
  rfl {directive} := by
    cases directive with
    | declared declaration => exact BEq.refl declaration
    | custom kind number => exact BEq.refl (kind.name, number)
  symm {left right} same := by
    cases left with
    | declared left =>
      cases right with
      | declared right => exact BEq.symm (a := left) same
      | custom => cases same
    | custom left first =>
      cases right with
      | declared => cases same
      | custom right second => exact BEq.symm (a := (left.name, first)) (b := (right.name, second)) same
  trans {first second third} early late := by
    cases first with
    | declared first =>
      cases second with
      | custom => cases early
      | declared second =>
        cases third with
        | custom => cases late
        | declared third => exact BEq.trans (a := first) early late
    | custom first one =>
      cases second with
      | declared => cases early
      | custom second two =>
        cases third with
        | declared => cases late
        | custom third three =>
          exact BEq.trans (a := (first.name, one)) (b := (second.name, two)) (c := (third.name, three)) early late

end PackageRecipes
