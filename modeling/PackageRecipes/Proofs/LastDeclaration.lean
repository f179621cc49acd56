import Mathlib.Data.List.Induction
import PackageRecipes.Proofs.ReplayGrouping

/-! Later declarations of a variant or a version write over earlier ones, but a directive
that has been declared before is not replayed again. What a package ends up with is
therefore not what was declared last, but what was last declared for the first time. -/

namespace PackageRecipes

section Splits

variable {α : Type}

/-- Of two places in a list, one comes first unless they are the same. -/
private theorem split_cases {before before' after after' : List α} {first first' : α}
    (same : before ++ first :: after = before' ++ first' :: after') :
    (before = before' ∧ first = first' ∧ after = after') ∨
    (∃ middle, before' = before ++ first :: middle ∧ after = middle ++ first' :: after') ∨
    (∃ middle, before = before' ++ first' :: middle ∧ after' = middle ++ first :: after) := by
  rcases List.append_eq_append_iff.mp same with ⟨middle, left, right⟩ | ⟨middle, left, right⟩
  · cases middle with
    | nil =>
      cases right
      exact .inl ⟨by simpa using left.symm, rfl, rfl⟩
    | cons head middle =>
      cases right
      exact .inr (.inl ⟨middle, left, rfl⟩)
  · cases middle with
    | nil =>
      cases right
      exact .inl ⟨by simpa using left, rfl, rfl⟩
    | cons head middle =>
      cases right
      exact .inr (.inr ⟨middle, left, rfl⟩)

private theorem any_append_cons {test : α → Bool} {before : List α} {first : α} (middle : List α)
    (found : (before ++ [first]).any test = true) : (before ++ first :: middle).any test = true := by
  rw [List.any_append, Bool.or_eq_true] at found ⊢
  rcases found with earlier | here
  · exact .inl earlier
  · exact .inr (by simpa using .inl (by simpa using here))

end Splits

section News

variable {α : Type} [BEq α] {concerns : α → Bool} {items : List α} {item held : α}

/-- The item is new where it stands, and no other that concerns the matter is new behind it. -/
def LastNew (concerns : α → Bool) (items : List α) (item : α) : Prop :=
  ∃ before after, items = before ++ item :: after ∧ before.any (· == item) = false ∧ concerns item = true ∧
    ∀ later ∈ after, concerns later = true → (before ++ [item]).any (· == later) = true

/-- Behind the first item equal to this one, another that concerns the matter is new. -/
def Superseded (concerns : α → Bool) (items : List α) (item : α) : Prop :=
  ∃ before first after other, items = before ++ first :: after ∧ (first == item) = true ∧
    before.any (· == item) = false ∧ other ∈ after ∧ concerns other = true ∧
    (before ++ [first]).any (· == other) = false

theorem LastNew.unique {other : α} (lastNew : LastNew concerns items item) (also : LastNew concerns items other) :
    item = other := by
  obtain ⟨before, after, rfl, fresh, concerned, repeats⟩ := lastNew
  obtain ⟨before', after', same, fresh', concerned', repeats'⟩ := also
  rcases split_cases same with ⟨_, equal, _⟩ | ⟨middle, rfl, rfl⟩ | ⟨middle, rfl, rfl⟩
  · exact equal
  · have repeated := any_append_cons middle (repeats other (by simp) concerned')
    rw [fresh'] at repeated
    cases repeated
  · have repeated := any_append_cons middle (repeats' item (by simp) concerned)
    rw [fresh] at repeated
    cases repeated

variable [EquivBEq α]

/-- The last of the first occurrences that concern the matter is the last one new. -/
private theorem lastNew_of_findRev?
    (respects : ∀ first second : α, (first == second) = true → concerns first = concerns second)
    (found : (firstOccurrences items).findRev? concerns = some item) : LastNew concerns items item := by
  rw [List.findRev?_eq_find?_reverse] at found
  induction items using List.reverseRecOn with
  | nil => cases found
  | append_singleton items last ih =>
    rw [firstOccurrences_concat] at found
    split at found
    next known =>
      rw [any_firstOccurrences] at known
      obtain ⟨before, after, rfl, fresh, concerned, repeats⟩ := ih found
      refine ⟨before, after ++ [last], by simp, fresh, concerned, fun later member concernedLater => ?_⟩
      rcases List.mem_append.mp member with earlier | here
      · exact repeats later earlier concernedLater
      · rw [List.mem_singleton.mp here] at concernedLater ⊢
        obtain ⟨first, present, same⟩ := List.any_eq_true.mp known
        rcases List.mem_append.mp present with early | late
        · exact List.any_eq_true.mpr ⟨first, List.mem_append_left _ early, same⟩
        · rcases List.mem_cons.mp late with rfl | behind
          · exact List.any_eq_true.mpr ⟨first, by simp, same⟩
          · rw [← any_congr same]
            exact repeats first behind (respects first last same ▸ concernedLater)
    next new =>
      rw [any_firstOccurrences] at new
      rw [List.reverse_concat, List.find?_cons] at found
      split at found
      next concerned =>
        cases found
        exact ⟨items, [], rfl, by simpa using new, concerned, nofun⟩
      next other =>
        obtain ⟨before, after, rfl, fresh, concerned, repeats⟩ := ih found
        refine ⟨before, after ++ [last], by simp, fresh, concerned, fun later member concernedLater => ?_⟩
        rcases List.mem_append.mp member with earlier | here
        · exact repeats later earlier concernedLater
        · rw [List.mem_singleton.mp here, other] at concernedLater
          cases concernedLater

/-- What was last new stands for an item exactly if nothing has superseded that. -/
theorem LastNew.beq_iff (respects : ∀ first second : α, (first == second) = true → concerns first = concerns second)
    (lastNew : LastNew concerns items held) (member : item ∈ items) (concerned : concerns item = true) :
    (held == item) = true ↔ ¬ Superseded concerns items item := by
  obtain ⟨before, after, split, fresh, concernedHeld, repeats⟩ := lastNew
  constructor
  · rintro same ⟨before', first, after', other, split', equal, fresh', behind, concernedOther, new⟩
    rcases split_cases (split.symm.trans split') with ⟨rfl, rfl, rfl⟩ | ⟨middle, rfl, rfl⟩ | ⟨middle, rfl, rfl⟩
    · rw [repeats other behind concernedOther] at new
      cases new
    · simp [same] at fresh'
    · have found : first == held := BEq.trans equal (BEq.symm same)
      simp [found] at fresh
  · intro standing
    obtain ⟨first, found⟩ : ∃ first, items.find? (· == item) = some first :=
      Option.isSome_iff_exists.mp (List.find?_isSome.mpr ⟨item, member, BEq.refl item⟩)
    obtain ⟨equal, before', after', split', none⟩ := List.find?_eq_some_iff_append.mp found
    have fresh' : before'.any (· == item) = false := by simpa using none
    rcases split_cases (split.symm.trans split') with ⟨rfl, rfl, rfl⟩ | ⟨middle, rfl, rfl⟩ | ⟨middle, rfl, rfl⟩
    · exact equal
    · have concernedFirst := respects first item equal ▸ concerned
      have repeated := any_append_cons middle (repeats first (by simp) concernedFirst)
      rw [any_congr equal, fresh'] at repeated
      cases repeated
    · refine absurd ⟨before', first, _, held, split', equal, fresh', by simp, concernedHeld, ?_⟩ standing
      refine Bool.eq_false_iff.mpr fun earlier => ?_
      rw [any_append_cons middle earlier] at fresh
      cases fresh

end News

section Kinds

def Directive.variant? : Directive → Option Variant
  | .declared (.variant variant) => some variant
  | _ => none

def Directive.version? : Directive → Option VersionDeclaration
  | .declared (.version version) => some version
  | _ => none

def declaresVariant (name : String) (directive : Directive) : Bool :=
  directive.variant?.any (·.name == name)

def declaresVersion (version : Version) (directive : Directive) : Bool :=
  directive.version?.any (·.version == version)

theorem Declarations.foldl_add {α : Type} (field : Declarations → List α) (part : Directive → Option α)
    (step : ∀ declared declaration,
      field (declared.add declaration) = field declared ++ (part (.declared declaration)).toList)
    (declarations : List Declaration) (declared : Declarations) :
    field (declarations.foldl add declared) = field declared ++ (declarations.map .declared).filterMap part := by
  induction declarations generalizing declared with
  | nil => simp
  | cons declaration rest ih =>
    rw [List.foldl_cons, ih, step, List.append_assoc, List.map_cons, List.filterMap_cons]
    cases part (.declared declaration) <;> rfl

/-- The last part found in a list of directives is the part of the last directive with one. -/
private theorem findRev?_filterMap {α : Type} (part : Directive → Option α) (test : α → Bool)
    (directives : List Directive) :
    (directives.filterMap part).findRev? test =
      (directives.findRev? fun directive => (part directive).any test).bind part := by
  rw [List.findRev?_eq_find?_reverse, List.findRev?_eq_find?_reverse, ← List.filterMap_reverse, List.find?_filterMap]

theorem Grouped.find?_variants {package : String} {declarations : List Declaration} {descriptor : Descriptor}
    (grouped : Grouped package (.ofList declarations) descriptor) (name : String) :
    descriptor.variants.find? name =
      ((declarations.map Directive.declared).findRev? (declaresVariant name)).bind Directive.variant? := by
  have found := grouped.variants name
  have same : (fun variant : Variant => compare name variant.name == .eq) = (·.name == name) := by
    funext variant
    rw [Bool.eq_iff_iff, beq_iff_eq, Std.compare_eq_iff_beq, BEq.comm]
  have listed := Declarations.foldl_add (·.variants) Directive.variant?
    (fun _ declaration => by cases declaration <;> simp [Declarations.add, Directive.variant?]) declarations .none
  rw [Declarations.ofList, listed, same] at found
  rw [found, Declarations.none, List.nil_append, findRev?_filterMap, Option.map_id_fun, id]
  rfl

theorem Grouped.find?_versions {package : String} {declarations : List Declaration} {descriptor : Descriptor}
    (grouped : Grouped package (.ofList declarations) descriptor) (version : Version) :
    descriptor.versions.find? version =
      (((declarations.map Directive.declared).findRev? (declaresVersion version)).bind Directive.version?).map
        (·.allMetadata) := by
  have found := grouped.versions version
  have same : (fun declared : VersionDeclaration => compare version declared.version == .eq) =
      (·.version == version) := by
    funext declared
    rw [Bool.eq_iff_iff, beq_iff_eq, Std.compare_eq_iff_beq, BEq.comm]
  have listed := Declarations.foldl_add (·.versions) Directive.version?
    (fun _ declaration => by cases declaration <;> simp [Declarations.add, Directive.version?]) declarations .none
  rw [Declarations.ofList, listed, same] at found
  rw [found, Declarations.none, List.nil_append, findRev?_filterMap]
  rfl

theorem Directive.beq_cases {first second : Directive} (same : (first == second) = true) :
    (∃ left right, first = .declared left ∧ second = .declared right ∧ (left == right) = true) ∨
    (∃ kind number program, first = .custom kind number program) ∧
      ∃ kind number program, second = .custom kind number program := by
  cases first with
  | declared left =>
    cases second with
    | declared right => exact .inl ⟨left, right, rfl, rfl, same⟩
    | custom => cases same
  | custom =>
    cases second with
    | declared => cases same
    | custom => exact .inr ⟨⟨_, _, _, rfl⟩, _, _, _, rfl⟩

private theorem declaresVariant_congr (name : String) (first second : Directive) (same : (first == second) = true) :
    declaresVariant name first = declaresVariant name second := by
  unfold declaresVariant
  rcases Directive.beq_cases same with ⟨left, right, rfl, rfl, equal⟩ | ⟨⟨_, _, _, rfl⟩, _, _, _, rfl⟩
  · cases left <;> cases right <;> first | rfl | cases equal | skip
    next left right =>
      have named : left.name = right.name := eq_of_beq (Bool.and_eq_true_iff.mp equal).1
      simp [Directive.variant?, named]
  · rfl

private theorem declaresVersion_congr (version : Version) (first second : Directive) (same : (first == second) = true) :
    declaresVersion version first = declaresVersion version second := by
  unfold declaresVersion
  rcases Directive.beq_cases same with ⟨left, right, rfl, rfl, equal⟩ | ⟨⟨_, _, _, rfl⟩, _, _, _, rfl⟩
  · cases left <;> cases right <;> first | rfl | cases equal | skip
    next left right =>
      have matching : (left.version == right.version) = true := (Bool.and_eq_true_iff.mp equal).1
      exact BEq.congr_left matching
  · rfl

private theorem variant_of_declares {name : String} {directive : Directive}
    (declares : declaresVariant name directive = true) :
    ∃ variant, directive = .declared (.variant variant) := by
  cases directive with
  | custom => cases declares
  | declared declaration =>
    cases declaration <;> first | exact ⟨_, rfl⟩ | cases declares

private theorem version_of_declares {version : Version} {directive : Directive}
    (declares : declaresVersion version directive = true) :
    ∃ declared, directive = .declared (.version declared) := by
  cases directive with
  | custom => cases declares
  | declared declaration =>
    cases declaration <;> first | exact ⟨_, rfl⟩ | cases declares

theorem VersionDeclaration.allMetadata_eq_of_beq {left right : VersionDeclaration} (same : (left == right) = true) :
    left.allMetadata = right.allMetadata := by
  obtain ⟨_, parts⟩ := Bool.and_eq_true_iff.mp same
  obtain ⟨checksums, listed⟩ := Bool.and_eq_true_iff.mp parts
  have entries : left.metadata.entries = right.metadata.entries := eq_of_beq listed
  have metadata : left.metadata = right.metadata := by
    cases left' : left.metadata
    cases right' : right.metadata
    simpa [left', right'] using entries
  rw [allMetadata, allMetadata, eq_of_beq checksums, metadata]

/-- Declarations that differ can give the same metadata, as a checksum counts as metadata
under its own key. -/
example (version : Version) :
    VersionDeclaration.allMetadata ⟨version, some "abc", .empty⟩ =
      VersionDeclaration.allMetadata ⟨version, none, OrderedMap.empty.insert checksumKey "abc"⟩ := rfl

end Kinds

namespace Builder

def inherited (builder : Builder) : List Directive :=
  builder.bases.reverse.flatMap (·.actions)

theorem exists_declarations {directives : List Directive}
    (builtIn : ∀ directive ∈ directives, ∃ declaration, directive = .declared declaration) :
    ∃ declarations : List Declaration, directives = declarations.map .declared := by
  induction directives with
  | nil => exact ⟨[], rfl⟩
  | cons first rest ih =>
    obtain ⟨declaration, rfl⟩ := builtIn first List.mem_cons_self
    obtain ⟨declarations, rfl⟩ := ih fun directive member => builtIn directive (List.mem_cons_of_mem _ member)
    exact ⟨declaration :: declarations, rfl⟩

/-- What holds after some calls, where `call` is the last that concerns the matter and
comes behind those in `earlier`. -/
structure Holds (concerns : Directive → Bool) (calls earlier : List Directive) (call held : Directive) : Prop where
  lastNew : LastNew concerns calls held
  equal : (held == call) = true ↔ ¬ Superseded concerns calls call
  fresh : earlier.any (· == call) = false → held = call

private theorem exists_holds {builder : Builder} {concerns : Directive → Bool} {earlier later : List Directive}
    {call : Directive} (respects : ∀ first second, (first == second) = true → concerns first = concerns second)
    (split : builder.pending = earlier ++ call :: later) (concerned : concerns call = true)
    (last : later.any concerns = false) :
    ∃ held, builder.finish.actions.findRev? concerns = some held ∧
      Holds concerns (builder.inherited ++ builder.pending) (builder.inherited ++ earlier) call held := by
  have kept : builder.finish.actions = firstOccurrences (builder.inherited ++ builder.pending) := rfl
  have whole : builder.inherited ++ builder.pending = builder.inherited ++ earlier ++ call :: later := by
    rw [split, List.append_assoc]
  have member : call ∈ builder.inherited ++ builder.pending := by simp [split]
  have present : builder.finish.actions.any (· == call) = true := by
    rw [kept, any_firstOccurrences]
    exact List.any_eq_true.mpr ⟨call, member, BEq.refl call⟩
  obtain ⟨first, inside, same⟩ := List.any_eq_true.mp present
  have found : (builder.finish.actions.reverse.find? concerns).isSome :=
    List.find?_isSome.mpr ⟨first, List.mem_reverse.mpr inside, respects first call same ▸ concerned⟩
  obtain ⟨held, found⟩ := Option.isSome_iff_exists.mp found
  rw [← List.findRev?_eq_find?_reverse] at found
  have lastNew := lastNew_of_findRev? respects found
  refine ⟨held, found, lastNew, lastNew.beq_iff respects member concerned, fun fresh => ?_⟩
  refine lastNew.unique ⟨_, later, whole, fresh, concerned, fun other behind concernedOther => ?_⟩
  rw [List.any_eq_false] at last
  exact absurd concernedOther (last other behind)

/-- What a package holds of a variant or a version is what was last declared anew, by a
base or by the package. That is the package's own last declaration, unless this repeats an
earlier one and another was made for the first time in between. Of a version the metadata is
held, so it is that of the last declaration wherever nothing has superseded that, and can be
where something has. -/
theorem last_new_declaration_holds {builder : Builder} {package : Package}
    (builtIn : ∀ action ∈ builder.inherited ++ builder.pending, ∃ declaration, action = .declared declaration)
    (run : builder.build = .ok package) :
    (∀ earlier variant later, builder.pending = earlier ++ .declared (.variant variant) :: later →
      later.any (declaresVariant variant.name) = false →
      ∃ held, package.descriptor.variants.find? variant.name = some held ∧
        Holds (declaresVariant variant.name) (builder.inherited ++ builder.pending) (builder.inherited ++ earlier)
          (.declared (.variant variant)) (.declared (.variant held))) ∧
    (∀ earlier version later, builder.pending = earlier ++ .declared (.version version) :: later →
      later.any (declaresVersion version.version) = false →
      ∃ held : VersionDeclaration, package.descriptor.versions.find? version.version = some held.allMetadata ∧
        Holds (declaresVersion version.version) (builder.inherited ++ builder.pending) (builder.inherited ++ earlier)
          (.declared (.version version)) (.declared (.version held)) ∧
        (¬ Superseded (declaresVersion version.version) (builder.inherited ++ builder.pending)
            (.declared (.version version)) →
          package.descriptor.versions.find? version.version = some version.allMetadata)) := by
  obtain ⟨declarations, declared⟩ := @exists_declarations builder.finish.actions fun action member =>
    builtIn action ((firstOccurrences_sublist _).mem member)
  have grouped := build_groups declared run
  constructor
  · intro earlier variant later split last
    have concerned : declaresVariant variant.name (.declared (.variant variant)) = true := by
      simp [declaresVariant, Directive.variant?]
    obtain ⟨held, found, holds⟩ := exists_holds (declaresVariant_congr variant.name) split concerned last
    obtain ⟨held, rfl⟩ := variant_of_declares (List.find?_some (List.findRev?_eq_find?_reverse ▸ found))
    refine ⟨held, ?_, holds⟩
    rw [grouped.find?_variants, ← declared, found]
    rfl
  · intro earlier version later split last
    have concerned : declaresVersion version.version (.declared (.version version)) = true := by
      simp [declaresVersion, Directive.version?]
    obtain ⟨held, found, holds⟩ := exists_holds (declaresVersion_congr version.version) split concerned last
    obtain ⟨held, rfl⟩ := version_of_declares (List.find?_some (List.findRev?_eq_find?_reverse ▸ found))
    have stored : package.descriptor.versions.find? version.version = some held.allMetadata := by
      rw [grouped.find?_versions, ← declared, found]
      rfl
    refine ⟨held, stored, holds, fun standing => ?_⟩
    rw [stored, VersionDeclaration.allMetadata_eq_of_beq (holds.equal.mpr standing)]

def mpiSwitch (on : Bool) : Variant :=
  ⟨"mpi", .switch on, "", .switch, false, none⟩

/-- A base declares the switch as off, the package as on and then as off again. -/
def switchedBack : Builder :=
  { Builder.new "app" .standard with
    bases := [⟨"base", [], [.declared (.variant (mpiSwitch false))]⟩]
    pending := [.declared (.variant (mpiSwitch true)), .declared (.variant (mpiSwitch false))] }

private theorem switchedBack_builtIn :
    ∀ action ∈ switchedBack.inherited ++ switchedBack.pending, ∃ declaration, action = .declared declaration := by
  have calls : switchedBack.inherited ++ switchedBack.pending =
      [Declaration.variant (mpiSwitch false), .variant (mpiSwitch true), .variant (mpiSwitch false)].map .declared := rfl
  intro action member
  rw [calls] at member
  obtain ⟨declaration, _, rfl⟩ := List.mem_map.mp member
  exact ⟨declaration, rfl⟩

theorem switchedBack_holds :
    ∃ package held, switchedBack.build = .ok package ∧ package.descriptor.variants.find? "mpi" = some held ∧
      Holds (declaresVariant "mpi") (switchedBack.inherited ++ switchedBack.pending)
        (switchedBack.inherited ++ [.declared (.variant (mpiSwitch true))])
        (.declared (.variant (mpiSwitch false))) (.declared (.variant held)) := by
  obtain ⟨package, run⟩ := isOk_iff.mp (show switchedBack.build.isOk = true by decide +kernel)
  obtain ⟨held, found, holds⟩ :=
    (last_new_declaration_holds switchedBack_builtIn run).1 [.declared (.variant (mpiSwitch true))]
      (mpiSwitch false) [] rfl rfl
  exact ⟨package, held, run, found, holds⟩

theorem last_declaration_need_not_hold :
    ¬ ∀ (builder : Builder) (package : Package),
      (∀ action ∈ builder.inherited ++ builder.pending, ∃ declaration, action = .declared declaration) →
      builder.build = .ok package →
      ∀ earlier variant later, builder.pending = earlier ++ .declared (.variant variant) :: later →
        later.any (declaresVariant variant.name) = false →
        ∃ held, package.descriptor.variants.find? variant.name = some held ∧ (held == variant) = true := by
  intro claimed
  have checked : (do
      let package ← switchedBack.build
      return (package.descriptor.variants.find? "mpi").map Variant.default).toOption =
        some (some (VariantValue.switch true)) := by decide +kernel
  obtain ⟨package, run, result⟩ := bind_eq_ok.mp (toOption_eq_some.mp checked)
  obtain ⟨held, found, same⟩ := claimed switchedBack package switchedBack_builtIn run
    [.declared (.variant (mpiSwitch true))] (mpiSwitch false) [] rfl rfl
  have stored : (package.descriptor.variants.find? "mpi").map Variant.default = some (.switch true) :=
    Except.ok.inj result
  rw [show package.descriptor.variants.find? "mpi" = some held from found, Option.map_some] at stored
  have equal : held.default = .switch false :=
    eq_of_beq (Bool.and_eq_true_iff.mp (Bool.and_eq_true_iff.mp same).2).1
  rw [equal] at stored
  cases stored

end Builder

end PackageRecipes
