import PackageRecipes.Proofs.ReadClauses
import PackageRecipes.Proofs.SpelledText

/-! The order in which an expression says what it says does not matter, nor does the white
space between. Constraints on one package are taken in by parts of a node that have
nothing to do with one another, and clauses on dependencies narrow each other. -/

namespace PackageRecipes

def Item.IsConstraint : Item → Prop
  | .versions _ | .variant _ | .compiler _ => True
  | .word _ | .stray _ => False

private theorem Part.isConstraint_item (part : Part) : part.item.IsConstraint := by
  cases part <;> trivial

namespace Node

namespace Draft

variable {draft middle after : Draft} {first second : Item}

/-- Constraints that are taken in one after the other may change places. -/
private theorem addItem_swap (one : first.IsConstraint) (other : second.IsConstraint)
    (early : draft.addItem first = .ok middle)
    (late : middle.addItem second = .ok after) :
    ∃ middle', draft.addItem second = .ok middle' ∧ middle'.addItem first = .ok after := by
  -- Each kind writes a part of its own and is taken in once. Variants can be many, one to a name.
  cases first with
  | word | stray => cases one
  | versions =>
    obtain ⟨new, list, found, rfl⟩ := addItem_versions_eq_ok.mp early
    cases second with
    | word | stray => cases other
    | versions =>
      obtain ⟨repeated, _⟩ := addItem_versions_eq_ok.mp late
      cases repeated
    | variant =>
      obtain ⟨name, value, set, apart, rfl⟩ := addItem_variant_eq_ok.mp late
      exact ⟨_, addItem_variant_eq_ok.mpr ⟨name, value, set, apart, rfl⟩,
        addItem_versions_eq_ok.mpr ⟨new, list, found, rfl⟩⟩
    | compiler =>
      obtain ⟨first, compiler, chosen, rfl⟩ := addItem_compiler_eq_ok.mp late
      exact ⟨_, addItem_compiler_eq_ok.mpr ⟨first, compiler, chosen, rfl⟩,
        addItem_versions_eq_ok.mpr ⟨new, list, found, rfl⟩⟩
  | variant =>
    obtain ⟨name, value, set, apart, rfl⟩ := addItem_variant_eq_ok.mp early
    cases second with
    | word | stray => cases other
    | versions =>
      obtain ⟨new, list, found, rfl⟩ := addItem_versions_eq_ok.mp late
      exact ⟨_, addItem_versions_eq_ok.mpr ⟨new, list, found, rfl⟩,
        addItem_variant_eq_ok.mpr ⟨name, value, set, apart, rfl⟩⟩
    | variant =>
      obtain ⟨name', value', set', apart', rfl⟩ := addItem_variant_eq_ok.mp late
      obtain ⟨differ, apart'⟩ := (OrderedMap.contains_insert_eq_false_iff _).mp apart'
      refine ⟨_, addItem_variant_eq_ok.mpr ⟨name', value', set', apart', rfl⟩, addItem_variant_eq_ok.mpr
        ⟨name, value, set, (OrderedMap.contains_insert_eq_false_iff _).mpr ⟨differ.symm, apart⟩, ?_⟩⟩
      rw [OrderedMap.insert_comm _ fun same => differ (Std.LawfulEqOrd.eq_of_compare same)]
    | compiler =>
      obtain ⟨first, compiler, chosen, rfl⟩ := addItem_compiler_eq_ok.mp late
      exact ⟨_, addItem_compiler_eq_ok.mpr ⟨first, compiler, chosen, rfl⟩,
        addItem_variant_eq_ok.mpr ⟨name, value, set, apart, rfl⟩⟩
  | compiler =>
    obtain ⟨first, compiler, chosen, rfl⟩ := addItem_compiler_eq_ok.mp early
    cases second with
    | word | stray => cases other
    | versions =>
      obtain ⟨new, list, found, rfl⟩ := addItem_versions_eq_ok.mp late
      exact ⟨_, addItem_versions_eq_ok.mpr ⟨new, list, found, rfl⟩,
        addItem_compiler_eq_ok.mpr ⟨first, compiler, chosen, rfl⟩⟩
    | variant =>
      obtain ⟨name, value, set, apart, rfl⟩ := addItem_variant_eq_ok.mp late
      exact ⟨_, addItem_variant_eq_ok.mpr ⟨name, value, set, apart, rfl⟩,
        addItem_compiler_eq_ok.mpr ⟨first, compiler, chosen, rfl⟩⟩
    | compiler =>
      obtain ⟨repeated, _⟩ := addItem_compiler_eq_ok.mp late
      cases repeated

private theorem toOption_addItem_comm (draft : Draft) (one : first.IsConstraint) (other : second.IsConstraint) :
    (draft.addItem first).toOption.bind (fun next => (next.addItem second).toOption) =
      (draft.addItem second).toOption.bind fun next => (next.addItem first).toOption := by
  refine Option.ext fun after => ?_
  simp only [Option.bind_eq_some_iff, toOption_eq_some]
  constructor
  · rintro ⟨_, early, late⟩
    exact addItem_swap one other early late
  · rintro ⟨_, early, late⟩
    exact addItem_swap other one early late

end Draft

theorem toOption_ofItems_perm (front : List Item) {parts others : List Part} (perm : parts.Perm others) :
    (ofItems (front ++ parts.map Part.item)).toOption = (ofItems (front ++ others.map Part.item)).toOption := by
  have comm : ∀ (draft : Draft) (one other : Part),
      (draft.addItem one.item).toOption.bind (fun next => (next.addItem other.item).toOption) =
        (draft.addItem other.item).toOption.bind fun next => (next.addItem one.item).toOption :=
    fun draft one other => draft.toOption_addItem_comm one.isConstraint_item other.isConstraint_item
  rw [ofItems, ofItems, toOption_map, toOption_map, toOption_foldlM, toOption_foldlM]
  rw [List.foldlM_append, List.foldlM_append]
  refine congrArg _ (Option.bind_congr fun draft _ => ?_)
  rw [List.foldlM_map, List.foldlM_map]
  exact foldlM_perm perm comm draft

end Node

/-- What is said about one package, under its name if it has one. -/
structure Clause where
  name : Option String
  parts : List Part

namespace Clause

variable {clause other : Clause}

def items (clause : Clause) : List Item :=
  clause.name.toList.map .word ++ clause.parts.map Part.item

def tokens (clause : Clause) : List Token :=
  clause.name.toList.map .name ++ clause.parts.map .part

structure Reordered (clause other : Clause) : Prop where
  name : clause.name = other.name
  parts : clause.parts.Perm other.parts

private theorem item_tokens (clause : Clause) : clause.tokens.map Token.item = clause.items.map some := by
  simp only [tokens, items, List.map_append, List.map_map]
  rfl

private theorem Reordered.toOption_ofItems (reordered : clause.Reordered other) :
    (Node.ofItems clause.items).toOption = (Node.ofItems other.items).toOption := by
  rw [items, items, ← reordered.name]
  exact Node.toOption_ofItems_perm _ reordered.parts

theorem Reordered.readClause (reordered : clause.Reordered other) :
    Spec.readClause clause.items = Spec.readClause other.items := by
  rw [Spec.readClause, Spec.readClause, reordered.toOption_ofItems]

end Clause

/-- What an expression says: about a package and, in one clause each, about dependencies. -/
structure Outline where
  package : Clause
  dependencies : List Clause

namespace Outline

def tokens (outline : Outline) : List Token :=
  outline.package.tokens ++ outline.dependencies.flatMap fun clause => .clause :: clause.tokens

structure Reordered (outline other : Outline) : Prop where
  package : outline.package.Reordered other.package
  dependencies : Rearranged Clause.Reordered outline.dependencies other.dependencies

private theorem clauses_tokens (outline : Outline) :
    Item.clauses (outline.tokens.map Token.item) = (outline.package.items, outline.dependencies.map Clause.items) := by
  have behind : (outline.dependencies.flatMap fun clause => Token.clause :: clause.tokens).map Token.item =
      (outline.dependencies.map Clause.items).flatMap fun items => none :: items.map some := by
    simp only [List.map_flatMap, List.flatMap_map, List.map_cons, Clause.item_tokens, Token.item]
  rw [tokens, List.map_append, Clause.item_tokens, behind, Item.clauses_append, Item.clauses_flatMap, List.append_nil]

end Outline

namespace Spec
open Item

variable {outline other : Outline} {expression spelling : String}

private theorem toOption_parse_spelled (spells : Spells outline.tokens expression.toList) :
    (parse expression).toOption = ofClauses outline.package.items (outline.dependencies.map Clause.items) := by
  rw [toOption_parse, spells.scan_eq, outline.clauses_tokens]

private theorem sameOutcome_parse (reordered : outline.Reordered other)
    (spells : Spells outline.tokens expression.toList)
    (respells : Spells other.tokens spelling.toList) : SameOutcome (parse expression) (parse spelling) := by
  have read : ∀ items ∈ outline.dependencies.map Clause.items, ∀ item ∈ items, item.IsRead := by
    intro items member
    refine @Item.isRead_of_mem_clauses expression.toList items (.inr ?_)
    rwa [spells.scan_eq, outline.clauses_tokens]
  have clauses : Option.Rel List.Perm ((outline.dependencies.map Clause.items).mapM readClause)
      ((other.dependencies.map Clause.items).mapM readClause) := by
    rw [List.mapM_map, List.mapM_map]
    exact reordered.dependencies.rel_mapM fun same => same.readClause
  unfold SameOutcome
  rw [toOption_parse_spelled spells, toOption_parse_spelled respells, ofClauses, ofClauses,
    reordered.package.toOption_ofItems]
  refine rel_bind ((rel_equivalence eq_equivalence).refl _) fun {node _} _ _ same => rel_bind clauses ?_
  intro found again run _ perm
  obtain rfl := same
  exact rel_map_dependencies node (mergeClauses_perm perm normal_empty (normal_of_mapM_readClause read run))

/-- The order of items in an expression does not matter, nor does the white space: either no
spelling is an expression, or all are equal ones and the same key. -/
theorem item_order_irrelevant (reordered : outline.Reordered other) (spells : Spells outline.tokens expression.toList)
    (respells : Spells other.tokens spelling.toList) :
    SameOutcome (parse expression) (parse spelling) ∧
      ∀ owner, SameOutcome (anonymous expression owner) (anonymous spelling owner) ∧
        ∀ key again, anonymous expression owner = .ok key → anonymous spelling owner = .ok again →
          compare key again = .eq := by
  have same := sameOutcome_parse reordered spells respells
  refine ⟨same, fun owner => ?_⟩
  have conditions := sameOutcome_anonymous same owner
  refine ⟨conditions, fun key again found respelled => Std.LawfulBEqOrd.compare_eq_iff_beq.mpr ?_⟩
  rw [SameOutcome, toOption_eq_some.mpr found, toOption_eq_some.mpr respelled, Option.rel_some_some] at conditions
  exact conditions

/-- Both clauses narrow one dependency, from either side. -/
theorem shuffled_items_share_key :
    ∃ key again, anonymous "+pic @2: ^zlib @1: ^zlib @:2" "app" = .ok key ∧
      anonymous "\t@ 2:\n+pic ^ zlib @:2 ^zlib  @1: " "app" = .ok again ∧ compare key again = .eq := by
  have pic : Part.Writes (.switch true "pic") ('+' :: "pic".toList) :=
    .switch isGap_nil ⟨by decide, List.all_eq_true.mp (by decide)⟩
  have zlib : Token.Writes (.name "zlib") "zlib".toList := .name ⟨by decide, List.all_eq_true.mp (by decide)⟩
  have newest : ∀ {gap}, IsGap gap → Part.Writes (.versions "2:") ('@' :: (gap ++ "2:".toList)) :=
    fun blank => .versions blank (by decide) (List.all_eq_true.mp (by decide))
  have least : Part.Writes (.versions "1:") ('@' :: "1:".toList) :=
    .versions isGap_nil (by decide) (List.all_eq_true.mp (by decide))
  have most : Part.Writes (.versions ":2") ('@' :: ":2".toList) :=
    .versions isGap_nil (by decide) (List.all_eq_true.mp (by decide))
  have blank : IsGap [' '] := List.forall_mem_singleton.mpr rfl
  have spells := @Spells.spaced
    [⟨[], .part (.switch true "pic"), '+' :: "pic".toList⟩, ⟨[' '], .part (.versions "2:"), '@' :: "2:".toList⟩,
      ⟨[' '], .clause, ['^']⟩, ⟨[], .name "zlib", "zlib".toList⟩, ⟨[' '], .part (.versions "1:"), '@' :: "1:".toList⟩,
      ⟨[' '], .clause, ['^']⟩, ⟨[], .name "zlib", "zlib".toList⟩, ⟨[' '], .part (.versions ":2"), '@' :: ":2".toList⟩]
    [] isGap_nil (by
      simp only [List.forall_mem_cons]
      exact ⟨⟨isGap_nil, .part pic⟩, ⟨blank, .part (newest isGap_nil)⟩, ⟨blank, .clause⟩, ⟨isGap_nil, zlib⟩,
        ⟨blank, .part least⟩, ⟨blank, .clause⟩, ⟨isGap_nil, zlib⟩, ⟨blank, .part most⟩, nofun⟩) (by simp)
  have tab : IsGap ['\t'] := List.forall_mem_singleton.mpr rfl
  have line : IsGap ['\n'] := List.forall_mem_singleton.mpr rfl
  have wide : IsGap [' ', ' '] := List.forall_mem_cons.mpr ⟨rfl, blank⟩
  have respells := @Spells.spaced
    [⟨['\t'], .part (.versions "2:"), '@' :: ' ' :: "2:".toList⟩,
      ⟨['\n'], .part (.switch true "pic"), '+' :: "pic".toList⟩,
      ⟨[' '], .clause, ['^']⟩, ⟨[' '], .name "zlib", "zlib".toList⟩, ⟨[' '], .part (.versions ":2"), '@' :: ":2".toList⟩,
      ⟨[' '], .clause, ['^']⟩, ⟨[], .name "zlib", "zlib".toList⟩,
      ⟨[' ', ' '], .part (.versions "1:"), '@' :: "1:".toList⟩]
    [' '] blank (by
      simp only [List.forall_mem_cons]
      exact ⟨⟨tab, .part (newest blank)⟩, ⟨line, .part pic⟩, ⟨blank, .clause⟩, ⟨blank, zlib⟩, ⟨blank, .part most⟩,
        ⟨blank, .clause⟩, ⟨isGap_nil, zlib⟩, ⟨wide, .part least⟩, nofun⟩) (by simp)
  obtain ⟨_, keys⟩ := @item_order_irrelevant ⟨⟨none, [.switch true "pic", .versions "2:"]⟩,
      [⟨some "zlib", [.versions "1:"]⟩, ⟨some "zlib", [.versions ":2"]⟩]⟩
    ⟨⟨none, [.versions "2:", .switch true "pic"]⟩,
      [⟨some "zlib", [.versions ":2"]⟩, ⟨some "zlib", [.versions "1:"]⟩]⟩
    "+pic @2: ^zlib @1: ^zlib @:2" "\t@ 2:\n+pic ^ zlib @:2 ^zlib  @1: "
    ⟨⟨rfl, .swap _ _ _⟩, _, List.forall₂_same.mpr fun _ _ => ⟨rfl, .refl _⟩, .swap _ _ _⟩ spells respells
  obtain ⟨key, found⟩ : ∃ key, anonymous "+pic @2: ^zlib @1: ^zlib @:2" "app" = .ok key :=
    isOk_iff.mp (by decide +kernel)
  obtain ⟨again, respelled⟩ : ∃ again, anonymous "\t@ 2:\n+pic ^ zlib @:2 ^zlib  @1: " "app" = .ok again :=
    isOk_iff.mp (by decide +kernel)
  exact ⟨key, again, found, respelled, (keys "app").2 key again found respelled⟩

end Spec

end PackageRecipes
