import PackageRecipes.Proofs.DescriptorWrites
import PackageRecipes.Proofs.DistinctTexts
import PackageRecipes.Proofs.ReadClauses

/-! Spellings of one condition. An expression about another package says the same as a
clause on it, although the reader merges the clauses into one another from the left and
anchoring merges those behind the first into it all at once. An expression without a name
says the same behind the name of its owner. -/

namespace PackageRecipes

namespace Node.Draft

variable {draft after : Draft} {item : Item} {items : List Item}

def behind (name : String) (draft : Draft) : Draft :=
  ⟨{ draft.node with name := some name }, draft.hasVersions, false⟩

private theorem named_of_addItem (named : draft.node.name ≠ none) (run : draft.addItem item = .ok after) :
    after.node.name ≠ none := by
  cases item with
  | versions =>
    obtain ⟨_, _, _, rfl⟩ := addItem_versions_eq_ok.mp run
    exact named
  | variant =>
    obtain ⟨_, _, _, _, rfl⟩ := addItem_variant_eq_ok.mp run
    exact named
  | compiler =>
    obtain ⟨_, _, _, rfl⟩ := addItem_compiler_eq_ok.mp run
    exact named
  | word name =>
    obtain ⟨_, rfl⟩ := addItem_word_eq_ok.mp run
    exact Option.some_ne_none name
  | stray => cases run

private theorem addItem_behind (name : String) (unnamed : after.node.name = none)
    (run : draft.addItem item = .ok after) :
    (draft.behind name).addItem item = .ok (after.behind name) := by
  cases item with
  | versions =>
    obtain ⟨first, versions, found, rfl⟩ := addItem_versions_eq_ok.mp run
    exact addItem_versions_eq_ok.mpr ⟨first, versions, found, rfl⟩
  | variant =>
    obtain ⟨variant, value, found, first, rfl⟩ := addItem_variant_eq_ok.mp run
    exact addItem_variant_eq_ok.mpr ⟨variant, value, found, first, rfl⟩
  | compiler =>
    obtain ⟨first, compiler, found, rfl⟩ := addItem_compiler_eq_ok.mp run
    exact addItem_compiler_eq_ok.mpr ⟨first, compiler, found, rfl⟩
  | word =>
    obtain ⟨_, rfl⟩ := addItem_word_eq_ok.mp run
    cases unnamed
  | stray => cases run

/-- Items that leave a node without a name do the same behind a name. -/
private theorem foldlM_behind (name : String) (unnamed : after.node.name = none)
    (run : items.foldlM addItem draft = .ok after) :
    items.foldlM addItem (draft.behind name) = .ok (after.behind name) := by
  induction items generalizing draft with
  | nil =>
    cases run
    rfl
  | cons item rest ih =>
    rw [List.foldlM_cons, bind_eq_ok] at run
    obtain ⟨next, first, run⟩ := run
    have unnamedNext : next.node.name = none := by
      by_contra named
      exact foldlM_preserves (fun draft : Draft => draft.node.name ≠ none)
        (fun _ _ _ _ named run => named_of_addItem named run) named run unnamed
    rw [List.foldlM_cons, addItem_behind name unnamedNext first]
    exact ih run

end Node.Draft

private theorem Node.ofItems_behind (name : String) {items : List Item} {node : Node} (unnamed : node.name = none)
    (run : ofItems items = .ok node) : ofItems (.word name :: items) = .ok { node with name := some name } := by
  obtain ⟨draft, items, rfl⟩ := map_eq_ok.mp run
  exact map_eq_ok.mpr ⟨draft.behind name, Draft.foldlM_behind name unnamed items, rfl⟩

namespace Spec

variable {owner expression : String} {spec : Spec}

private theorem ofClauses_eq_some_iff {first : List Item} {others : List (List Item)} :
    ofClauses first others = some spec ↔ Node.ofItems first = .ok spec.node ∧
      ∃ clauses, others.mapM readClause = some clauses ∧ mergeClauses .empty clauses = some spec.dependencies := by
  simp only [ofClauses, Option.bind_eq_some_iff, Option.map_eq_some_iff, toOption_eq_some]
  constructor
  · rintro ⟨node, root, clauses, run, dependencies, merged, rfl⟩
    exact ⟨root, clauses, run, merged⟩
  · rintro ⟨root, clauses, run, merged⟩
    exact ⟨spec.node, root, clauses, run, spec.dependencies, merged, rfl⟩

/-- Anchoring merges all clauses of an expression about another package into one on it. -/
theorem toOption_anchor {name : String} (named : spec.node.name = some name) (other : name ≠ owner) :
    (spec.anchor owner).toOption = (mergeDependencies (onlyDependency (name, spec.node)) spec.dependencies).map
      (⟨(Spec.named owner).node, ·⟩) := by
  refine Option.ext fun anchored => ?_
  rw [toOption_eq_some, anchor_eq_ok_iff named other, Option.map_eq_some_iff]
  simp only [mergeDependencies, toOption_eq_some]
  rfl

/-- Clauses alone are about dependencies of the owner. -/
private theorem bind_anchor_unconstrained (owner : String) (dependencies : Option (OrderedMap String Node)) :
    ((dependencies.map (⟨.unconstrained, ·⟩)).bind fun spec : Spec => (spec.anchor owner).toOption) =
      dependencies.map (⟨(Spec.named owner).node, ·⟩) := by
  cases dependencies <;> rfl

/-- Behind a `^` the package becomes the first clause, and those behind it follow. -/
private theorem toOption_parse_clause {clause : String × Node} {clauses : List (String × Node)}
    (first : readClause (Item.clauses (Item.scan expression.toList)).1 = some clause)
    (others : (Item.clauses (Item.scan expression.toList)).2.mapM readClause = some clauses) :
    (parse ("^" ++ expression)).toOption = (mergeClauses (onlyDependency clause) clauses).map (⟨.unconstrained, ·⟩) := by
  have scanned : Item.scan ("^" ++ expression).toList = none :: Item.scan expression.toList := by
    rw [String.toList_append]
    exact Item.scan_clause expression.toList
  have read : List.mapM readClause (Item.clauses (none :: Item.scan expression.toList)).2 = some (clause :: clauses) := by
    rw [Item.clauses, List.mapM_cons, first, others]
    rfl
  rw [toOption_parse, scanned, ofClauses, read]
  rfl

/-- A clause on another package is the condition that the expression is by itself. -/
private theorem sameOutcome_clause {name : String} (read : parse expression = .ok spec) (named : spec.name = some name)
    (other : name ≠ owner) : SameOutcome (anonymous ("^" ++ expression) owner) (anonymous expression owner) := by
  have whole := toOption_parse expression
  rw [toOption_eq_some.mpr read, eq_comm, ofClauses_eq_some_iff] at whole
  obtain ⟨root, clauses, run, merged⟩ := whole
  have first : readClause (Item.clauses (Item.scan expression.toList)).1 = some (name, spec.node) :=
    readClause_eq_some_iff.mpr ⟨root, named⟩
  have normal := Node.ownerInvariant_normal.toReadInvariant.ofItems (Item.isRead_of_mem_clauses (.inl rfl)) root
  have normalClauses := normal_of_mapM_readClause (fun _ member => Item.isRead_of_mem_clauses (.inr member)) run
  have together := mergeClauses_assoc (@normal_onlyDependency (name, spec.node) normal) normalClauses merged
  unfold SameOutcome
  rw [toOption_anonymous, toOption_parse_clause first run, bind_anchor_unconstrained, toOption_anonymous,
    toOption_eq_some.mpr read, Option.bind_some, toOption_anchor named other]
  exact rel_map_dependencies _ together

/-- An expression without a name is the same condition behind the name of its owner. -/
private theorem exists_key_behind_owner (valid : isIdentifier owner = true) (read : parse expression = .ok spec)
    (unnamed : spec.name = none) :
    ∃ key, anonymous expression owner = .ok key ∧ anonymous (owner ++ " " ++ expression) owner = .ok key := by
  have scanned : Item.scan (owner ++ " " ++ expression).toList = some (.word owner) :: Item.scan expression.toList := by
    have word := Item.scansAs_word (isWord_of_isIdentifier valid) (' ' :: expression.toList) (by rintro _ ⟨⟩; decide)
    rw [String.toList_append, String.toList_append, List.append_assoc]
    exact word.trans (congrArg _ (Item.scan_blank _))
  have whole := toOption_parse expression
  rw [toOption_eq_some.mpr read, eq_comm, ofClauses_eq_some_iff] at whole
  obtain ⟨root, others⟩ := whole
  have again : parse (owner ++ " " ++ expression) = .ok { spec with node := { spec.node with name := some owner } } := by
    rw [← toOption_eq_some, toOption_parse, scanned, Item.clauses, ofClauses_eq_some_iff]
    exact ⟨Node.ofItems_behind owner unnamed root, others⟩
  refine ⟨{ spec with node := { spec.node with name := some owner } }, ?_, ?_⟩
  · rw [← toOption_eq_some, toOption_anonymous, toOption_eq_some.mpr read, Option.bind_some, anchor,
      show spec.node.name = none from unnamed]
    rfl
  · rw [← toOption_eq_some, toOption_anonymous, toOption_eq_some.mpr again, Option.bind_some, anchor]
    simp [Except.toOption]

/-- Conditions that say the same have the same key, also where one of them fails, and every
key has the name of its owner. -/
theorem equivalent_conditions_share_key (valid : isIdentifier owner = true) (read : parse expression = .ok spec) :
    (∀ name, spec.name = some name → name ≠ owner →
      SameOutcome (anonymous ("^" ++ expression) owner) (anonymous expression owner)) ∧
    (spec.name = none →
      ∃ key, anonymous expression owner = .ok key ∧ anonymous (owner ++ " " ++ expression) owner = .ok key) ∧
    ∀ text key, anonymous text owner = .ok key → key.name = some owner := by
  refine ⟨fun name named other => sameOutcome_clause read named other, exists_key_behind_owner valid read, ?_⟩
  intro text key run
  rw [← toOption_eq_some, toOption_anonymous] at run
  obtain ⟨_, _, anchored⟩ := Option.bind_eq_some_iff.mp run
  exact Spec.name_of_anchor (toOption_eq_some.mp anchored)

/-- In the first condition a clause repeats the package; the second one has no name. -/
theorem repeated_clause_shares_key :
    (anonymous "^zlib@1.2: +pic ^mpi ^zlib@:1.5" "app").isOk = true ∧
      SameOutcome (anonymous "^zlib@1.2: +pic ^mpi ^zlib@:1.5" "app") (anonymous "zlib@1.2: +pic ^mpi ^zlib@:1.5" "app") ∧
      ∃ key, anonymous "@2: ^zlib@1.2" "app" = .ok key ∧ anonymous "app @2: ^zlib@1.2" "app" = .ok key ∧
        key.name = some "app" := by
  have valid : isIdentifier "app" = true := by decide +kernel
  have named : (parse "zlib@1.2: +pic ^mpi ^zlib@:1.5").toOption.map name = some (some "zlib") := by decide +kernel
  have unnamed : (parse "@2: ^zlib@1.2").toOption.map name = some none := by decide +kernel
  obtain ⟨spec, read, named⟩ := Option.map_eq_some_iff.mp named
  obtain ⟨other, again, unnamed⟩ := Option.map_eq_some_iff.mp unnamed
  obtain ⟨clauses, _, _⟩ := equivalent_conditions_share_key valid (toOption_eq_some.mp read)
  obtain ⟨_, behind, keys⟩ := equivalent_conditions_share_key valid (toOption_eq_some.mp again)
  obtain ⟨key, found, same⟩ := behind unnamed
  exact ⟨by decide +kernel, clauses "zlib" named (by decide), key, found, same, keys _ key found⟩

end Spec

end PackageRecipes
