import PackageRecipes.Proofs.DirectiveRecords
import PackageRecipes.Proofs.Grouping

/-! What one requirement, one extension and one provision add to the grouping of those
before it. These write to more than one place or to what is there already. -/

namespace PackageRecipes

section Requirements

theorem DependencyPatch.addTo_eq_ok_iff {patch : DependencyPatch} {target : String}
    {before after : Dependency} :
    patch.addTo target before = .ok after ↔
      ∃ condition created, anchorCondition patch.when target = .ok condition ∧
        patch.create target = .ok created ∧ before.addPatch condition created = after := by
  simp only [addTo, create, bind_eq_ok]
  constructor
  · rintro ⟨condition, anchored, created, made, same⟩
    exact ⟨condition, created, anchored, made, Except.ok.inj same⟩
  · rintro ⟨condition, created, anchored, made, same⟩
    exact ⟨condition, anchored, created, made, congrArg _ same⟩

/-- The patches of a requirement are put behind those the dependency has. -/
theorem Dependency.patches_of_addTo {target : String} {patches done : List DependencyPatch}
    {before after : Dependency}
    (appended : Appended (fun patch => anchorCondition patch.when target) (DependencyPatch.create · target)
      done before.patches)
    (run : patches.foldlM (fun dependency patch => patch.addTo target dependency) before = .ok after) :
    after.target = before.target ∧ after.types = before.types ∧
      Appended (fun patch => anchorCondition patch.when target) (DependencyPatch.create · target)
        (done ++ patches) after.patches := by
  induction patches generalizing done before with
  | nil =>
    cases run
    exact ⟨rfl, rfl, by simpa using appended⟩
  | cons patch rest ih =>
    rw [List.foldlM_cons, bind_eq_ok] at run
    obtain ⟨next, added, run⟩ := run
    obtain ⟨condition, created, anchored, made, rfl⟩ := DependencyPatch.addTo_eq_ok_iff.mp added
    obtain ⟨target, types, later⟩ := ih (appended.push patch anchored made) run
    exact ⟨target, types, by simpa using later⟩

theorem Conjunction.single {requirement : DependencyDeclaration} {target : String} {dependency : Dependency}
    (run : requirement.dependency target = .ok dependency) : Conjunction target [requirement] dependency := by
  have start : Appended (fun patch => anchorCondition patch.when target) (DependencyPatch.create · target) []
      (Dependency.new requirement.target requirement.types).patches := Gathered.empty rfl _ _
  obtain ⟨narrowed, types, patches⟩ := Dependency.patches_of_addTo start run
  refine ⟨⟨requirement.target, [], rfl, ?_⟩, ?_, by simpa using patches⟩
  · rw [narrowed]
    rfl
  · intro type
    simp [types, Dependency.new]

theorem DependencyTypes.contains_union (left right : DependencyTypes) (type : DependencyType) :
    (left.union right).contains type = (left.contains type || right.contains type) := by
  cases type <;> rfl

theorem Conjunction.merge {requirements : List DependencyDeclaration} {requirement : DependencyDeclaration}
    {target : String} {earlier dependency merged : Dependency}
    (conjunction : Conjunction target requirements earlier) (single : Conjunction target [requirement] dependency)
    (run : earlier.merge dependency = .ok merged) : Conjunction target (requirements ++ [requirement]) merged := by
  obtain ⟨both, constrained, rfl⟩ := Dependency.merge_eq_ok run
  constructor
  case narrowed =>
    obtain ⟨first, rest, targets, narrowed⟩ := conjunction.narrowed
    obtain ⟨only, others, alone, same⟩ := single.narrowed
    cases alone
    have own : requirement.target = dependency.target := Except.ok.inj same
    rw [← own] at constrained
    refine ⟨first, rest ++ [requirement.target], by simp [targets], ?_⟩
    rw [List.foldlM_append, narrowed]
    exact bind_eq_ok.mpr ⟨earlier.target, rfl, bind_eq_ok.mpr ⟨both, constrained, rfl⟩⟩
  case types =>
    intro type
    rw [DependencyTypes.contains_union, conjunction.types, single.types, List.any_append]
  case patches =>
    rw [List.flatMap_append]
    exact conjunction.patches.append single.patches

private theorem requirementsOn_concat {package target sought : String} {condition other : Spec}
    {requirement : DependencyDeclaration} (requirements : List DependencyDeclaration)
    (named : requirement.target.name = some target)
    (anchored : anchorCondition requirement.when package = .ok condition) :
    requirementsOn package sought other (requirements ++ [requirement]) =
      requirementsOn package sought other requirements ++
        if target = sought ∧ compare other condition = .eq then [requirement] else [] := by
  have under := isUnder_of_key (anchorCondition · package) anchored other
  rw [requirementsOn, List.filter_append, List.filter_cons, List.filter_nil, under, named]
  simp [requirementsOn]

theorem DependenciesGrouped.insert {package target : String} {requirements : List DependencyDeclaration}
    {dependencies : OrderedMap String (OrderedMap Spec Dependency)}
    (grouped : DependenciesGrouped package requirements dependencies)
    {requirement : DependencyDeclaration} {condition : Spec} {dependency merged : Dependency}
    (named : requirement.target.name = some target)
    (anchored : anchorCondition requirement.when package = .ok condition)
    (made : requirement.dependency target = .ok dependency)
    (combined : dependency.mergedOnto (((dependencies.find? target).getD .empty).find? condition) = .ok merged) :
    DependenciesGrouped package (requirements ++ [requirement])
      (dependencies.insert target (((dependencies.find? target).getD .empty).insert condition merged)) := by
  constructor
  case targets =>
    intro sought
    have before := grouped.targets sought
    rw [OrderedMap.contains] at before ⊢
    rw [OrderedMap.find?_insert, List.any_append, List.any_cons, named]
    by_cases same : target = sought
    · subst same
      simp
    · simp [same, before, Ne.symm same]
  case required =>
    intro sought other
    have before := grouped.required sought other
    rw [requirementsOn_concat requirements named anchored, OrderedMap.find?_insert]
    by_cases same : target = sought
    · subst same
      rw [if_pos Std.ReflCmp.compare_self, Option.bind_some, OrderedMap.find?_insert]
      by_cases here : compare other condition = .eq
      · rw [if_pos here, if_pos ⟨rfl, here⟩]
        have single := Conjunction.single made
        rw [OrderedMap.find?_getD_empty] at combined
        rw [Option.bind_congr fun map _ => map.find?_congr here] at before
        cases found : (dependencies.find? target).bind (·.find? condition) with
        | none =>
          rw [found] at combined before
          cases combined
          rw [before]
          exact single
        | some earlier =>
          rw [found] at combined before
          exact before.merge single combined
      · rw [if_neg here, if_neg fun both => here both.2, List.append_nil, OrderedMap.find?_getD_empty]
        exact before
    · have apart : compare sought target ≠ .eq := fun equal =>
        same (Std.LawfulEqOrd.eq_of_compare equal).symm
      rw [if_neg apart, if_neg fun both => same both.1, List.append_nil]
      exact before

theorem DependencyDeclaration.grouped_record {package : String} {requirements : List DependencyDeclaration}
    {requirement : DependencyDeclaration} {before after : Descriptor} (name : before.name = package)
    (grouped : DependenciesGrouped package requirements before.dependencies)
    (run : requirement.record before = .ok after) :
    ∃ dependencies, after = { before with dependencies } ∧
      DependenciesGrouped package (requirements ++ [requirement]) dependencies := by
  obtain ⟨target, condition, dependency, merged, named, _, anchored, made, combined, same⟩ := record_eq_ok run
  rw [name] at anchored
  exact ⟨_, same, grouped.insert named anchored made combined⟩

end Requirements

section Extensions

variable {extensions : List ExtensionDeclaration} {extendees : OrderedMap String (Spec × Metadata)}
  {extension : ExtensionDeclaration} {name : String}

private theorem extensionsOf_concat (sought : String) (named : extension.target.name = some name) :
    extensionsOf sought (extensions ++ [extension]) =
      extensionsOf sought extensions ++ if name = sought then [extension] else [] := by
  simp [extensionsOf, List.filter_append, List.filter_cons, named]

private theorem ExtendeesGrouped.named_concat (grouped : ExtendeesGrouped extensions extendees)
    (named : extension.target.name = some name) :
    ∀ other ∈ extensions ++ [extension], ∃ name, other.target.name = some name := by
  intro other member
  rcases List.mem_append.mp member with earlier | last
  · exact grouped.named other earlier
  · rw [List.mem_singleton.mp last]
    exact ⟨name, named⟩

theorem ExtendeesGrouped.ignore (grouped : ExtendeesGrouped extensions extendees)
    (named : extension.target.name = some name) {existing : String} (extended : existing ∈ extendees.keys)
    (other : existing ≠ name) : ExtendeesGrouped (extensions ++ [extension]) extendees := by
  have head := (grouped.extended existing).mp (extendees.mem_keys_iff.mp extended)
  have unchanged : (extensions ++ [extension]).head? = extensions.head? := by
    cases extensions with
    | nil => cases head
    | cons first rest => rfl
  have apart : ∀ sought value, extendees.find? sought = some value →
      extensionsOf sought (extensions ++ [extension]) = extensionsOf sought extensions := by
    intro sought value found
    have first := (grouped.extended sought).mp (by rw [found]; rfl)
    have same : existing = sought := Option.some.inj (head.symm.trans first)
    rw [extensionsOf_concat sought named, if_neg fun equal => other (same.trans equal.symm), List.append_nil]
  constructor
  case named => exact grouped.named_concat named
  case extended =>
    intro sought
    rw [unchanged]
    exact grouped.extended sought
  case target =>
    intro sought target options found
    rw [apart sought _ found]
    exact grouped.target sought target options found
  case options =>
    intro sought target options found
    rw [apart sought _ found]
    exact grouped.options sought target options found

/-- The extensions so far are all of one package, if each package extended is that one. -/
private theorem ExtendeesGrouped.head_of_only (grouped : ExtendeesGrouped extensions extendees)
    (only : ∀ existing ∈ extendees.keys, existing = name) :
    extensions = [] ∨ extensions.head?.bind (·.target.name) = some name := by
  cases extensions with
  | nil => exact .inl rfl
  | cons first rest =>
    obtain ⟨found, named⟩ := grouped.named first List.mem_cons_self
    have extended := (grouped.extended found).mpr named
    rw [← only found (extendees.mem_keys_iff.mpr extended)]
    exact .inr named

private theorem find?_recordExtendee {before : Descriptor} (only : ∀ existing ∈ before.extendees.keys, existing = name)
    (sought : String) :
    (extension.recordExtendee name before).extendees.find? sought =
      if sought = name then
        some (extension.target, extension.options.entries.foldl (fun options (key, value) => options.insert key value)
          (((before.extendees.find? name).map (·.2)).getD .empty))
      else none := by
  rw [ExtensionDeclaration.recordExtendee, OrderedMap.find?_upsert]
  by_cases same : sought = name
  · subst same
    rw [if_pos Std.ReflCmp.compare_self, if_pos rfl]
  · rw [if_neg fun equal => same (Std.LawfulEqOrd.eq_of_compare equal), if_neg same]
    have absent : ¬ (before.extendees.find? sought).isSome := fun extended =>
      same (only sought (before.extendees.mem_keys_iff.mpr extended))
    simpa using absent

theorem ExtendeesGrouped.extend {before : Descriptor} (grouped : ExtendeesGrouped extensions before.extendees)
    (named : extension.target.name = some name) (only : ∀ existing ∈ before.extendees.keys, existing = name) :
    ExtendeesGrouped (extensions ++ [extension]) (extension.recordExtendee name before).extendees := by
  constructor
  case named => exact grouped.named_concat named
  case extended =>
    intro sought
    have head : (extensions ++ [extension]).head?.bind (·.target.name) = some name := by
      rcases grouped.head_of_only only with rfl | first
      · exact named
      · cases extensions with
        | nil => cases first
        | cons => exact first
    rw [find?_recordExtendee only, head, Option.some.injEq]
    by_cases same : sought = name
    · simp [same]
    · simp [same, Ne.symm same]
  case target =>
    intro sought target options present
    rw [find?_recordExtendee only] at present
    split at present
    next same =>
      cases present
      rw [extensionsOf_concat sought named, if_pos same.symm, List.getLast?_concat]
      rfl
    next => cases present
  case options =>
    intro sought target options present key
    rw [find?_recordExtendee only] at present
    split at present
    next same =>
      cases present
      subst same
      rw [extensionsOf_concat sought named, if_pos rfl, List.reverse_concat, List.findSome?_cons,
        find?_insertEntries extension.options.increasing]
      have earlier : (((before.extendees.find? sought).map Prod.snd).getD OrderedMap.empty).find? key =
          (extensionsOf sought extensions).reverse.findSome? (·.options.find? key) := by
        cases found : before.extendees.find? sought with
        | some value => exact grouped.options sought value.1 value.2 found key
        | none =>
          rcases grouped.head_of_only only with rfl | first
          · rfl
          · have extended := (grouped.extended sought).mpr first
            rw [found] at extended
            cases extended
      rw [earlier]
      change (extension.options.find? key).or _ = _
      cases extension.options.find? key <;> rfl
    next => cases present

end Extensions

section Provisions

def provideUnder (condition : Spec) (provided : OrderedMap Spec (OrderedSet Spec)) (virtual : Spec) :
    OrderedMap Spec (OrderedSet Spec) :=
  provided.upsert virtual fun existing => OrderedSet.add (existing.getD .empty) condition

private theorem contains_provideUnder {condition virtual : Spec} {provided : OrderedMap Spec (OrderedSet Spec)}
    (sought : Spec) :
    (provideUnder condition provided virtual).contains sought =
      (provided.contains sought || compare sought virtual == .eq) := by
  rw [provideUnder, OrderedMap.contains, OrderedMap.contains, OrderedMap.find?_upsert]
  by_cases same : compare sought virtual = .eq
  · simp [same]
  · rw [if_neg same, beq_false_of_ne same, Bool.or_false]

private theorem conditions_provideUnder {condition virtual : Spec} {provided : OrderedMap Spec (OrderedSet Spec)}
    (sought other : Spec) :
    (((provideUnder condition provided virtual).find? sought).getD .empty).contains other =
      (((provided.find? sought).getD .empty).contains other ||
        (compare sought virtual == .eq && compare other condition == .eq)) := by
  rw [provideUnder, OrderedMap.find?_upsert]
  by_cases same : compare sought virtual = .eq
  · rw [if_pos same, Option.getD_some, ← provided.find?_congr same, same]
    rw [OrderedSet.add, OrderedMap.contains, OrderedMap.contains, OrderedMap.find?_insert]
    by_cases here : compare other condition = .eq
    · simp [here]
    · rw [if_neg here, beq_false_of_ne here, Bool.and_false, Bool.or_false]
  · rw [if_neg same, beq_false_of_ne same, Bool.false_and, Bool.or_false]

private theorem contains_foldl_provideUnder {condition : Spec} {virtuals : List Spec}
    {provided : OrderedMap Spec (OrderedSet Spec)} (sought : Spec) :
    (virtuals.foldl (provideUnder condition) provided).contains sought =
      (provided.contains sought || virtuals.any (compare sought · == .eq)) := by
  induction virtuals generalizing provided with
  | nil => simp
  | cons virtual rest ih =>
    rw [List.foldl_cons, ih, contains_provideUnder, List.any_cons, Bool.or_assoc]

theorem conditions_foldl_provideUnder {condition : Spec} {virtuals : List Spec}
    {provided : OrderedMap Spec (OrderedSet Spec)} (sought other : Spec) :
    (((virtuals.foldl (provideUnder condition) provided).find? sought).getD .empty).contains other =
      (((provided.find? sought).getD .empty).contains other ||
        (virtuals.any (compare sought · == .eq) && compare other condition == .eq)) := by
  induction virtuals generalizing provided with
  | nil => simp
  | cons virtual rest ih =>
    rw [List.foldl_cons, ih, conditions_provideUnder, List.any_cons, Bool.or_assoc, Bool.and_or_distrib_right]

private theorem ProvisionDeclaration.recordAll_eq_ok {condition : Spec} {virtuals : List Spec}
    {before after : Descriptor}
    (run : (recordAll condition virtuals).outcome before = (.ok (), after)) :
    after = { before with provided := virtuals.foldl (provideUnder condition) before.provided } := by
  induction virtuals generalizing before with
  | nil =>
    cases run
    rfl
  | cons virtual rest ih =>
    rw [outcome_recordAll_cons] at run
    split at run
    next => cases run
    next => exact ih run

theorem ProvisionsGrouped.provide {package : String} {provisions : List ProvisionDeclaration}
    {provision : ProvisionDeclaration} {before after : Descriptor} (name : before.name = package)
    (grouped : ProvisionsGrouped package provisions before.provided)
    (run : provision.replay.outcome before = (.ok (), after)) :
    ∃ provided, after = { before with provided } ∧
      ProvisionsGrouped package (provisions ++ [provision]) provided := by
  rw [ProvisionDeclaration.outcome_replay, name] at run
  split at run
  next condition anchored =>
    refine ⟨_, ProvisionDeclaration.recordAll_eq_ok run, ?_, ?_⟩
    · intro virtual
      rw [contains_foldl_provideUnder, grouped.virtuals, List.any_append, List.any_cons, List.any_nil, Bool.or_false]
    · intro virtual other
      have under := isUnder_of_key (anchorCondition · package) anchored other
      rw [conditions_foldl_provideUnder, grouped.conditions, List.any_append, List.any_cons, List.any_nil,
        Bool.or_false, under]
  next => cases run

end Provisions

end PackageRecipes
