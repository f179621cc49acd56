import PackageRecipes.Proofs.OwnDirectives
import PackageRecipes.Proofs.ReplayGrouping
import PackageRecipes.Proofs.RequirementOrder
import PackageRecipes.Proofs.WellFormedDescriptors

/-! Requirements of a package may be declared in any order. What is read of a declaration
does not depend on those before it, repetitions are dropped in any order, and the
replay merges what is left, place by place. -/

namespace PackageRecipes
open Std

abbrev DependencyDeclaration.directive (requirement : DependencyDeclaration) : Directive :=
  .declared (.dependsOn requirement)

private theorem Condition.normalWhen_of_parse {condition : Condition} {when : Option Spec}
    (read : condition.parse = .ok when) :
    NormalWhen when := by
  intro spec present
  obtain ⟨_, parsed⟩ := isRead_of_parse read spec present
  exact Spec.normal_of_parse parsed

namespace Builder

variable {builder after : Builder}

/-- What a builder reads of a declaration: a requirement, or none under a condition that
never holds. -/
def required (builder : Builder) (arguments : DependencyArguments) : Except Error (Option DependencyDeclaration) :=
  if arguments.when.isNever then .ok none
  else do
    let target ← readTarget arguments.target
    let when ← arguments.when.parse
    let types ← builder.readTypes arguments.types
    let patches ← (arguments.patches.filter fun patch => !patch.when.isNever).mapM builder.readPatch
    return some ⟨target, when, types, patches⟩

def recordAll (builder : Builder) (requirements : List DependencyDeclaration) : Builder :=
  { builder with pending := builder.pending ++ requirements.map (·.directive) }

theorem dependsOn_eq_ok_iff {arguments : DependencyArguments} :
    builder.dependsOn arguments = .ok after ↔
      ∃ requirement, builder.required arguments = .ok requirement ∧ after = builder.recordAll requirement.toList := by
  unfold dependsOn declareWhen required
  split
  next =>
    constructor
    · intro same
      cases same
      exact ⟨none, rfl, by simp [recordAll]⟩
    · rintro ⟨requirement, same, rfl⟩
      cases same
      simp [recordAll]
  next =>
    simp only [declare_eq_ok_iff, bind_eq_ok]
    constructor
    · rintro ⟨declaration, ⟨target, named, when, parsed, types, requested, patches, read, same⟩, rfl⟩
      cases same
      exact ⟨_, ⟨target, named, when, parsed, types, requested, patches, read, rfl⟩, rfl⟩
    · rintro ⟨requirement, ⟨target, named, when, parsed, types, requested, patches, read, same⟩, rfl⟩
      cases same
      exact ⟨_, ⟨target, named, when, parsed, types, requested, patches, read, rfl⟩, rfl⟩

def requirements (builder : Builder) (declarations : List DependencyArguments) : List DependencyDeclaration :=
  declarations.filterMap fun arguments => (builder.required arguments).toOption.join

theorem requirements_cons {arguments : DependencyArguments} {requirement : Option DependencyDeclaration}
    (read : builder.required arguments = .ok requirement) (rest : List DependencyArguments) :
    builder.requirements (arguments :: rest) = requirement.toList ++ builder.requirements rest := by
  rw [requirements, List.filterMap_cons, read]
  cases requirement <;> rfl

private theorem recordAll_append (earlier later : List DependencyDeclaration) :
    builder.recordAll (earlier ++ later) = (builder.recordAll earlier).recordAll later := by
  simp only [recordAll, List.map_append, List.append_assoc]

/-- Declarations are recorded one after the other if each can be read by itself. -/
private theorem foldlM_dependsOn_eq_ok_iff {declarations : List DependencyArguments} :
    declarations.foldlM dependsOn builder = .ok after ↔
      (∀ arguments ∈ declarations, (builder.required arguments).isOk = true) ∧
        after = builder.recordAll (builder.requirements declarations) := by
  induction declarations generalizing builder with
  | nil =>
    have none : builder.recordAll (builder.requirements []) = builder := by simp [recordAll, requirements]
    rw [none]
    constructor
    · rintro ⟨⟩
      exact ⟨nofun, rfl⟩
    · rintro ⟨_, rfl⟩
      rfl
  | cons arguments rest ih =>
    rw [List.foldlM_cons, bind_eq_ok, List.forall_mem_cons]
    simp only [dependsOn_eq_ok_iff]
    constructor
    · rintro ⟨_, ⟨requirement, read, rfl⟩, run⟩
      obtain ⟨others, rfl⟩ := ih.mp run
      refine ⟨⟨isOk_iff.mpr ⟨requirement, read⟩, others⟩, ?_⟩
      rw [requirements_cons read, recordAll_append]
      rfl
    · rintro ⟨⟨first, others⟩, rfl⟩
      obtain ⟨requirement, read⟩ := isOk_iff.mp first
      refine ⟨_, ⟨requirement, read, rfl⟩, ih.mpr ⟨others, ?_⟩⟩
      rw [requirements_cons read, recordAll_append]
      rfl

private theorem isRead_of_readPatch {arguments : PatchArguments} {patch : DependencyPatch}
    (read : builder.readPatch arguments = .ok patch) : patch.IsRead builder.directory := by
  obtain ⟨when, parsed, same⟩ := bind_eq_ok.mp read
  cases same
  exact ⟨rfl, Condition.normalWhen_of_parse parsed⟩

private theorem isRead_of_required {arguments : DependencyArguments} {requirement : DependencyDeclaration}
    (read : builder.required arguments = .ok (some requirement)) : requirement.IsRead builder.directory := by
  unfold required at read
  split at read
  next => cases read
  next =>
    obtain ⟨target, named, read⟩ := bind_eq_ok.mp read
    obtain ⟨when, parsed, read⟩ := bind_eq_ok.mp read
    obtain ⟨types, _, read⟩ := bind_eq_ok.mp read
    obtain ⟨patches, patched, same⟩ := bind_eq_ok.mp read
    cases same
    refine ⟨?_, Condition.normalWhen_of_parse parsed, ?_⟩
    · obtain ⟨_, readable⟩ := isRead_of_readTarget named
      exact Spec.normal_of_parse readable
    · intro patch member
      obtain ⟨source, _, read⟩ := (mapM_eq_ok patched).2 patch member
      exact isRead_of_readPatch read

private theorem isRead_of_mem_requirements {declarations : List DependencyArguments}
    {requirement : DependencyDeclaration}
    (member : requirement ∈ builder.requirements declarations) : requirement.IsRead builder.directory := by
  obtain ⟨arguments, _, read⟩ := List.mem_filterMap.mp member
  exact isRead_of_required (toOption_eq_some.mp (Option.join_eq_some_iff.mp read))

end Builder

section Replay

variable (config : Config) (package : String) {requirements : List DependencyDeclaration}

theorem replay_directives_eq_ok_iff {before after : Descriptor} :
    Layer.replay config package (requirements.map (·.directive)) before = (.ok (), after) ↔
      requirements.foldlM (fun descriptor requirement => requirement.record descriptor) before = .ok after := by
  induction requirements generalizing before with
  | nil => simp [Layer.replay, pure, Except.pure]
  | cons requirement rest ih =>
    rw [List.foldlM_cons, bind_eq_ok, List.map_cons, Layer.replay, Directive.effect,
      Declaration.effect_eq_atOnce, Declaration.atOnce, Effect.ofUpdate]
    cases recorded : requirement.record before with
    | error error => simp [Effect.writing]
    | ok next => simp [Effect.writing, ih]

private theorem firstOccurrences_directives :
    firstOccurrences (requirements.map (·.directive)) = (firstOccurrences requirements).map (·.directive) :=
  firstOccurrences_map (f := DependencyDeclaration.directive) (fun _ _ => rfl) requirements

end Replay

/-- The same requirements: on the same packages, under equal conditions, with equal
targets, the same types, and the same patches in any order. -/
structure SameRequirements (left right : Descriptor) : Prop where
  names : left.dependencies.keys = right.dependencies.keys
  conditions (target : String) : Option.Rel (fun left right => (left.keys == right.keys) = true)
    (left.dependencies.find? target) (right.dependencies.find? target)
  each (target : String) (condition : Spec) :
    Option.Rel Dependency.Alike (left.dependency? target condition) (right.dependency? target condition)

section Requirements

variable {config : Config} {package : String}

private theorem wellFormed_of_records {requirements : List DependencyDeclaration} {descriptor : Descriptor}
    (run : requirements.foldlM (fun descriptor requirement => requirement.record descriptor) (.empty package) =
      .ok descriptor) : Descriptor.WellFormed package descriptor := by
  refine foldlM_preserves _ ?_ (Descriptor.WellFormed.empty package) run
  intro before requirement after _ wellFormed recorded
  exact wellFormed.write (DependencyDeclaration.write_of_record recorded).1

theorem Descriptor.WellFormed.contains_iff {descriptor : Descriptor} (wellFormed : descriptor.WellFormed package)
    (target : String) :
    descriptor.dependencies.contains target = true ↔ ∃ condition, (descriptor.dependency? target condition).isSome := by
  rw [OrderedMap.contains, Option.isSome_iff_exists]
  constructor
  · rintro ⟨required, found⟩
    obtain ⟨_, _, _, nonempty, _⟩ := wellFormed.dependencies.find? found
    obtain ⟨entry, member⟩ := List.exists_mem_of_ne_nil _ nonempty
    refine ⟨entry.1, ?_⟩
    rw [dependency?, found, Option.bind_some, required.find?_of_mem member]
    rfl
  · rintro ⟨condition, some⟩
    obtain ⟨_, found⟩ := Option.isSome_iff_exists.mp some
    exact (Option.bind_eq_some_iff.mp found).imp fun _ both => both.1

private theorem sameRequirements_of_each {left right : Descriptor} (wellFormed : left.WellFormed package)
    (wellFormed' : right.WellFormed package)
    (each : ∀ target condition,
      Option.Rel Dependency.Alike (left.dependency? target condition) (right.dependency? target condition)) :
    SameRequirements left right := by
  have both : ∀ target, left.dependencies.contains target = right.dependencies.contains target := by
    intro target
    rw [Bool.eq_iff_iff, wellFormed.contains_iff, wellFormed'.contains_iff]
    exact exists_congr fun condition => by rw [isSome_of_rel (each target condition)]
  refine ⟨eq_of_beq (OrderedMap.beq_keys both), fun target => ?_, each⟩
  have present := both target
  have conditions := each target
  rw [OrderedMap.contains, OrderedMap.contains] at present
  simp only [Descriptor.dependency?] at conditions
  generalize left.dependencies.find? target = required, right.dependencies.find? target = required' at *
  cases required <;> cases required'
  case none.none => exact .none
  case some.some => exact .some (OrderedMap.beq_keys fun condition => isSome_of_rel (conditions condition))
  all_goals cases present

end Requirements

def Builder.inDirectory (package : String) (config : Config) (directory : Option Directory) : Builder :=
  { Builder.new package config with directory }

def buildRequiring (package : String) (config : Config) (directory : Option Directory)
    (declarations : List DependencyArguments) : Except Error Package := do
  let builder ← declarations.foldlM Builder.dependsOn (.inDirectory package config directory)
  builder.build

section Order

variable {package : String} {config : Config} {directory : Option Directory}

private theorem Layer.build_of_replay {layer : Layer} {descriptor : Descriptor}
    (replayed : replay config layer.name layer.actions (.empty layer.name) = (.ok (), descriptor)) :
    layer.build config = .ok ⟨layer, descriptor⟩ := by
  rw [build, replayed]

/-- A package is built if each declaration can be read and those that differ can be
recorded one after the other. -/
theorem exists_buildRequiring_iff {declarations : List DependencyArguments} {descriptor : Descriptor} :
    (∃ built, buildRequiring package config directory declarations = .ok built ∧ built.descriptor = descriptor) ↔
      (∀ arguments ∈ declarations, ((Builder.inDirectory package config directory).required arguments).isOk = true) ∧
        (firstOccurrences ((Builder.inDirectory package config directory).requirements declarations)).foldlM
          (fun descriptor requirement => requirement.record descriptor) (.empty package) = .ok descriptor := by
  generalize same : Builder.inDirectory package config directory = builder
  have actions : (builder.recordAll (builder.requirements declarations)).finish.actions =
      (firstOccurrences (builder.requirements declarations)).map (·.directive) := by
    subst same
    exact firstOccurrences_directives
  simp only [buildRequiring, same, bind_eq_ok, Builder.foldlM_dependsOn_eq_ok_iff]
  subst same
  rw [← replay_directives_eq_ok_iff config package, ← actions]
  constructor
  · rintro ⟨built, ⟨_, ⟨readable, rfl⟩, run⟩, rfl⟩
    exact ⟨readable, (Layer.build_eq_ok run).2⟩
  · rintro ⟨readable, replayed⟩
    exact ⟨_, ⟨_, ⟨readable, rfl⟩, Layer.build_of_replay replayed⟩, rfl⟩

/-- What can be built from declarations can be built from them in another order. -/
theorem buildRequiring_perm {first second : List DependencyArguments} (perm : first.Perm second) {left : Package}
    (run : buildRequiring package config directory first = .ok left) :
    ∃ right, buildRequiring package config directory second = .ok right ∧
      SameRequirements left.descriptor right.descriptor := by
  obtain ⟨readable, recorded⟩ := exists_buildRequiring_iff.mp ⟨left, run, rfl⟩
  have read : ∀ declarations, ∀ requirement ∈ firstOccurrences
      ((Builder.inDirectory package config directory).requirements declarations), requirement.IsRead directory :=
    fun _ _ member => Builder.isRead_of_mem_requirements ((firstOccurrences_sublist _).subset member)
  obtain ⟨descriptor, recorded', each⟩ := foldlM_record_rearranged (rearranged_firstOccurrences (perm.filterMap _))
    (read first) (read second) recorded
  obtain ⟨right, run', rfl⟩ := exists_buildRequiring_iff.mpr
    ⟨fun arguments member => readable arguments (perm.mem_iff.mpr member), recorded'⟩
  exact ⟨right, run', sameRequirements_of_each (wellFormed_of_records recorded) (wellFormed_of_records recorded') each⟩

/-- Declaring requirements in another order changes nothing: either both packages cannot
be built, or they have the same requirements. -/
theorem declaration_order_irrelevant (package : String) (config : Config) (directory : Option Directory)
    (first second : List DependencyArguments) (perm : first.Perm second) :
    (buildRequiring package config directory first).isOk = false ∧
        (buildRequiring package config directory second).isOk = false ∨
      ∃ left right, buildRequiring package config directory first = .ok left ∧
        buildRequiring package config directory second = .ok right ∧ SameRequirements left.descriptor right.descriptor := by
  cases run : buildRequiring package config directory first with
  | ok left =>
    obtain ⟨right, run', same⟩ := buildRequiring_perm perm run
    exact .inr ⟨left, right, rfl, run', same⟩
  | error =>
    cases run' : buildRequiring package config directory second with
    | ok right =>
      obtain ⟨_, other, _⟩ := buildRequiring_perm perm.symm run'
      rw [run] at other
      cases other
    | error => exact .inl ⟨rfl, rfl⟩

/-- Requirements on one package that are merged, one of them twice and with another
spelling of its version, and one that holds under a condition only. -/
def mixedDeclarations : List DependencyArguments :=
  [⟨"zlib@1.0:", .always, some (.one "link"), [⟨"first.patch", 1, .always, .none⟩]⟩,
    ⟨"zlib@1.0 +pic", .expression "+ssl", none, []⟩,
    ⟨"zlib@1-0:", .always, some (.one "link"), [⟨"first.patch", 1, .always, .none⟩]⟩,
    ⟨"zlib@:1.3 +pic", .expression "true", some (.many ["run"]), [⟨"second.patch", 1, .always, .none⟩]⟩]

theorem mixedDeclarations_reversed :
    mixedDeclarations.reverse.Perm mixedDeclarations ∧
      ∃ left right, buildRequiring "app" .standard none mixedDeclarations.reverse = .ok left ∧
        buildRequiring "app" .standard none mixedDeclarations = .ok right ∧
        SameRequirements left.descriptor right.descriptor := by
  have perm := mixedDeclarations.reverse_perm
  have built : (buildRequiring "app" .standard none mixedDeclarations).isOk = true := by decide +kernel
  refine ⟨perm, ?_⟩
  rcases declaration_order_irrelevant "app" .standard none _ _ perm with ⟨_, fails⟩ | same
  · rw [built] at fails
    cases fails
  · exact same

end Order

end PackageRecipes
