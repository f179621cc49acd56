import PackageRecipes.Proofs.BuildAgreement
import PackageRecipes.Proofs.ConditionKeys
import PackageRecipes.Proofs.DeclaredRequirements
import PackageRecipes.Proofs.DescriptorKeys
import PackageRecipes.Proofs.HandleRequests

/-! What the dependencies of a package are needed for. A dependency has the types of all
entries that ask for it, in the recipe of the package and in those that it inherits from,
however these entries are merged. An entry names its types or takes the default ones, and
accepted settings have some of these. Only the empty list asks for a dependency that is
needed for nothing. -/

namespace PackageRecipes
open Relation Std

namespace DependencyTypes

theorem isEmpty_iff {types : DependencyTypes} : types.isEmpty = true ↔ ∀ type, types.contains type = false := by
  rw [isEmpty, List.isEmpty_iff, toList, List.filter_eq_nil_iff]
  constructor
  · intro lacking type
    cases type <;> exact Bool.not_eq_true _ ▸ lacking _ (by decide)
  · intro lacking type _
    rw [lacking type]
    exact Bool.false_ne_true

theorem contains_add (types : DependencyTypes) (added type : DependencyType) :
    (types.add added).contains type = (types.contains type || type == added) := by
  cases added <;> cases type <;> simp [add, contains]

theorem contains_ofList (list : List DependencyType) (type : DependencyType) :
    (ofList list).contains type = list.contains type := by
  have added : ∀ types : DependencyTypes,
      (list.foldl add types).contains type = (types.contains type || list.contains type) := by
    induction list with
    | nil => simp
    | cons first rest ih =>
      intro types
      rw [List.foldl_cons, ih, contains_add, List.contains_cons, Bool.or_assoc]
  have nothing : none.contains type = false := by cases type <;> rfl
  rw [ofList, added, nothing, Bool.false_or]

private theorem isEmpty_ofList {list : List DependencyType} : (ofList list).isEmpty = true ↔ list = [] := by
  simp only [isEmpty_iff, contains_ofList, List.contains_eq_mem, decide_eq_false_iff_not]
  exact List.eq_nil_iff_forall_not_mem.symm

end DependencyTypes

section Requests

variable {types : DependencyTypes}

/-- Of all ways to ask for types only an empty list of names gives none. -/
private theorem TypeRequest.isEmpty_of_canonical {request : TypeRequest} (read : request.canonical = .ok types) :
    types.isEmpty = true ↔ request = .many [] := by
  cases request with
  | all =>
    cases read
    decide
  | one name =>
    rw [canonical] at read
    split at read
    next =>
      cases read
      exact ⟨nofun, nofun⟩
    next =>
      obtain ⟨type, _, rfl⟩ := map_eq_ok.mp read
      simp [DependencyTypes.isEmpty_ofList]
  | many names =>
    obtain ⟨list, named, rfl⟩ := map_eq_ok.mp read
    rw [DependencyTypes.isEmpty_ofList, ← List.length_eq_zero_iff, (mapM_eq_ok named).1, List.length_eq_zero_iff,
      many.injEq]

private theorem Config.isEmpty_of_validate {config : Config} (accepted : config.validate = .ok ())
    (read : config.defaultDependencyTypes = .ok types) : types.isEmpty = false := by
  unfold validate at accepted
  dsimp only at accepted
  split at accepted
  next => cases accepted
  next =>
    split at accepted
    next => cases accepted
    next =>
      obtain ⟨other, again, accepted⟩ := bind_eq_ok.mp accepted
      cases read.symm.trans again
      split at accepted
      next => cases accepted
      next nonempty => simpa using nonempty

private theorem Builder.isEmpty_of_readTypes {builder : Builder} (accepted : builder.config.validate = .ok ())
    {request : Option TypeRequest} (read : builder.readTypes request = .ok types) :
    types.isEmpty = true ↔ request = some (.many []) := by
  cases request with
  | none => simp [Config.isEmpty_of_validate accepted read]
  | some request => rw [TypeRequest.isEmpty_of_canonical read, Option.some.injEq]

private theorem Conjunction.exists_mem {target : String} {requirements : List DependencyDeclaration}
    {dependency : Dependency}
    (conjunction : Conjunction target requirements dependency) : ∃ requirement, requirement ∈ requirements := by
  obtain ⟨first, rest, targets, _⟩ := conjunction.narrowed
  cases requirements with
  | nil => cases targets
  | cons requirement => exact ⟨requirement, List.mem_cons_self⟩

/-- Requirements together are needed for nothing exactly if each of them is. -/
theorem Conjunction.isEmpty_iff {target : String} {requirements : List DependencyDeclaration} {dependency : Dependency}
    (conjunction : Conjunction target requirements dependency) :
    dependency.types.isEmpty = true ↔ ∀ requirement ∈ requirements, requirement.types.isEmpty = true := by
  simp only [DependencyTypes.isEmpty_iff, conjunction.types, List.any_eq_false, Bool.not_eq_true]
  exact forall_comm.trans (forall_congr' fun _ => forall_comm)

end Requests

section Places

variable {package target : String} {condition : Spec}

private theorem isUnder_iff {ι κ : Type} [Ord κ] {key : ι → Except Error κ} {sought : κ} {item : ι} :
    isUnder key sought item = true ↔ ∃ found, key item = .ok found ∧ compare sought found = .eq := by
  simp [isUnder, Option.any_eq_true, toOption_eq_some]

private theorem isUnder_of_beq {when other : Option Spec} (same : (when == other) = true) (normal : NormalWhen when)
    (normal' : NormalWhen other) (under : isUnder (anchorCondition · package) condition when = true) :
    isUnder (anchorCondition · package) condition other = true := by
  obtain ⟨key, anchored, here⟩ := isUnder_iff.mp under
  obtain ⟨key', anchored', equal⟩ := anchorCondition_congr same normal normal' anchored
  exact isUnder_iff.mpr ⟨key', anchored', TransCmp.eq_trans here (compare_eq_iff_beq.mpr equal)⟩

def DependencyDeclaration.isOn (package target : String) (condition : Spec) (requirement : DependencyDeclaration) : Bool :=
  requirement.target.name == some target && isUnder (anchorCondition · package) condition requirement.when

private theorem DependencyDeclaration.isOn_of_beq {left right : DependencyDeclaration} (same : (left == right) = true)
    (normal : NormalWhen left.when) (normal' : NormalWhen right.when) (on : left.isOn package target condition = true) :
    right.isOn package target condition = true ∧ left.types = right.types := by
  rw [beq_eq] at same
  simp only [Bool.and_eq_true] at same
  obtain ⟨targets, whens, types, _⟩ := same
  obtain ⟨named, under⟩ := Bool.and_eq_true_iff.mp on
  rw [Spec.name_eq_of_beq targets] at named
  exact ⟨Bool.and_eq_true_iff.mpr ⟨named, isUnder_of_beq whens normal normal' under⟩, eq_of_beq types⟩

end Places

section Directives

variable {package target : String} {condition : Spec} {passes : DependencyTypes → Bool} {first second : Directive}
  {requirement : DependencyDeclaration}

private theorem Directive.requirement?_of_beq (same : (first == second) = true)
    (found : first.requirement? = some requirement) :
    ∃ other, second.requirement? = some other ∧ (requirement == other) = true := by
  rcases beq_cases same with ⟨left, right, rfl, rfl, equal⟩ | ⟨⟨_, _, _, rfl⟩, _⟩
  · cases left with
    | dependsOn left =>
      cases right with
      | dependsOn right =>
        cases found
        exact ⟨right, rfl, equal⟩
      | _ => cases equal
    | extending left =>
      cases right with
      | extending right =>
        cases found
        have equal : (left.target == right.target && (left.when == right.when && (left.types == right.types &&
          left.options == right.options))) = true := equal
        simp only [Bool.and_eq_true] at equal
        refine ⟨right.asDependency, rfl, ?_⟩
        rw [DependencyDeclaration.beq_eq]
        simp [ExtensionDeclaration.asDependency, equal]
      | _ => cases equal
    | _ => cases found
  · cases found

private theorem Directive.IsRead.normalWhen {directive : Directive} (read : directive.IsRead)
    (found : directive.requirement? = some requirement) : NormalWhen requirement.when := by
  intro spec present
  have listed : spec ∈ requirement.when.toList := by simp [present]
  suffices parsed : spec.IsRead from parsed.elim fun _ => Spec.normal_of_parse
  cases read with
  | @declared declaration read =>
    cases declaration with
    | dependsOn =>
      cases found
      exact read spec (List.mem_cons_of_mem _ (List.mem_append_left _ listed))
    | extending =>
      cases found
      exact read spec (List.mem_cons_of_mem _ listed)
    | _ => cases found

def Directive.asks (package target : String) (condition : Spec) (passes : DependencyTypes → Bool)
    (directive : Directive) : Bool :=
  directive.requirement?.any fun requirement => requirement.isOn package target condition && passes requirement.types

private theorem Directive.asks_of_beq (same : (first == second) = true) (read : first.IsRead) (read' : second.IsRead)
    (asks : first.asks package target condition passes = true) : second.asks package target condition passes = true := by
  obtain ⟨requirement, found, asks⟩ := (Option.any_eq_true _ _).mp asks
  obtain ⟨on, pass⟩ := Bool.and_eq_true_iff.mp asks
  obtain ⟨other, again, equal⟩ := requirement?_of_beq same found
  obtain ⟨on, types⟩ := DependencyDeclaration.isOn_of_beq equal (read.normalWhen found) (read'.normalWhen again) on
  rw [types] at pass
  exact (Option.any_eq_true _ _).mpr ⟨other, again, Bool.and_eq_true_iff.mpr ⟨on, pass⟩⟩

private theorem any_asks_eq (directives : List Directive) :
    directives.any (Directive.asks package target condition passes) =
      (requirementsOn package target condition (directives.filterMap Directive.requirement?)).any (passes ·.types) := by
  rw [requirementsOn, List.any_filter, List.any_filterMap]
  rfl

end Directives

section Entries

variable {package target : String} {condition : Spec} {passes : DependencyTypes → Bool}
  {wanted : Option TypeRequest → Prop} {builder after : Builder} {arguments : DependencyArguments}

/-- What a recipe says asks of the package to depend on the target under the condition. -/
structure DependencyArguments.AsksFor (package target : String) (condition : Spec) (arguments : DependencyArguments) :
    Prop where
  holds : arguments.when.isNever = false
  target : ∃ spec, Spec.parse arguments.target = .ok spec ∧ spec.name = some target
  condition : ∃ key, arguments.when.recordedOn package = .ok key ∧ (condition == key) = true

/-- A test of types, said of how they are asked for. -/
def Tests (config : Config) (passes : DependencyTypes → Bool) (wanted : Option TypeRequest → Prop) : Prop :=
  ∀ (builder : Builder) request types, builder.config = config → builder.readTypes request = .ok types →
    (passes types = true ↔ wanted request)

/-- The requirement that is read is on the target if that is asked for. -/
theorem Builder.isOn_of_required {requirement : DependencyDeclaration}
    (read : builder.required arguments = .ok (some requirement)) :
    (requirement.isOn package target condition = true ↔ arguments.AsksFor package target condition) ∧
      builder.readTypes arguments.types = .ok requirement.types := by
  have holds : arguments.when.isNever = false := by
    rw [← Bool.not_eq_true]
    intro never
    rw [required_of_never never] at read
    cases read
  obtain ⟨spec, when, types, patches, named, parsed, requested, _, same⟩ := (required_eq_ok_iff holds).mp read
  cases same
  obtain ⟨readable, _⟩ := readTarget_eq_ok_iff.mp named
  refine ⟨?_, requested⟩
  rw [DependencyDeclaration.isOn, Bool.and_eq_true, beq_iff_eq, isUnder_iff]
  constructor
  · rintro ⟨same, key, anchored, here⟩
    refine ⟨holds, ⟨spec, readable, same⟩, key, ?_, compare_eq_iff_beq.mp here⟩
    exact bind_eq_ok.mpr ⟨when, parsed, anchored⟩
  · rintro ⟨_, ⟨other, again, same⟩, key, recorded, equal⟩
    cases readable.symm.trans again
    obtain ⟨condition, parsedAgain, anchored⟩ := bind_eq_ok.mp recorded
    cases parsed.symm.trans parsedAgain
    exact ⟨same, key, anchored, compare_eq_iff_beq.mpr equal⟩

theorem Recipe.any_asks_iff {recipe : Recipe} (fresh : builder.pending = []) (run : recipe.declare builder = .ok after)
    (tests : Tests builder.config passes wanted) :
    after.pending.any (Directive.asks package target condition passes) = true ↔
      ∃ arguments ∈ recipe.requirements, arguments.AsksFor package target condition ∧ wanted arguments.types := by
  have requires := recipe.requires run
  have recorded : after.pending.filterMap Directive.requirement? = builder.requirements recipe.requirements := by
    have all := requires.recorded
    rwa [Builder.recorded, Builder.recorded, fresh, List.filterMap_nil, List.nil_append] at all
  rw [any_asks_eq, recorded, requirementsOn, List.any_filter, List.any_eq_true]
  constructor
  · rintro ⟨requirement, member, both⟩
    obtain ⟨on, pass⟩ := Bool.and_eq_true_iff.mp both
    obtain ⟨arguments, listed, read⟩ := List.mem_filterMap.mp member
    obtain ⟨asks, types⟩ := Builder.isOn_of_required (toOption_eq_some.mp (Option.join_eq_some_iff.mp read))
    exact ⟨arguments, listed, asks.mp on, (tests builder _ _ rfl types).mp pass⟩
  · rintro ⟨arguments, listed, asked, want⟩
    obtain ⟨found, read⟩ := isOk_iff.mp (requires.readable arguments listed)
    obtain ⟨spec, when, types, patches, _, _, _, _, rfl⟩ := (Builder.required_eq_ok_iff asked.holds).mp read
    obtain ⟨asks, requested⟩ := Builder.isOn_of_required read
    refine ⟨⟨spec, when, types, patches⟩, List.mem_filterMap.mpr ⟨arguments, listed, ?_⟩, ?_⟩
    · rw [read]
      rfl
    · exact Bool.and_eq_true_iff.mpr ⟨asks.mpr asked, (tests builder _ _ rfl requested).mpr want⟩

end Entries

namespace RecipeSet

variable {set : RecipeSet} {name target : String} {condition : Spec} {passes : DependencyTypes → Bool}
  {wanted : Option TypeRequest → Prop} {package : Package}

/-- An entry of the recipe, or of one that it inherits from, that asks of the package to
depend on the target under the condition. -/
def Asks (set : RecipeSet) (name target : String) (condition : Spec) (arguments : DependencyArguments) : Prop :=
  ∃ owner placed, ReflTransGen set.Inherits name owner ∧ set.recipes.find? owner = some placed ∧
    arguments ∈ placed.recipe.requirements ∧ arguments.AsksFor name target condition

private theorem isRead_of_ownDirectives {owner : String} {own : List Directive}
    (run : set.ownDirectives owner = .ok own) :
    ∀ directive ∈ own, directive.IsRead := by
  obtain ⟨placed, found⟩ := exists_find? (isOk_iff.mpr ⟨own, run⟩)
  rw [ownDirectives_of_find? found] at run
  obtain ⟨alone, declared, rfl⟩ := map_eq_ok.mp run
  intro directive member
  rcases (Recipe.records declared).pending directive member with earlier | read
  · cases earlier
  · exact read

private theorem any_ownDirectives_iff {owner : String} {placed : PlacedRecipe} {own : List Directive}
    (found : set.recipes.find? owner = some placed) (run : set.ownDirectives owner = .ok own)
    (tests : Tests set.config passes wanted) :
    own.any (Directive.asks name target condition passes) = true ↔
      ∃ arguments ∈ placed.recipe.requirements, arguments.AsksFor name target condition ∧ wanted arguments.types := by
  rw [ownDirectives_of_find? found] at run
  obtain ⟨alone, declared, rfl⟩ := map_eq_ok.mp run
  exact Recipe.any_asks_iff rfl declared tests

/-- A finished layer asks for what some entry above it does. -/
theorem InheritsExactly.any_asks_iff {layer : Layer} (exact : set.InheritsExactly name layer)
    (declares : set.Declares name) (read : ∀ action ∈ layer.actions, action.IsRead) (tests : Tests set.config passes wanted) :
    layer.actions.any (Directive.asks name target condition passes) = true ↔
      ∃ arguments, set.Asks name target condition arguments ∧ wanted arguments.types := by
  constructor
  · intro asks
    obtain ⟨action, member, asks⟩ := List.any_eq_true.mp asks
    obtain ⟨owner, own, path, declared, present⟩ :=
      (exact.complete action).mp (List.any_eq_true.mpr ⟨action, member, BEq.refl action⟩)
    obtain ⟨source, listed, same⟩ := List.any_eq_true.mp present
    have asks := Directive.asks_of_beq (BEq.symm same) (read action member)
      (isRead_of_ownDirectives declared source listed) asks
    obtain ⟨placed, found⟩ := exists_find? (declares owner path)
    obtain ⟨arguments, written, asked, want⟩ :=
      (any_ownDirectives_iff found declared tests).mp (List.any_eq_true.mpr ⟨source, listed, asks⟩)
    exact ⟨arguments, ⟨owner, placed, path, found, written, asked⟩, want⟩
  · rintro ⟨arguments, ⟨owner, placed, path, found, written, asked⟩, want⟩
    obtain ⟨own, declared⟩ := isOk_iff.mp (declares owner path)
    have asks := (any_ownDirectives_iff found declared tests).mpr ⟨arguments, written, asked, want⟩
    obtain ⟨source, listed, asks⟩ := List.any_eq_true.mp asks
    have present := (exact.complete source).mpr ⟨owner, own, path, declared, List.any_eq_true.mpr ⟨source, listed, BEq.refl source⟩⟩
    obtain ⟨action, member, same⟩ := List.any_eq_true.mp present
    refine List.any_eq_true.mpr ⟨action, member, ?_⟩
    exact Directive.asks_of_beq (BEq.symm same) (isRead_of_ownDirectives declared source listed) (read action member) asks

private theorem concrete_of_reports {order : List String} {finished : FinishedLayers} {report : BuildReport}
    (member : report ∈ set.reports order finished) (result : report.result = .ok (some package)) :
    report.isAbstract = false := by
  induction order generalizing finished with
  | nil => cases member
  | cons name rest ih =>
    rw [reports] at member
    split at member
    next => exact ih member
    next recipe found =>
      change report ∈ (set.report finished name recipe).1 :: set.reports rest (set.report finished name recipe).2
        at member
      rcases List.mem_cons.mp member with rfl | behind
      · rw [RecipeSet.report] at result ⊢
        split at result
        next => cases result
        next =>
          split at result
          next => cases result
          next =>
            dsimp only at result ⊢
            split at result
            next => cases result
            next concrete => simpa using concrete
      · exact ih behind

inductive Builds (set : RecipeSet) (name : String) (package : Package) : Prop where
  | alone (run : set.build name = .ok package)
  | reported {reports : List BuildReport} {report : BuildReport} (run : set.buildEach = .ok reports)
      (member : report ∈ reports) (named : report.name = name) (result : report.result = .ok (some package))

theorem Builds.build_eq_ok (builds : set.Builds name package) : set.build name = .ok package := by
  cases builds with
  | alone run => exact run
  | @reported reports report run member named result =>
    subst named
    have valid : set.Valid := by
      by_contra invalid
      have fails := (not_valid_fails invalid).1
      rw [run] at fails
      cases fails
    obtain ⟨all, again, _, _, agrees⟩ := valid.buildEach_succeeds
    cases run.symm.trans again
    obtain ⟨recipe, _, agrees⟩ := agrees report member
    have concrete : report.isAbstract = false := by
      obtain ⟨graph, _, run⟩ := bind_eq_ok.mp run
      obtain ⟨order, _, listed⟩ := bind_eq_ok.mp run
      cases listed
      exact concrete_of_reports member result
    exact (agrees.built (agrees.kind ▸ concrete) package).mpr result

private theorem isRead_of_build (run : set.build name = .ok package) :
    package.layer.name = name ∧ ∀ action ∈ package.layer.actions, action.IsRead := by
  obtain ⟨_, finished, builder, _, above, declared, built⟩ := RecipeSet.build_eq_ok run
  rw [(Layer.build_eq_ok built).1]
  exact (allRead_finishBases above).declare declared

theorem required_of_build (run : set.build name = .ok package) :
    Required target (requirementsOn name target condition (package.layer.actions.filterMap Directive.requirement?))
      (package.descriptor.dependency? target condition) := by
  obtain ⟨named, read⟩ := isRead_of_build run
  obtain ⟨_, _, builder, _, _, _, built⟩ := RecipeSet.build_eq_ok run
  obtain ⟨layer, replayed⟩ := Layer.build_eq_ok built
  rw [← layer, named] at replayed
  obtain ⟨declarations, listed⟩ := Builder.exists_declarations fun action member => by
    obtain ⟨read⟩ := read action member
    exact ⟨_, rfl⟩
  rw [listed] at replayed ⊢
  rw [← Declarations.requirements_ofList]
  exact ((Grouped.empty name).replay replayed).dependencies.required target condition

private theorem any_requirementsOn_iff (run : set.build name = .ok package) (tests : Tests set.config passes wanted) :
    (requirementsOn name target condition (package.layer.actions.filterMap Directive.requirement?)).any (passes ·.types) =
      true ↔ ∃ arguments, set.Asks name target condition arguments ∧ wanted arguments.types := by
  rw [← any_asks_eq]
  exact (inheritsExactly_of_finishedLayer (layer_of_build run)).any_asks_iff (declares_of_build run)
    (isRead_of_build run).2 tests

/-- A dependency is asked for, and it is needed for something unless every entry that asks
for it gives an empty list of types. -/
theorem dependency_has_purpose_unless_lists_are_empty {dependency : Dependency}
    (accepted : set.config.validate = .ok ()) (builds : set.Builds name package)
    (found : package.descriptor.dependency? target condition = some dependency) :
    (∃ arguments, set.Asks name target condition arguments) ∧
      (dependency.types.isEmpty = true ↔
        ∀ arguments, set.Asks name target condition arguments → arguments.types = some (.many [])) := by
  have run := builds.build_eq_ok
  have required := @required_of_build set name target condition package run
  rw [found] at required
  have conjunction : Conjunction target _ dependency := required
  have anyTypes : Tests set.config (fun _ => true) fun _ => True := fun _ _ _ _ _ => iff_of_true rfl trivial
  have someTypes : Tests set.config (fun types => !types.isEmpty) (· ≠ some (.many [])) := by
    intro builder request types same read
    rw [Bool.not_eq_true', ← Bool.not_eq_true, Builder.isEmpty_of_readTypes (same ▸ accepted) read]
  constructor
  · obtain ⟨requirement, member⟩ := conjunction.exists_mem
    obtain ⟨arguments, asks, _⟩ :=
      (any_requirementsOn_iff run anyTypes).mp (List.any_eq_true.mpr ⟨requirement, member, rfl⟩)
    exact ⟨arguments, asks⟩
  · calc dependency.types.isEmpty = true
      _ ↔ ¬ (requirementsOn name target condition (package.layer.actions.filterMap Directive.requirement?)).any
            (!·.types.isEmpty) = true := by
        rw [conjunction.isEmpty_iff, List.any_eq_true]
        simp
      _ ↔ ¬ ∃ arguments, set.Asks name target condition arguments ∧ arguments.types ≠ some (.many []) :=
        not_congr (any_requirementsOn_iff run someTypes)
      _ ↔ ∀ arguments, set.Asks name target condition arguments → arguments.types = some (.many []) := by
        simp only [not_exists, not_and, not_not]

/-- A recipe that asks for one library twice, once for no purpose, and for another one for
no purpose at all. -/
def purposelessText : String :=
  "[package]\nname = \"app\"\n[[depends_on]]\nspec = \"zlib\"\ntype = []\n[[depends_on]]\nspec = \"zlib@1.2:\"\n" ++
    "[[depends_on]]\nspec = \"mpi\"\ntype = []\n"

def purposeless : Except Error RecipeSet := do
  (RecipeSet.empty .standard).insert (← Recipe.ofText purposelessText) none

private theorem purposeless_builds :
    ∃ (set : RecipeSet) (package : Package) (zlib mpi : Dependency), purposeless = .ok set ∧
      set.config.validate = .ok () ∧ set.Builds "app" package ∧
      package.descriptor.dependency? "zlib" (.named "app") = some zlib ∧ zlib.types.isEmpty = false ∧
      package.descriptor.dependency? "mpi" (.named "app") = some mpi ∧ mpi.types.isEmpty = true := by
  have checked : (do
      let set ← purposeless
      let reports ← set.buildEach
      return decide (set.config = .standard) && reports.any fun report =>
        report.name == "app" && report.result.toOption.join.any fun package =>
          (package.descriptor.dependency? "zlib" (.named "app")).any (·.types.isEmpty == false) &&
            (package.descriptor.dependency? "mpi" (.named "app")).any (·.types.isEmpty) :
      Except Error Bool).toOption = some true := by decide +kernel
  obtain ⟨set, made, run⟩ := bind_eq_ok.mp (toOption_eq_some.mp checked)
  obtain ⟨reports, reported, run⟩ := bind_eq_ok.mp run
  obtain ⟨config, holds⟩ := Bool.and_eq_true_iff.mp (Except.ok.inj run)
  obtain ⟨report, member, holds⟩ := List.any_eq_true.mp holds
  obtain ⟨named, holds⟩ := Bool.and_eq_true_iff.mp holds
  obtain ⟨package, result, holds⟩ := (Option.any_eq_true _ _).mp holds
  obtain ⟨first, second⟩ := Bool.and_eq_true_iff.mp holds
  obtain ⟨zlib, found, needed⟩ := (Option.any_eq_true _ _).mp first
  obtain ⟨mpi, found', empty⟩ := (Option.any_eq_true _ _).mp second
  have result := toOption_eq_some.mp (Option.join_eq_some_iff.mp result)
  have accepted : set.config.validate = .ok () := by
    rw [of_decide_eq_true config]
    decide +kernel
  exact ⟨set, package, zlib, mpi, made, accepted, .reported reported member (eq_of_beq named) result, found,
    eq_of_beq needed, found', empty⟩

/-- The entry without types gives the merged dependency its purpose. -/
theorem merged_library_has_purpose :
    ∃ (set : RecipeSet) (package : Package) (zlib : Dependency), set.config.validate = .ok () ∧
      set.Builds "app" package ∧ package.descriptor.dependency? "zlib" (.named "app") = some zlib ∧
      ∃ arguments, set.Asks "app" "zlib" (.named "app") arguments ∧ arguments.types ≠ some (.many []) := by
  obtain ⟨set, package, zlib, _, _, accepted, builds, found, needed, _⟩ := purposeless_builds
  obtain ⟨_, empty_iff⟩ := dependency_has_purpose_unless_lists_are_empty accepted builds found
  refine ⟨set, package, zlib, accepted, builds, found, ?_⟩
  by_contra absent
  have empty := empty_iff.mpr fun arguments asks => by_contra fun named => absent ⟨arguments, asks, named⟩
  rw [needed] at empty
  cases empty

/-- Under settings that are in order, a dependency can be needed for nothing. -/
theorem dependency_can_lack_purpose :
    ¬ ∀ (set : RecipeSet) name package target condition dependency, set.config.validate = .ok () →
      set.Builds name package → package.descriptor.dependency? target condition = some dependency →
      dependency.types.isEmpty = false := by
  intro needed
  obtain ⟨set, package, _, mpi, _, accepted, builds, _, _, found, empty⟩ := purposeless_builds
  rw [needed set "app" package "mpi" (.named "app") mpi accepted builds found] at empty
  cases empty

end RecipeSet

end PackageRecipes
