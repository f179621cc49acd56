import PackageRecipes.Proofs.DeclarationOrder
import PackageRecipes.Proofs.LastDeclaration

/-! Which requirements a recipe comes to. Of its entries, dependencies and extensions record
one each, unless their condition never holds; what is read of an entry does not depend
on the other entries. -/

namespace PackageRecipes

def Directive.requirement? : Directive → Option DependencyDeclaration
  | .declared (.dependsOn requirement) => some requirement
  | .declared (.extending extension) => some extension.asDependency
  | _ => none

def Entry.requirement? : Entry → Option DependencyArguments
  | .dependsOn arguments => some arguments
  | .extending arguments => some ⟨arguments.target, arguments.when, none, []⟩
  | _ => none

theorem Declarations.requirements_ofList (declarations : List Declaration) :
    (ofList declarations).requirements = (declarations.map .declared).filterMap Directive.requirement? := by
  have listed := foldl_add (·.requirements) Directive.requirement?
    (fun _ declaration => by cases declaration <;> simp [add, Directive.requirement?]) declarations .none
  rw [ofList, listed, none, List.nil_append]

namespace Builder

variable {before middle after : Builder} {declarations later : List DependencyArguments}

def recorded (builder : Builder) : List DependencyDeclaration :=
  builder.pending.filterMap Directive.requirement?

/-- Between two builders these requirements have been read and recorded, and no others. -/
structure Requires (before : Builder) (declarations : List DependencyArguments) (after : Builder) : Prop where
  config : after.config = before.config
  directory : after.directory = before.directory
  readable : ∀ arguments ∈ declarations, (before.required arguments).isOk = true
  recorded : after.recorded = before.recorded ++ before.requirements declarations

theorem Requires.refl (builder : Builder) : builder.Requires [] builder :=
  ⟨rfl, rfl, nofun, by simp [requirements]⟩

theorem required_eq_ok_iff {arguments : DependencyArguments} {requirement : Option DependencyDeclaration}
    (holds : arguments.when.isNever = false) :
    before.required arguments = .ok requirement ↔ ∃ spec when types patches, readTarget arguments.target = .ok spec ∧
      arguments.when.parse = .ok when ∧ before.readTypes arguments.types = .ok types ∧
      (arguments.patches.filter fun patch => !patch.when.isNever).mapM before.readPatch = .ok patches ∧
      requirement = some ⟨spec, when, types, patches⟩ := by
  rw [required, if_neg (Bool.eq_false_iff.mp holds)]
  constructor
  · intro read
    obtain ⟨spec, named, read⟩ := bind_eq_ok.mp read
    obtain ⟨when, parsed, read⟩ := bind_eq_ok.mp read
    obtain ⟨types, requested, read⟩ := bind_eq_ok.mp read
    obtain ⟨patches, patched, same⟩ := bind_eq_ok.mp read
    cases same
    exact ⟨spec, when, types, patches, named, parsed, requested, patched, rfl⟩
  · rintro ⟨spec, when, types, patches, named, parsed, requested, patched, rfl⟩
    exact bind_eq_ok.mpr ⟨spec, named, bind_eq_ok.mpr ⟨when, parsed, bind_eq_ok.mpr ⟨types, requested,
      bind_eq_ok.mpr ⟨patches, patched, rfl⟩⟩⟩⟩

theorem required_of_never {arguments : DependencyArguments} (never : arguments.when.isNever = true) :
    before.required arguments = .ok none := by
  rw [required, if_pos never]

private theorem required_congr (config : after.config = before.config) (directory : after.directory = before.directory)
    (arguments : DependencyArguments) : after.required arguments = before.required arguments := by
  unfold required readTypes readPatch
  rw [config, directory]

theorem Requires.trans (early : before.Requires declarations middle) (late : middle.Requires later after) :
    before.Requires (declarations ++ later) after := by
  have same := required_congr early.config early.directory
  constructor
  · exact late.config.trans early.config
  · exact late.directory.trans early.directory
  · refine List.forall_mem_append.mpr ⟨early.readable, fun arguments member => ?_⟩
    rw [← same]
    exact late.readable arguments member
  · have read : middle.requirements later = before.requirements later := by
      simp only [requirements, same]
    rw [late.recorded, early.recorded, read, requirements, requirements, requirements, List.filterMap_append,
      List.append_assoc]

private theorem recorded_record (builder : Builder) (directive : Directive) :
    (builder.record directive).recorded = builder.recorded ++ directive.requirement?.toList := by
  rw [recorded, record, List.filterMap_append, List.filterMap_cons]
  cases directive.requirement? <;> rfl

private theorem requires_of_required {arguments : DependencyArguments} {requirement : Option DependencyDeclaration}
    (read : before.required arguments = .ok requirement) (config : after.config = before.config)
    (directory : after.directory = before.directory)
    (recorded : after.recorded = before.recorded ++ requirement.toList) : before.Requires [arguments] after := by
  refine ⟨config, directory, ?_, ?_⟩
  · exact List.forall_mem_singleton.mpr (isOk_iff.mpr ⟨requirement, read⟩)
  · have single : before.requirements [arguments] = requirement.toList := by
      rw [requirements_cons read]
      exact List.append_nil _
    rw [recorded, single]

private theorem requires_of_dependsOn {arguments : DependencyArguments} (run : before.dependsOn arguments = .ok after) :
    before.Requires [arguments] after := by
  obtain ⟨requirement, read, rfl⟩ := dependsOn_eq_ok_iff.mp run
  refine requires_of_required read rfl rfl ?_
  rw [recorded, recordAll, List.filterMap_append]
  cases requirement <;> rfl

private theorem requires_of_extending {target : String} {condition : Condition} {options : Metadata}
    (run : before.extending target condition options = .ok after) :
    before.Requires [⟨target, condition, none, []⟩] after := by
  unfold extending declareWhen at run
  split at run
  next never =>
    cases run
    exact requires_of_required (required_of_never never) rfl rfl (List.append_nil _).symm
  next holds =>
    obtain ⟨declaration, read, rfl⟩ := declare_eq_ok_iff.mp run
    obtain ⟨spec, named, read⟩ := bind_eq_ok.mp read
    obtain ⟨when, parsed, read⟩ := bind_eq_ok.mp read
    obtain ⟨types, requested, same⟩ := bind_eq_ok.mp read
    cases same
    have read : before.required ⟨target, condition, none, []⟩ = .ok (some ⟨spec, when, types, []⟩) :=
      (required_eq_ok_iff (Bool.eq_false_iff.mpr holds)).mpr ⟨spec, when, types, [], named, parsed, requested, rfl, rfl⟩
    exact requires_of_required read rfl rfl (recorded_record _ _)

private theorem requires_of_declare {kind : DirectiveKind} {read : Except Error Declaration}
    (other : ∀ declaration, read = .ok declaration → Directive.requirement? (.declared declaration) = none)
    (run : before.declare kind read = .ok after) : before.Requires [] after := by
  obtain ⟨declaration, found, rfl⟩ := declare_eq_ok_iff.mp run
  refine ⟨rfl, rfl, nofun, ?_⟩
  rw [recorded_record, other declaration found]
  rfl

private theorem requires_of_declareWhen {condition : Condition} {kind : DirectiveKind} {read : Except Error Declaration}
    (other : ∀ declaration, read = .ok declaration → Directive.requirement? (.declared declaration) = none)
    (run : before.declareWhen condition kind read = .ok after) : before.Requires [] after := by
  unfold declareWhen at run
  split at run
  next =>
    cases run
    exact .refl before
  next => exact requires_of_declare other run

end Builder

section Recipes

variable {before after : Builder}

theorem Entry.requires {entry : Entry} (run : entry.declare before = .ok after) :
    before.Requires entry.requirement?.toList after := by
  cases entry with
  | dependsOn => exact Builder.requires_of_dependsOn run
  | extending => exact Builder.requires_of_extending run
  | version =>
    refine Builder.requires_of_declare (fun declaration read => ?_) run
    obtain ⟨_, _, same⟩ := bind_eq_ok.mp read
    cases same
    rfl
  | variant =>
    refine Builder.requires_of_declare (fun declaration read => ?_) run
    split at read <;> cases read
    rfl
  | patch =>
    refine Builder.requires_of_declareWhen (fun declaration read => ?_) run
    obtain ⟨_, _, same⟩ := bind_eq_ok.mp read
    cases same
    rfl
  | conflicts | provides | resource =>
    refine Builder.requires_of_declareWhen (fun declaration read => ?_) run
    obtain ⟨_, _, read⟩ := bind_eq_ok.mp read
    obtain ⟨_, _, same⟩ := bind_eq_ok.mp read
    cases same
    rfl

def Recipe.requirements (recipe : Recipe) : List DependencyArguments :=
  recipe.entries.filterMap Entry.requirement?

theorem Recipe.requires {recipe : Recipe} (run : recipe.declare before = .ok after) :
    before.Requires recipe.requirements after := by
  unfold declare at run
  unfold requirements
  generalize recipe.entries = entries at run ⊢
  induction entries generalizing before with
  | nil =>
    cases run
    exact .refl _
  | cons entry rest ih =>
    rw [declareEntries] at run
    cases first : entry.declare before with
    | error error =>
      rw [first] at run
      cases run
    | ok next =>
      rw [first] at run
      have both := (Entry.requires first).trans (ih run)
      rw [List.filterMap_cons]
      cases written : entry.requirement? <;> simpa [written] using both

end Recipes

end PackageRecipes
