import PackageRecipes.Directive.Handle
import PackageRecipes.Proofs.DeclarationOrder
import PackageRecipes.Proofs.LastDeclaration
import PackageRecipes.Proofs.RefusedDirectives

/-! Versions, dependencies, conflicts and virtual packages can be asked of a builder, which
reads its texts when it is asked, or of the handle of a custom action, which reads them when
the action is replayed. The package comes out the same or not at all either way, as what is
not checked when it is declared is checked when it is recorded. Only that the expression of
a virtual package names one is for the builder alone to check. -/

namespace PackageRecipes

def Effect.written? (effect : Effect) (before : Descriptor) : Option Descriptor :=
  (effect before).1.toOption.map fun _ => (effect before).2

theorem Effect.written?_ofUpdate (update : Descriptor → Except Error Descriptor) (before : Descriptor) :
    written? (ofUpdate update) before = (update before).toOption := by
  unfold written? ofUpdate
  cases update before <;> rfl

section Replay

variable (config : Config) (package : String)

private theorem Layer.written?_replay_cons (action : Directive) (rest : List Directive) (before : Descriptor) :
    Effect.written? (replay config package (action :: rest)) before =
      (Effect.written? (action.effect config) before).bind (Effect.written? (replay config package rest)) := by
  simp only [Effect.written?, replay]
  generalize action.effect config before = step
  obtain ⟨_ | ⟨⟩, after⟩ := step <;> rfl

private theorem Layer.written?_replay_concat (actions : List Directive) (last : Directive) (before : Descriptor) :
    Effect.written? (replay config package (actions ++ [last])) before =
      (Effect.written? (replay config package actions) before).bind (Effect.written? (last.effect config)) := by
  induction actions generalizing before with
  | nil =>
    rw [List.nil_append, written?_replay_cons]
    exact Option.bind_fun_some _
  | cons action rest ih =>
    rw [List.cons_append, written?_replay_cons, written?_replay_cons, Option.bind_assoc]
    exact Option.bind_congr fun after _ => ih after

end Replay

private theorem Layer.descriptor_build (layer : Layer) (config : Config) :
    (layer.build config).toOption.map (·.descriptor) =
      Effect.written? (replay config layer.name layer.actions) (.empty layer.name) := by
  unfold build Effect.written?
  generalize replay config layer.name layer.actions (.empty layer.name) = run
  obtain ⟨_ | ⟨⟩, after⟩ := run <;> rfl

namespace Builder

variable {builder : Builder} {directive : Directive}

def descriptor? (builder : Builder) : Option Descriptor :=
  builder.build.toOption.map (·.descriptor)

private theorem descriptor?_eq (builder : Builder) :
    builder.descriptor? =
      Effect.written? (Layer.replay builder.config builder.name builder.finish.actions) (.empty builder.name) :=
  builder.finish.descriptor_build builder.config

theorem readTarget_eq_ok_iff {expression : String} {target : Spec} :
    readTarget expression = .ok target ↔ Spec.parse expression = .ok target ∧ target.name.isSome = true := by
  rw [readTarget, bind_eq_ok]
  constructor
  · rintro ⟨spec, parsed, run⟩
    split at run
    next named =>
      cases run
      exact ⟨parsed, named⟩
    next => cases run
  · rintro ⟨parsed, named⟩
    exact ⟨target, parsed, if_pos named⟩

def Fresh (builder : Builder) (directive : Directive) : Prop :=
  (builder.inherited ++ builder.pending).any (· == directive) = false

private theorem actions_record (fresh : builder.Fresh directive) :
    (builder.record directive).finish.actions = builder.finish.actions ++ [directive] := by
  change firstOccurrences (builder.inherited ++ (builder.pending ++ [directive])) = _
  rw [← List.append_assoc, firstOccurrences_concat, any_firstOccurrences, if_neg (by rw [fresh]; nofun)]
  rfl

private theorem descriptor?_record (fresh : builder.Fresh directive) :
    (builder.record directive).descriptor? =
      builder.descriptor?.bind (Effect.written? (directive.effect builder.config)) := by
  rw [descriptor?_eq, descriptor?_eq, actions_record fresh]
  exact Layer.written?_replay_concat ..

end Builder

/-- A virtual package without a name is not the package itself, so nothing speaks against it. -/
theorem ProvisionDeclaration.written?_of_unnamed {virtual : Spec} (nameless : virtual.name = none)
    (condition : Option Spec) (before : Descriptor) :
    Effect.written? (replay ⟨[virtual], condition⟩).outcome before =
      (anchorCondition condition before.name).toOption.map fun anchored =>
        { before with provided := provideUnder anchored before.provided virtual } := by
  rw [Effect.written?, outcome_replay]
  cases anchorCondition condition before.name with
  | error => rfl
  | ok anchored =>
    dsimp only
    rw [outcome_recordAll_cons, nameless]
    rfl

/-- What a builder and the handle of a custom action can both be asked to record. A builder
is asked for the types of a dependency, a handle is given them. -/
inductive Request where
  | version (text : String) (metadata : Metadata)
  | dependsOn (target : String) (when : Condition) (asked : Option TypeRequest) (types : DependencyTypes)
  | conflicts (expression : String) (when : Condition) (message : Option String)
  | provides (expression : String) (when : Condition)

namespace Request

def kind : Request → DirectiveKind
  | version .. => .version
  | dependsOn .. => .dependsOn
  | conflicts .. => .conflicts
  | provides .. => .provides

/-- The types asked of the builder are those given to the handle. -/
def Fits (builder : Builder) : Request → Prop
  | dependsOn _ _ asked types => builder.readTypes asked = .ok types
  | _ => True

def declare (builder : Builder) : Request → Except Error Builder
  | version text metadata => builder.version text none metadata
  | dependsOn target when asked _ => builder.dependsOn ⟨target, when, asked, []⟩
  | conflicts expression when message => builder.conflicts expression when message
  | provides expression when => builder.provides [expression] when

def program : Request → Program
  | version text metadata => .version text metadata .finish
  | dependsOn target when _ types => .dependsOn target when types .finish
  | conflicts expression when message => .conflicts expression when message .finish
  | provides expression when => .provides expression when .finish

def reading : Request → Except Error (Option Directive)
  | version text metadata =>
    (Version.parse text).map fun version => some (.declared (.version ⟨version, none, metadata⟩))
  | dependsOn target when _ types => Program.unlessNever when do
    let target ← Spec.parse target
    return .dependsOn ⟨target, ← when.parse, types, []⟩
  | conflicts expression when message => Program.unlessNever when do
    let conflict ← Spec.parse expression
    return .conflicts ⟨conflict, ← when.parse, message⟩
  | provides expression when => Program.unlessNever when do
    let virtual ← Spec.parse expression
    return .provides ⟨[virtual], ← when.parse⟩

private theorem program_eq (request : Request) : request.program = Program.request request.reading .finish := by
  cases request <;> rfl

theorem exists_fits (builder : Builder) (target : String) (when : Condition) (types : DependencyTypes) :
    ∃ asked, (dependsOn target when asked types).Fits builder := by
  refine ⟨some (.many (types.toList.map (·.name))), ?_⟩
  obtain ⟨build, link, run⟩ := types
  cases build <;> cases link <;> cases run <;> rfl

/-- The request is for a virtual package without a name, under a condition that can hold. -/
def Unnamed (virtual : Spec) (condition : Option Spec) : Request → Prop
  | provides expression when =>
    when.isNever = false ∧ Spec.parse expression = .ok virtual ∧ virtual.name = none ∧ when.parse = .ok condition
  | _ => False

/-- How a builder and a handle answer one request. Where the builder alone refuses, the directive
that the handle goes on to replay fails on every descriptor. -/
inductive Answered (builder : Builder) (request : Request) : Prop
  | refused {said heard : Error} (declined : request.declare builder = .error said)
    (unread : request.reading = .error heard)
  | idle (unchanged : request.declare builder = .ok builder) (nothing : request.reading = .ok none)
  | recorded (directive : Directive) (declared : request.declare builder = .ok (builder.record directive))
    (read : request.reading = .ok (some directive))
  | failing {said : Error} (directive : Directive) (declined : request.declare builder = .error said)
    (read : request.reading = .ok (some directive))
    (fails : ∀ before, Effect.written? (directive.effect builder.config) before = none)

section Answers

variable {builder : Builder} {request : Request}

/-- A handle that reads all that a builder does answers as it does, if what it reads besides fails. -/
private theorem answered_of_readings {when : Condition} {kind : DirectiveKind} {said heard : Except Error Declaration}
    (declares : request.declare builder = builder.declareWhen when kind said)
    (reads : request.reading = Program.unlessNever when heard)
    (covers : ∀ declaration, said = .ok declaration → heard = .ok declaration)
    (besides : ∀ declaration, when.isNever = false → heard = .ok declaration →
      said = .ok declaration ∨ ∀ before, Effect.written? (declaration.effect builder.config) before = none) :
    request.Answered builder := by
  rw [Builder.declareWhen] at declares
  rw [Program.unlessNever] at reads
  cases never : when.isNever with
  | true =>
    rw [never] at declares reads
    exact .idle declares reads
  | false =>
    rw [never] at declares reads
    cases said with
    | ok declaration =>
      rw [covers declaration rfl] at reads
      exact .recorded _ declares reads
    | error =>
      cases heard with
      | error => exact .refused declares reads
      | ok declaration => exact .failing _ declares reads ((besides declaration never rfl).resolve_left nofun)

private theorem answered_version (text : String) (metadata : Metadata) : (version text metadata).Answered builder := by
  cases parsed : Version.parse text with
  | error => exact .refused (by rw [declare, Builder.version, parsed]; rfl) (by rw [reading, parsed]; rfl)
  | ok => exact .recorded _ (by rw [declare, Builder.version, parsed]; rfl) (by rw [reading, parsed]; rfl)

/-- A target without a name is read by the handle and refused where it is recorded. -/
private theorem answered_dependsOn {target : String} {when : Condition} {asked : Option TypeRequest}
    {types : DependencyTypes}
    (fits : builder.readTypes asked = .ok types) : (dependsOn target when asked types).Answered builder := by
  refine answered_of_readings rfl rfl ?covers ?besides
  case covers =>
    intro declaration said
    obtain ⟨spec, parsed, said⟩ := bind_eq_ok.mp said
    obtain ⟨condition, read, said⟩ := bind_eq_ok.mp said
    obtain ⟨_, again, said⟩ := bind_eq_ok.mp said
    cases fits.symm.trans again
    cases said
    exact bind_eq_ok.mpr ⟨spec, (Builder.readTarget_eq_ok_iff.mp parsed).1, bind_eq_ok.mpr ⟨condition, read, rfl⟩⟩
  case besides =>
    intro declaration _ heard
    obtain ⟨spec, parsed, heard⟩ := bind_eq_ok.mp heard
    obtain ⟨condition, read, heard⟩ := bind_eq_ok.mp heard
    cases heard
    cases named : spec.name with
    | some name =>
      refine .inl (bind_eq_ok.mpr ⟨spec, Builder.readTarget_eq_ok_iff.mpr ⟨parsed, by rw [named]; rfl⟩, ?_⟩)
      exact bind_eq_ok.mpr ⟨condition, read, bind_eq_ok.mpr ⟨types, fits, rfl⟩⟩
    | none =>
      -- the builder would have refused the target; here it takes the replay to do so
      refine .inr fun before => ?_
      rw [Declaration.effect_eq_atOnce, Declaration.atOnce, Effect.written?_ofUpdate, DependencyDeclaration.record, targetName, named]
      rfl

private theorem answered_provides {expression : String} {when : Condition}
    (named : ∀ virtual condition, ¬ (provides expression when).Unnamed virtual condition) :
    (provides expression when).Answered builder := by
  refine answered_of_readings rfl rfl ?covers ?besides
  case covers =>
    intro declaration said
    obtain ⟨virtuals, parsed, said⟩ := bind_eq_ok.mp said
    obtain ⟨condition, read, said⟩ := bind_eq_ok.mp said
    cases said
    obtain ⟨virtual, target, rest⟩ := bind_eq_ok.mp parsed
    cases rest
    exact bind_eq_ok.mpr ⟨virtual, (Builder.readTarget_eq_ok_iff.mp target).1, bind_eq_ok.mpr ⟨condition, read, rfl⟩⟩
  case besides =>
    intro declaration enabled heard
    obtain ⟨virtual, parsed, heard⟩ := bind_eq_ok.mp heard
    obtain ⟨condition, read, heard⟩ := bind_eq_ok.mp heard
    cases heard
    cases unnamed : virtual.name with
    | none => exact absurd ⟨enabled, parsed, unnamed, read⟩ (named virtual condition)
    | some name =>
      have target := Builder.readTarget_eq_ok_iff.mpr ⟨parsed, by rw [unnamed]; rfl⟩
      refine .inl (bind_eq_ok.mpr ⟨[virtual], ?_, bind_eq_ok.mpr ⟨condition, read, rfl⟩⟩)
      rw [List.mapM_cons]
      exact bind_eq_ok.mpr ⟨virtual, target, rfl⟩

theorem answered (fits : request.Fits builder) (named : ∀ virtual condition, ¬ request.Unnamed virtual condition) :
    request.Answered builder := by
  cases request with
  | version text metadata => exact answered_version text metadata
  | dependsOn => exact answered_dependsOn fits
  | conflicts => exact answered_of_readings rfl rfl (fun _ => id) fun _ _ => .inl
  | provides => exact answered_provides named

private theorem fields_of_reading {directive : Directive} (read : request.reading = .ok (some directive)) :
    directive.fields = OrderedSet.ofList request.kind.fields := by
  cases request with
  | version text metadata =>
    obtain ⟨version, _, same⟩ := map_eq_ok.mp read
    cases same
    rfl
  | dependsOn | conflicts | provides =>
    rw [reading, Program.unlessNever] at read
    split at read
    next => cases read
    next =>
      obtain ⟨declaration, heard, same⟩ := map_eq_ok.mp read
      cases same
      obtain ⟨_, _, heard⟩ := bind_eq_ok.mp heard
      obtain ⟨_, _, heard⟩ := bind_eq_ok.mp heard
      cases heard
      rfl

def handled (config : Config) (request : Request) (before : Descriptor) : Option Descriptor :=
  request.reading.toOption.bind fun asked =>
    asked.elim (some before) fun directive => Effect.written? (directive.effect config) before

private theorem written?_custom {kind : CustomKind} {number : Nat} {config : Config}
    (declares : ∀ field ∈ request.kind.fields, kind.fields.contains field = true) :
    Effect.written? ((Directive.custom kind number request.program).effect config) = request.handled config := by
  funext before
  rw [Directive.effect, program_eq, handled]
  cases read : request.reading with
  | error => rfl
  | ok asked =>
    cases asked with
    | none => rfl
    | some directive =>
      have admitted : directive.missingField? kind = none := by
        refine List.find?_eq_none.mpr fun field member => ?_
        rw [fields_of_reading read, OrderedSet.mem_toList_ofList] at member
        simp [declares field member]
      unfold Effect.written?
      rw [Program.request, Program.run_replay_admitted config admitted]
      rfl

def built (builder : Builder) (request : Request) : Option Descriptor :=
  (request.declare builder).toOption.bind Builder.descriptor?

theorem Answered.built_eq (answered : request.Answered builder)
    (fresh : ∀ directive, request.declare builder = .ok (builder.record directive) → builder.Fresh directive) :
    request.built builder = builder.descriptor?.bind (request.handled builder.config) := by
  unfold built handled
  cases answered with
  | refused declined unread =>
    rw [declined, unread]
    exact (Option.bind_fun_none _).symm
  | idle unchanged nothing =>
    rw [unchanged, nothing]
    exact (Option.bind_fun_some _).symm
  | recorded directive declared read =>
    rw [declared, read]
    exact Builder.descriptor?_record (fresh directive declared)
  | failing directive declined read fails =>
    rw [declined, read]
    simp only [Except.toOption, Option.bind_some, Option.bind_none, Option.elim_some, fails, Option.bind_fun_none]

section Nameless

variable {virtual : Spec} {condition : Option Spec} (unnamed : request.Unnamed virtual condition)
include unnamed

private theorem declare_of_unnamed : (request.declare builder).isOk = false := by
  cases request with
  | version | dependsOn | conflicts => cases unnamed
  | provides expression when =>
    obtain ⟨enabled, parsed, nameless, _⟩ := unnamed
    have refused : Builder.readTarget expression = .error (.spec expression .packageNameExpected) := by
      rw [Builder.readTarget, parsed]
      exact if_neg (by rw [nameless]; nofun)
    rw [declare, Builder.provides, Builder.declareWhen, enabled, List.mapM_cons, refused]
    rfl

private theorem handled_of_unnamed (config : Config) (before : Descriptor) :
    request.handled config before = (anchorCondition condition before.name).toOption.map fun anchored =>
      { before with provided := provideUnder anchored before.provided virtual } := by
  cases request with
  | version | dependsOn | conflicts => cases unnamed
  | provides expression when =>
    obtain ⟨enabled, parsed, nameless, read⟩ := unnamed
    have heard : (provides expression when).reading = .ok (some (.declared (.provides ⟨[virtual], condition⟩))) := by
      rw [reading, Program.unlessNever, enabled, parsed, read]
      rfl
    rw [handled, heard]
    exact ProvisionDeclaration.written?_of_unnamed nameless condition before

end Nameless

/-- A request made of a builder and the same request made of the handle of a custom action,
each anew, fail both or make the same descriptor. Only a virtual package without a name
is refused by the builder and provided by the custom action. -/
theorem handle_agrees_with_builder {kind : CustomKind} {number : Nat} (fits : request.Fits builder)
    (declares : ∀ field ∈ request.kind.fields, kind.fields.contains field = true)
    (fresh : ∀ directive, request.declare builder = .ok (builder.record directive) → builder.Fresh directive)
    (freshAction : builder.Fresh (.custom kind number request.program)) :
    ((∀ virtual condition, ¬ request.Unnamed virtual condition) →
      request.built builder = (builder.record (.custom kind number request.program)).descriptor?) ∧
    ∀ virtual condition, request.Unnamed virtual condition →
      (request.declare builder).isOk = false ∧
      (builder.record (.custom kind number request.program)).descriptor? =
        builder.descriptor?.bind fun before => (anchorCondition condition before.name).toOption.map fun anchored =>
          { before with provided := provideUnder anchored before.provided virtual } := by
  rw [Builder.descriptor?_record freshAction, written?_custom declares]
  constructor
  · exact fun named => (answered fits named).built_eq fresh
  · intro virtual condition unnamed
    exact ⟨declare_of_unnamed unnamed, Option.bind_congr fun before _ => handled_of_unnamed unnamed builder.config before⟩

end Answers

def provider : CustomKind :=
  ⟨"provider", OrderedSet.ofList [.provided]⟩

theorem provided_virtual_agrees : ∃ descriptor,
    (provides "mpi@3:" (.expression "+mpi")).built (.new "app" .standard) = some descriptor ∧
      ((Builder.new "app" .standard).record
        (.custom provider 0 (provides "mpi@3:" (.expression "+mpi")).program)).descriptor? = some descriptor := by
  have agrees := (@handle_agrees_with_builder (.new "app" .standard) (provides "mpi@3:" (.expression "+mpi"))
    provider 0 trivial (by decide +kernel) (fun _ _ => rfl) rfl).1
  have built : ((provides "mpi@3:" (.expression "+mpi")).built (.new "app" .standard)).isSome = true := by decide +kernel
  obtain ⟨descriptor, found⟩ := Option.isSome_iff_exists.mp built
  refine ⟨descriptor, found, (agrees ?_).symm.trans found⟩
  rintro virtual condition ⟨_, parsed, unnamed, _⟩
  have named : (Spec.parse "mpi@3:").toOption.bind (·.name) = some "mpi" := by decide +kernel
  rw [parsed] at named
  exact nomatch unnamed.symm.trans named

/-- A variant alone is refused as a virtual package by the builder and provided by the handle. -/
theorem handle_can_disagree_with_builder :
    ¬ ∀ builder request kind number, Request.Fits builder request →
      (∀ field ∈ request.kind.fields, kind.fields.contains field = true) →
      (∀ directive, request.declare builder = .ok (builder.record directive) → builder.Fresh directive) →
      builder.Fresh (.custom kind number request.program) →
      request.built builder = (builder.record (.custom kind number request.program)).descriptor? := by
  intro agrees
  have same := agrees (.new "app" .standard) (provides "+mpi" .always) provider 0 trivial
    (by decide +kernel) (fun _ _ => rfl) rfl
  have refused : ((provides "+mpi" .always).built (.new "app" .standard)).isSome = false := by decide +kernel
  have accepted : ((Builder.new "app" .standard).record
      (.custom provider 0 (provides "+mpi" .always).program)).descriptor?.isSome = true := by decide +kernel
  rw [same, accepted] at refused
  cases refused

end Request

end PackageRecipes
