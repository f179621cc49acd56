import PackageRecipes.Directive.Handle
import PackageRecipes.Proofs.DependencyGrouping

/-! The fields that a directive declares bound what it does to a descriptor. A built-in
one keeps to the fields of its kind. A custom one is refused every directive that
needs more than it has declared itself, so the bound passes through any nesting. -/

namespace PackageRecipes

instance : Std.LawfulEqOrd Field where
  eq_of_compare {left right} same := by
    have position : left.position = right.position := Std.LawfulEqOrd.eq_of_compare (α := Nat) same
    cases left <;> cases right <;> first | rfl | cases position

namespace Descriptor

variable {field : Field} {before middle after : Descriptor}

def Same (before after : Descriptor) : Field → Prop
  | .versions => after.versions = before.versions
  | .dependencies => after.dependencies = before.dependencies
  | .conflicts => after.conflicts = before.conflicts
  | .provided => after.provided = before.provided
  | .variants => after.variants = before.variants
  | .patches => after.patches = before.patches
  | .resources => after.resources = before.resources
  | .extendees => after.extendees = before.extendees

theorem Same.refl (descriptor : Descriptor) (field : Field) : descriptor.Same descriptor field := by
  cases field <;> rfl

theorem Same.trans (early : before.Same middle field) (late : middle.Same after field) : before.Same after field := by
  cases field <;> exact Eq.trans late early

def withFields (descriptor source : Descriptor) (fields : List Field) : Descriptor where
  name := descriptor.name
  versions := if .versions ∈ fields then source.versions else descriptor.versions
  dependencies := if .dependencies ∈ fields then source.dependencies else descriptor.dependencies
  conflicts := if .conflicts ∈ fields then source.conflicts else descriptor.conflicts
  provided := if .provided ∈ fields then source.provided else descriptor.provided
  variants := if .variants ∈ fields then source.variants else descriptor.variants
  patches := if .patches ∈ fields then source.patches else descriptor.patches
  resources := if .resources ∈ fields then source.resources else descriptor.resources
  extendees := if .extendees ∈ fields then source.extendees else descriptor.extendees

private theorem same_withFields {fields : List Field} (source : Descriptor) (other : field ∉ fields) :
    before.Same (before.withFields source fields) field := by
  cases field <;> exact if_neg other

structure ChangesOnly (fields : FieldSet) (before after : Descriptor) : Prop where
  name : after.name = before.name
  others : ∀ field, fields.contains field = false → before.Same after field

theorem ChangesOnly.refl (fields : FieldSet) (descriptor : Descriptor) : descriptor.ChangesOnly fields descriptor :=
  ⟨rfl, fun field _ => .refl descriptor field⟩

theorem ChangesOnly.trans {fields : FieldSet} (early : before.ChangesOnly fields middle)
    (late : middle.ChangesOnly fields after) : before.ChangesOnly fields after :=
  ⟨late.name.trans early.name, fun field other => (early.others field other).trans (late.others field other)⟩

theorem ChangesOnly.mono {fields more : FieldSet} (changes : before.ChangesOnly fields after)
    (declared : ∀ field, fields.contains field = true → more.contains field = true) : before.ChangesOnly more after := by
  refine ⟨changes.name, fun field other => changes.others field ?_⟩
  rw [← Bool.not_eq_true] at other ⊢
  exact fun needed => other (declared field needed)

/-- A descriptor that differs from the one before in the listed fields at most. -/
private theorem changesOnly_of_eq {fields : List Field} (same : after = before.withFields after fields) :
    before.ChangesOnly (OrderedSet.ofList fields) after := by
  refine ⟨by rw [same]; rfl, fun field other => ?_⟩
  have unlisted : field ∉ fields := by
    intro listed
    rw [OrderedSet.mem_toList_iff.mp (OrderedSet.mem_toList_ofList.mpr listed)] at other
    cases other
  rw [same]
  exact same_withFields after unlisted

end Descriptor

section Effects
open Descriptor

variable {before after : Descriptor}

private theorem DependencyDeclaration.eq_of_record {requirement : DependencyDeclaration}
    (run : requirement.record before = .ok after) : after = { before with dependencies := after.dependencies } := by
  obtain ⟨_, _, _, _, _, _, _, _, _, rfl⟩ := record_eq_ok run
  rfl

/-- Virtual packages recorded before one that is refused stay recorded. -/
private theorem ProvisionDeclaration.eq_recordAll (condition : Spec) (virtuals : List Spec) (before : Descriptor) :
    ((recordAll condition virtuals).outcome before).2 =
      { before with provided := ((recordAll condition virtuals).outcome before).2.provided } := by
  induction virtuals generalizing before with
  | nil => rfl
  | cons virtual rest ih =>
    rw [outcome_recordAll_cons]
    split
    next => rfl
    next => rw [ih]

/-- A built-in directive writes to no field but those listed for its kind. -/
theorem Declaration.changesOnly (config : Config) (declaration : Declaration) (before : Descriptor) :
    before.ChangesOnly (OrderedSet.ofList declaration.kind.fields) (declaration.effect config before).2 := by
  rw [effect_eq_atOnce]
  cases declaration with
  | version declared => exact changesOnly_of_eq rfl
  | dependsOn declared =>
    refine Effect.holds_ofUpdate (.refl _ before) fun after run => ?_
    rw [DependencyDeclaration.eq_of_record run]
    exact changesOnly_of_eq rfl
  | extending declared =>
    refine Effect.holds_ofUpdate (.refl _ before) fun after run => ?_
    obtain ⟨name, next, _, recorded, outcome⟩ := ExtensionDeclaration.record_eq_ok run
    rw [DependencyDeclaration.eq_of_record recorded] at outcome
    rcases outcome with ⟨_, rfl⟩ | ⟨_, rfl⟩
    · exact changesOnly_of_eq rfl
    · exact changesOnly_of_eq rfl
  | conflicts declared =>
    refine Effect.holds_ofUpdate (.refl _ before) fun after run => ?_
    obtain ⟨_, _, rfl⟩ := ConflictDeclaration.record_eq_ok run
    exact changesOnly_of_eq rfl
  | provides declared =>
    rw [atOnce, ProvisionDeclaration.outcome_replay]
    split
    next =>
      rw [ProvisionDeclaration.eq_recordAll]
      exact changesOnly_of_eq rfl
    next => exact .refl _ before
  | patch declared =>
    refine Effect.holds_ofUpdate (.refl _ before) fun after run => ?_
    obtain ⟨_, _, _, _, rfl⟩ := PatchDeclaration.record_eq_ok run
    exact changesOnly_of_eq rfl
  | variant declared =>
    refine Effect.holds_ofUpdate (.refl _ before) fun after run => ?_
    obtain ⟨_, rfl⟩ := Variant.record_eq_ok run
    exact changesOnly_of_eq rfl
  | resource declared =>
    refine Effect.holds_ofUpdate (.refl _ before) fun after run => ?_
    obtain ⟨_, _, _, _, rfl⟩ := ResourceDeclaration.record_eq_ok run
    exact changesOnly_of_eq rfl

section Guard

variable {kind : CustomKind} {directive : Directive} {field : Field}

/-- Where no field is missing, the directive replayed has declared nothing that the one
replaying it has not. -/
theorem Directive.declared_of_missingField? (complete : directive.missingField? kind = none)
    (needed : directive.fields.contains field = true) : kind.fields.contains field = true := by
  simpa using List.find?_eq_none.mp complete field (OrderedSet.mem_toList_iff.mpr needed)

private theorem Directive.exists_missingField? (needed : directive.fields.contains field = true)
    (undeclared : kind.fields.contains field = false) :
    ∃ missing, directive.missingField? kind = some missing ∧ directive.fields.contains missing = true ∧
      kind.fields.contains missing = false := by
  cases found : directive.missingField? kind with
  | none =>
    rw [declared_of_missingField? found needed] at undeclared
    cases undeclared
  | some missing =>
    have member := OrderedSet.mem_toList_iff.mp (List.mem_of_find?_eq_some found)
    exact ⟨missing, rfl, member, by simpa using List.find?_some found⟩

private theorem Program.run_replay_refused (config : Config) {missing : Field}
    (found : directive.missingField? kind = some missing) (next : Except Error Unit → Program) (before : Descriptor) :
    (replay directive next).run config kind before =
      (next (.error (.directiveConfig (.fieldUndeclared kind.name missing.name directive.name)))).run config kind
        before := by
  simp only [run, found]

theorem Program.run_replay_admitted (config : Config) (complete : directive.missingField? kind = none)
    (next : Except Error Unit → Program) (before : Descriptor) :
    (replay directive next).run config kind before =
      (next (directive.effect config before).1).run config kind (directive.effect config before).2 := by
  simp only [run, complete]

end Guard

mutual

/-- No directive changes a field that it has not declared. -/
theorem Directive.changesOnly (config : Config) :
    ∀ (directive : Directive) (before : Descriptor),
      before.ChangesOnly directive.fields (directive.effect config before).2
  | .declared declaration, before => declaration.changesOnly config before
  | .custom kind _ action, before => action.changesOnly config kind before

theorem Program.changesOnly (config : Config) (kind : CustomKind) :
    ∀ (program : Program) (before : Descriptor), before.ChangesOnly kind.fields (program.run config kind before).2
  | .finish _, before => .refl kind.fields before
  | .inspect next, before => (next before).changesOnly config kind before
  | .replay directive next, before => by
    cases found : directive.missingField? kind with
    | some missing =>
      rw [Program.run_replay_refused config found]
      exact (next _).changesOnly config kind before
    | none =>
      rw [Program.run_replay_admitted config found]
      have replayed := (directive.changesOnly config before).mono fun _ => Directive.declared_of_missingField? found
      exact replayed.trans ((next _).changesOnly config kind _)

end

/-- Whether it succeeds or fails, a directive leaves the name of the package and all
fields that it has not declared as they were. One that needs a field which the custom
directive replaying it has not declared fails, naming such a field, and changes nothing. -/
theorem effects_keep_to_declared_fields (config : Config) (directive : Directive) (before : Descriptor) :
    before.ChangesOnly directive.fields (directive.effect config before).2 ∧
      ∀ kind : CustomKind,
        (∃ field, directive.fields.contains field = true ∧ kind.fields.contains field = false) →
        ∃ missing, directive.fields.contains missing = true ∧ kind.fields.contains missing = false ∧
          let refusal := Error.directiveConfig (.fieldUndeclared kind.name missing.name directive.name)
          (Program.replay directive .finish).run config kind before = (.error refusal, before) ∧
          ∀ next, (Program.replay directive next).run config kind before =
            (next (.error refusal)).run config kind before := by
  refine ⟨directive.changesOnly config before, ?_⟩
  rintro kind ⟨field, needed, undeclared⟩
  obtain ⟨missing, found, inside, outside⟩ := Directive.exists_missingField? needed undeclared
  have refused := Program.run_replay_refused config found
  exact ⟨missing, inside, outside, refused .finish before, fun next => refused next before⟩

/-- Replays a custom directive that needs a requirement and is refused it, but goes on to
record a conflict. -/
def insistent : Directive :=
  .custom ⟨"outer", .ofList [.conflicts]⟩ 0 <|
    .replay (.custom ⟨"inner", .ofList [.conflicts]⟩ 1 <|
      .dependsOn "zlib" .always .all fun _ => .conflicts "app%gcc" .always none .finish) .finish

theorem insistent_records_conflict_alone :
    let (outcome, descriptor) := insistent.effect .standard (.empty "app")
    outcome.isOk = true ∧ descriptor.conflicts.size = 1 ∧ descriptor.dependencies.size = 0 ∧
      (Descriptor.empty "app").ChangesOnly (.ofList [.conflicts]) descriptor :=
  ⟨by decide +kernel, by decide +kernel, by decide +kernel,
    (effects_keep_to_declared_fields .standard insistent (.empty "app")).1⟩

end Effects

end PackageRecipes
