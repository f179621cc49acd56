import PackageRecipes.Proofs.DeclaredFields
import PackageRecipes.Proofs.DescriptorWrites

/-! What a built-in directive has done when it fails. Directives check all that they are
given before they write, and one that provides virtual packages alone writes in between:
those in front of the package itself stay provided when it is refused. -/

namespace PackageRecipes
open Relation

section Provisions

variable {condition : Spec} {provided : OrderedMap Spec (OrderedSet Spec)}

def providedUnder (provided : OrderedMap Spec (OrderedSet Spec)) (condition virtual : Spec) : Bool :=
  ((provided.find? virtual).getD .empty).contains condition

private theorem provideUnder_of_providedUnder {virtual : Spec}
    (already : providedUnder provided condition virtual = true) :
    provideUnder condition provided virtual = provided := by
  unfold providedUnder at already
  cases found : provided.find? virtual with
  | none =>
    rw [found] at already
    cases already
  | some conditions =>
    rw [found] at already
    obtain ⟨present, held⟩ := Option.isSome_iff_exists.mp already
    exact provided.upsert_of_find? found (conditions.insert_of_find? held)

private theorem foldl_provideUnder_eq_iff {virtuals : List Spec} :
    virtuals.foldl (provideUnder condition) provided = provided ↔
      ∀ virtual ∈ virtuals, providedUnder provided condition virtual = true := by
  constructor
  · intro unchanged virtual member
    have conditions : providedUnder (virtuals.foldl (provideUnder condition) provided) condition virtual = _ :=
      conditions_foldl_provideUnder virtual condition
    have listed : virtuals.any (compare virtual · == .eq) = true :=
      List.any_eq_true.mpr ⟨virtual, member, by simp⟩
    rw [unchanged, listed, Std.ReflOrd.compare_self] at conditions
    exact conditions.trans (Bool.or_true _)
  · intro already
    induction virtuals with
    | nil => rfl
    | cons virtual rest ih =>
      rw [List.foldl_cons, provideUnder_of_providedUnder (already virtual List.mem_cons_self)]
      exact ih fun other member => already other (List.mem_cons_of_mem _ member)

end Provisions

variable {config : Config} {before after : Descriptor} {error : Error}

theorem Effect.ofUpdate_eq_error {update : Descriptor → Except Error Descriptor}
    (run : ofUpdate update before = (.error error, after)) : after = before := by
  unfold ofUpdate at run
  cases updated : update before with
  | ok written =>
    rw [updated] at run
    cases run
  | error fault =>
    rw [updated] at run
    exact (Prod.mk.inj run).2.symm

namespace ProvisionDeclaration

def virtualsBefore (provision : ProvisionDeclaration) (package : String) : List Spec :=
  provision.virtuals.takeWhile fun virtual => !(virtual.name == some package)

private theorem recordAll_eq_error {condition : Spec} {virtuals : List Spec}
    (run : (recordAll condition virtuals).outcome before = (.error error, after)) :
    error = .selfReference (.provided before.name) ∧
      after = { before with
        provided := (virtuals.takeWhile fun virtual => !(virtual.name == some before.name)).foldl
          (provideUnder condition) before.provided } := by
  induction virtuals generalizing before with
  | nil => cases run
  | cons virtual rest ih =>
    rw [outcome_recordAll_cons] at run
    split at run
    next itself =>
      obtain ⟨fault, unchanged⟩ := Prod.mk.inj run
      rw [List.takeWhile_cons_of_neg (by simp [itself])]
      exact ⟨(Except.error.inj fault).symm, unchanged.symm⟩
    next other =>
      rw [List.takeWhile_cons_of_pos (by simp [other]), List.foldl_cons]
      exact ih run

/-- What a provision leaves when it is refused: either it has no condition on the package
to record, or it has recorded the virtual packages in front of the package itself. -/
structure Refused (provision : ProvisionDeclaration) (before after : Descriptor) (error : Error) : Prop where
  unanchored : (anchorCondition provision.when before.name).isOk = false → after = before
  recorded : ∀ condition, anchorCondition provision.when before.name = .ok condition →
    error = .selfReference (.provided before.name) ∧
      after = { before with
        provided := (provision.virtualsBefore before.name).foldl (provideUnder condition) before.provided }

private theorem refused_of_replay {provision : ProvisionDeclaration}
    (run : provision.replay.outcome before = (.error error, after)) : provision.Refused before after error := by
  rw [outcome_replay] at run
  cases anchored : anchorCondition provision.when before.name with
  | error fault =>
    rw [anchored] at run
    refine ⟨fun _ => (Prod.mk.inj run).2.symm, fun _ found => ?_⟩
    rw [anchored] at found
    cases found
  | ok condition =>
    rw [anchored] at run
    refine ⟨fun failed => ?_, fun other found => ?_⟩
    · rw [anchored] at failed
      cases failed
    · obtain rfl := Except.ok.inj (anchored.symm.trans found)
      exact recordAll_eq_error run

/-- Nothing is left behind where each virtual package that was recorded had been provided
under the condition already. -/
theorem Refused.unchanged_iff {provision : ProvisionDeclaration} (refused : provision.Refused before after error) :
    after = before ↔ ∀ condition, anchorCondition provision.when before.name = .ok condition →
      ∀ virtual ∈ provision.virtualsBefore before.name, providedUnder before.provided condition virtual = true := by
  cases anchored : anchorCondition provision.when before.name with
  | error fault => exact iff_of_true (refused.unanchored (by rw [anchored]; rfl)) nofun
  | ok condition =>
    obtain ⟨_, written⟩ := refused.recorded condition anchored
    have same : after = before ↔
        (provision.virtualsBefore before.name).foldl (provideUnder condition) before.provided = before.provided := by
      rw [written]
      exact ⟨congrArg Descriptor.provided, fun unchanged => by rw [unchanged]⟩
    rw [same, foldl_provideUnder_eq_iff]
    exact ⟨fun already _ found => Except.ok.inj found ▸ already, fun already => already condition rfl⟩

end ProvisionDeclaration

namespace Declaration

variable {declaration : Declaration}

theorem unchanged_of_error (other : declaration.kind ≠ .provides)
    (run : declaration.effect config before = (.error error, after)) : after = before := by
  rw [effect_eq_atOnce] at run
  cases declaration with
  | provides => exact absurd rfl other
  | version | dependsOn | extending | conflicts | patch | variant | resource =>
    rw [atOnce] at run
    exact Effect.ofUpdate_eq_error run

/-- A directive that fails leaves the descriptor as it was, unless it provides virtual
packages and itself: then those in front of the package stay, and nothing else has changed.
A custom action that goes on after the failure goes on from there. -/
theorem failed_directive_keeps_descriptor (run : declaration.effect config before = (.error error, after)) :
    (declaration.kind ≠ .provides → after = before) ∧
    (∀ provision, declaration = .provides provision →
      provision.Refused before after error ∧
      (after = before ↔ ∀ condition, anchorCondition provision.when before.name = .ok condition →
        ∀ virtual ∈ provision.virtualsBefore before.name, providedUnder before.provided condition virtual = true)) ∧
    ∀ kind next, (Directive.declared declaration).missingField? kind = none →
      (Program.replay (.declared declaration) next).run config kind before =
        (next (.error error)).run config kind after := by
  refine ⟨fun other => unchanged_of_error other run, ?_, fun kind next admitted => ?_⟩
  · rintro provision rfl
    have refused := ProvisionDeclaration.refused_of_replay run
    exact ⟨refused, refused.unchanged_iff⟩
  · rw [Program.run_replay_admitted config admitted, Directive.effect, run]

def virtualAndItself : Declaration :=
  .provides ⟨[.named "mpi", .named "app"], none⟩

theorem virtualAndItself_leaves_virtual :
    ∃ error after, virtualAndItself.effect .standard (.empty "app") = (.error error, after) ∧
      after.provided.keys = [.named "mpi"] ∧
      ProvisionDeclaration.Refused ⟨[.named "mpi", .named "app"], none⟩ (.empty "app") after error := by
  have run : virtualAndItself.effect .standard (.empty "app") =
      (.error (.selfReference (.provided "app")), (virtualAndItself.effect .standard (.empty "app")).2) := rfl
  obtain ⟨_, provision, _⟩ := failed_directive_keeps_descriptor run
  exact ⟨_, _, run, rfl, (provision _ rfl).1⟩

/-- So a failure can change a descriptor, even one that nothing was replayed upon. -/
theorem failed_directive_can_change_descriptor :
    ¬ ∀ config package before declaration error after,
      ReflTransGen Descriptor.Replayed (.empty package) before →
      Declaration.effect config declaration before = (.error error, after) → after = before := by
  intro unchanged
  have kept : (virtualAndItself.effect .standard (.empty "app")).2 = .empty "app" :=
    unchanged .standard "app" _ virtualAndItself _ _ .refl rfl
  have provided := congrArg (fun descriptor => descriptor.provided.size) kept
  cases provided

end Declaration

end PackageRecipes
