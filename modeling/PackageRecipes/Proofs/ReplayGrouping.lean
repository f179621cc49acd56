import PackageRecipes.Builder
import PackageRecipes.Proofs.DependencyGrouping

/-! Replaying directives one after the other arrives at the grouping of them all. Each
directive adds itself to the fields it writes and leaves the others as they are. -/

namespace PackageRecipes

theorem Grouped.step {package : String} {declared : Declarations} {config : Config} {declaration : Declaration}
    {before after : Descriptor} (grouped : Grouped package declared before)
    (run : declaration.effect config before = (.ok (), after)) :
    Grouped package (declared.add declaration) after := by
  have name := grouped.name
  rw [Declaration.effect_eq_atOnce] at run
  cases declaration with
  | version version =>
    obtain rfl : version.record before = after := congrArg Prod.snd run
    exact { grouped with versions := grouped.versions.insert version }
  | dependsOn requirement =>
    obtain ⟨dependencies, rfl, recorded⟩ :=
      DependencyDeclaration.grouped_record name grouped.dependencies (Effect.ofUpdate_eq_ok run)
    exact { grouped with dependencies := recorded }
  | extending extension =>
    obtain ⟨target, next, named, required, outcome⟩ :=
      ExtensionDeclaration.record_eq_ok (Effect.ofUpdate_eq_ok run)
    obtain ⟨dependencies, rfl, recorded⟩ :=
      DependencyDeclaration.grouped_record name grouped.dependencies required
    rcases outcome with ⟨⟨existing, extended, other⟩, rfl⟩ | ⟨only, rfl⟩
    · exact { grouped with
        dependencies := recorded
        extendees := grouped.extendees.ignore named extended other }
    · exact { grouped with
        dependencies := recorded
        extendees := grouped.extendees.extend named only }
  | conflicts conflict =>
    obtain ⟨condition, anchored, rfl⟩ := ConflictDeclaration.record_eq_ok (Effect.ofUpdate_eq_ok run)
    rw [name] at anchored
    have recorded : conflict.recorded package = .ok ⟨condition, conflict.message⟩ := by
      rw [ConflictDeclaration.recorded, anchored]
      rfl
    refine { grouped with conflicts := grouped.conflicts.upsert conflict rfl recorded ?_ ?_ }
    · intro values
      rw [firstOccurrences_concat, List.any_beq', getD_listed]
    · intro values
      exact firstOccurrences_ne_nil (by simp)
  | provides provision =>
    obtain ⟨provided, rfl, recorded⟩ := grouped.provided.provide name run
    exact { grouped with provided := recorded }
  | patch patch =>
    obtain ⟨condition, created, anchored, made, rfl⟩ := PatchDeclaration.record_eq_ok (Effect.ofUpdate_eq_ok run)
    rw [name] at anchored made
    exact { grouped with patches := grouped.patches.push patch anchored made }
  | variant variant =>
    obtain ⟨_, rfl⟩ := Variant.record_eq_ok (Effect.ofUpdate_eq_ok run)
    exact { grouped with variants := grouped.variants.insert variant }
  | resource resource =>
    obtain ⟨condition, strategy, anchored, chosen, rfl⟩ := ResourceDeclaration.record_eq_ok (Effect.ofUpdate_eq_ok run)
    rw [name] at anchored
    have recorded : resource.recorded =
        .ok ⟨resource.name, strategy, resource.destination, resource.placement⟩ := by
      rw [ResourceDeclaration.recorded, chosen]
      rfl
    exact { grouped with resources := grouped.resources.push resource anchored recorded }

theorem Grouped.replay {package owner : String} {declared : Declarations} {config : Config}
    {declarations : List Declaration} {before after : Descriptor} (grouped : Grouped package declared before)
    (run : Layer.replay config owner (declarations.map .declared) before = (.ok (), after)) :
    Grouped package (declarations.foldl Declarations.add declared) after := by
  induction declarations generalizing declared before with
  | nil =>
    cases run
    exact grouped
  | cons declaration rest ih =>
    rw [List.map_cons, Layer.replay] at run
    split at run
    next written stepped =>
      rw [Directive.effect] at stepped
      exact ih (grouped.step stepped) run
    next => cases run

theorem Layer.build_eq_ok {layer : Layer} {config : Config} {package : Package}
    (run : layer.build config = .ok package) :
    package.layer = layer ∧
      Layer.replay config layer.name layer.actions (.empty layer.name) = (.ok (), package.descriptor) := by
  rw [build] at run
  split at run
  next descriptor replayed =>
    cases run
    exact ⟨rfl, replayed⟩
  next => cases run

/-- A package built from built-in directives alone is described by their grouping. -/
theorem build_groups {builder : Builder} {declarations : List Declaration} {package : Package}
    (builtIn : builder.finish.actions = declarations.map .declared) (run : builder.build = .ok package) :
    Grouped builder.name (.ofList declarations) package.descriptor := by
  obtain ⟨_, replayed⟩ := Layer.build_eq_ok run
  rw [builtIn] at replayed
  exact (Grouped.empty builder.name).replay replayed

theorem merged_requirements_group :
    let early : DependencyDeclaration := ⟨.named "zlib", none, ⟨true, false, false⟩, []⟩
    let late : DependencyDeclaration :=
      ⟨.named "zlib", none, ⟨false, true, false⟩, [⟨"fix.patch", 1, none, .none, none⟩]⟩
    let extension : ExtensionDeclaration := ⟨.named "python", none, .all, .empty⟩
    let declarations : List Declaration := [.dependsOn early, .extending extension, .dependsOn late]
    let builder : Builder := { Builder.new "app" .standard with pending := declarations.map .declared }
    ∃ package, builder.build = .ok package ∧ Grouped "app" (.ofList declarations) package.descriptor := by
  intro early late extension declarations builder
  have built : builder.build.isOk = true := by decide +kernel
  obtain ⟨package, run⟩ := isOk_iff.mp built
  exact ⟨package, run, build_groups rfl run⟩

end PackageRecipes
