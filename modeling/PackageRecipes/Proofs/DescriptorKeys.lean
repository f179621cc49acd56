import PackageRecipes.Proofs.DependencyGrouping
import PackageRecipes.Proofs.DistinctTexts
import PackageRecipes.Proofs.Inheritance
import PackageRecipes.RecipeSet

/-! The expressions that the maps of a package's descriptor are keyed by. They have been read
from recipes or are conditions anchored on a word, the name of the package or of one that
it requires, so all of them can be told apart by their texts. -/

namespace PackageRecipes
open Item

section Maps

variable {κ α : Type} [Ord κ] {holds : κ → Prop} {map : OrderedMap κ α}

abbrev OrderedMap.KeyedBy (holds : κ → Prop) (map : OrderedMap κ α) : Prop :=
  map.All fun key _ => holds key

theorem OrderedMap.KeyedBy.upsert [Std.TransOrd κ] (keyed : map.KeyedBy holds) {key : κ} (new : holds key)
    (update : Option α → α) : (map.upsert key update).KeyedBy holds :=
  All.upsert keyed new fun _ _ _ => id

end Maps

theorem Spec.IsRead.written {spec : Spec} (read : spec.IsRead) : spec.Written :=
  read.elim fun _ => written_of_parse

private theorem written_of_anchorCondition {when : Option Spec} {owner : String} {condition : Spec}
    (word : IsWord owner)
    (read : ∀ spec ∈ when, spec.IsRead) (run : anchorCondition when owner = .ok condition) : condition.Written := by
  cases when with
  | none =>
    cases run
    exact Spec.written_named word
  | some spec => exact (read spec rfl).written.anchor word run

def Declaration.expressions : Declaration → List Spec
  | version _ | variant _ => []
  | dependsOn declared => declared.target :: (declared.when.toList ++ declared.patches.filterMap (·.when))
  | extending declared => declared.target :: declared.when.toList
  | conflicts declared => declared.conflict :: declared.when.toList
  | provides declared => declared.virtuals ++ declared.when.toList
  | patch declared => declared.when.toList
  | resource declared => declared.when.toList

def Declaration.IsRead (declaration : Declaration) : Prop :=
  ∀ spec ∈ declaration.expressions, spec.IsRead

inductive Directive.IsRead : Directive → Prop where
  | declared {declaration : Declaration} (read : declaration.IsRead) : IsRead (.declared declaration)

/-- Requirements on one package with the conditions they and their patches are under. -/
abbrev WrittenRequirements (required : OrderedMap Spec Dependency) : Prop :=
  required.All fun condition dependency => condition.Written ∧ dependency.patches.KeyedBy Spec.Written

namespace Descriptor

/-- The name is a word, and the expressions that maps are keyed by are made of words. -/
structure Written (descriptor : Descriptor) : Prop where
  name : IsWord descriptor.name
  dependencies : descriptor.dependencies.All fun _ required => WrittenRequirements required
  conflicts : descriptor.conflicts.KeyedBy Spec.Written
  provided : descriptor.provided.KeyedBy Spec.Written
  patches : descriptor.patches.KeyedBy Spec.Written
  resources : descriptor.resources.KeyedBy Spec.Written

theorem Written.empty {name : String} (word : IsWord name) : (Descriptor.empty name).Written where
  name := word
  dependencies := OrderedMap.all_empty _
  conflicts := OrderedMap.all_empty _
  provided := OrderedMap.all_empty _
  patches := OrderedMap.all_empty _
  resources := OrderedMap.all_empty _

end Descriptor

section Effects

variable {before after : Descriptor}

private theorem Dependency.keyedBy_of_merge {left right both : Dependency} (first : left.patches.KeyedBy Spec.Written)
    (second : right.patches.KeyedBy Spec.Written) (run : left.merge right = .ok both) :
    both.patches.KeyedBy Spec.Written := by
  obtain ⟨_, _, rfl⟩ := merge_eq_ok run
  refine List.foldlRecOn right.patches.entries _ first fun patches keyed entry member => ?_
  exact OrderedMap.KeyedBy.upsert keyed (second entry member) _

theorem WrittenRequirements.insert {required : OrderedMap Spec Dependency} {condition : Spec}
    {dependency merged : Dependency} (all : WrittenRequirements required) (written : condition.Written)
    (keyed : dependency.patches.KeyedBy Spec.Written)
    (merges : dependency.mergedOnto (required.find? condition) = .ok merged) :
    WrittenRequirements (required.insert condition merged) := by
  have both : merged.patches.KeyedBy Spec.Written :=
    Dependency.holds_mergedOnto Dependency.keyedBy_of_merge (fun entry member => (all entry member).2) keyed merges
  exact OrderedMap.All.upsert all ⟨written, both⟩ fun _ _ _ earlier => ⟨earlier.1, both⟩

private theorem DependencyDeclaration.keyedBy_dependency {requirement : DependencyDeclaration} {target : String}
    {dependency : Dependency} (word : IsWord target)
    (read : ∀ patch ∈ requirement.patches, ∀ spec ∈ patch.when, spec.IsRead)
    (run : requirement.dependency target = .ok dependency) : dependency.patches.KeyedBy Spec.Written := by
  refine foldlM_preserves (fun dependency : Dependency => dependency.patches.KeyedBy Spec.Written) ?_
    (OrderedMap.all_empty _) run
  intro before patch after member keyed added
  obtain ⟨condition, created, anchored, _, rfl⟩ := DependencyPatch.addTo_eq_ok_iff.mp added
  exact OrderedMap.KeyedBy.upsert keyed (written_of_anchorCondition word (read patch member) anchored) _

private theorem DependencyDeclaration.written_of_record {requirement : DependencyDeclaration}
    (read : (Declaration.dependsOn requirement).IsRead) (written : before.Written)
    (run : requirement.record before = .ok after) : after.Written := by
  obtain ⟨target, condition, dependency, merged, named, _, anchored, made, merges, rfl⟩ := record_eq_ok run
  obtain ⟨aim, conditions⟩ := List.forall_mem_cons.mp read
  obtain ⟨own, others⟩ := List.forall_mem_append.mp conditions
  have patches : ∀ patch ∈ requirement.patches, ∀ spec ∈ patch.when, spec.IsRead := fun patch member spec present =>
    others spec (List.mem_filterMap.mpr ⟨patch, member, present⟩)
  have condition := written_of_anchorCondition written.name (fun spec present => own spec (by simpa using present)) anchored
  have keyed := keyedBy_dependency (aim.written.node.name target named) patches made
  have required : WrittenRequirements ((before.dependencies.find? target).getD .empty) := by
    cases found : before.dependencies.find? target with
    | none => exact OrderedMap.all_empty _
    | some required =>
      obtain ⟨_, _, all⟩ := written.dependencies.find? found
      exact all
  have added := required.insert condition keyed merges
  exact { written with dependencies := written.dependencies.upsert added fun _ _ _ _ => added }

private theorem ProvisionDeclaration.written_recordAll {condition : Spec} {virtuals : List Spec} {before : Descriptor}
    (read : ∀ virtual ∈ virtuals, virtual.IsRead) (written : before.Written) :
    ((recordAll condition virtuals).outcome before).2.Written := by
  induction virtuals generalizing before with
  | nil => exact written
  | cons virtual rest ih =>
    obtain ⟨first, others⟩ := List.forall_mem_cons.mp read
    rw [outcome_recordAll_cons]
    split
    next => exact written
    next => exact ih others { written with provided := written.provided.upsert first.written _ }

/-- Whatever a read declaration writes, also where it fails, it writes under expressions of
that kind. -/
theorem Declaration.written_effect (config : Config) {declaration : Declaration} (read : declaration.IsRead)
    (written : before.Written) : (declaration.effect config before).2.Written := by
  have anchored : ∀ {when : Option Spec} {condition : Spec}, (∀ spec ∈ when.toList, spec ∈ declaration.expressions) →
      anchorCondition when before.name = .ok condition → condition.Written := by
    intro when condition listed
    exact written_of_anchorCondition written.name fun spec present => read spec (listed spec (by simpa using present))
  rw [effect_eq_atOnce]
  cases declaration with
  | version declared => exact { written with }
  | dependsOn declared =>
    exact Effect.holds_ofUpdate written fun after run => DependencyDeclaration.written_of_record read written run
  | extending declared =>
    refine Effect.holds_ofUpdate written fun after run => ?_
    obtain ⟨name, next, named, recorded, outcome⟩ := ExtensionDeclaration.record_eq_ok run
    have required : (Declaration.dependsOn declared.asDependency).IsRead := by
      simpa [IsRead, expressions, ExtensionDeclaration.asDependency] using read
    have next := DependencyDeclaration.written_of_record required written recorded
    rcases outcome with ⟨_, rfl⟩ | ⟨_, rfl⟩
    · exact next
    · exact { next with }
  | conflicts declared =>
    refine Effect.holds_ofUpdate written fun after run => ?_
    obtain ⟨_, _, rfl⟩ := ConflictDeclaration.record_eq_ok run
    exact { written with conflicts := written.conflicts.upsert (read _ List.mem_cons_self).written _ }
  | provides declared =>
    rw [atOnce, ProvisionDeclaration.outcome_replay]
    split
    next =>
      have virtuals := (List.forall_mem_append.mp read).1
      exact ProvisionDeclaration.written_recordAll virtuals written
    next => exact written
  | patch declared =>
    refine Effect.holds_ofUpdate written fun after run => ?_
    obtain ⟨condition, _, anchors, _, rfl⟩ := PatchDeclaration.record_eq_ok run
    exact { written with patches := written.patches.upsert (anchored (fun _ => id) anchors) _ }
  | variant declared =>
    refine Effect.holds_ofUpdate written fun after run => ?_
    obtain ⟨_, rfl⟩ := Variant.record_eq_ok run
    exact { written with }
  | resource declared =>
    refine Effect.holds_ofUpdate written fun after run => ?_
    obtain ⟨condition, _, anchors, _, rfl⟩ := ResourceDeclaration.record_eq_ok run
    exact { written with resources := written.resources.upsert (anchored (fun _ => id) anchors) _ }

theorem Layer.written_replay (config : Config) (package : String) {actions : List Directive}
    (read : ∀ action ∈ actions, action.IsRead) {before : Descriptor} (written : before.Written) :
    (replay config package actions before).2.Written := by
  induction actions generalizing before with
  | nil => exact written
  | cons action rest ih =>
    obtain ⟨⟨first⟩, others⟩ := List.forall_mem_cons.mp read
    have next := Declaration.written_effect config first written
    rw [replay]
    split
    next stepped =>
      rw [Directive.effect] at stepped
      rw [stepped] at next
      exact ih others next
    next stepped =>
      rw [Directive.effect] at stepped
      rw [stepped] at next
      exact next

end Effects

section Recipes

variable {builder after : Builder}

namespace Builder

/-- Declaring leaves the builder as it is but for read directives that it records. -/
structure Records (before after : Builder) : Prop where
  name : after.name = before.name
  bases : after.bases = before.bases
  pending : ∀ directive ∈ after.pending, directive ∈ before.pending ∨ directive.IsRead

theorem Records.refl (builder : Builder) : builder.Records builder :=
  ⟨rfl, rfl, fun _ => .inl⟩

theorem Records.trans {middle : Builder} (early : builder.Records middle) (late : middle.Records after) :
    builder.Records after := by
  refine ⟨late.name.trans early.name, late.bases.trans early.bases, fun directive member => ?_⟩
  rcases late.pending directive member with before | read
  · exact early.pending directive before
  · exact .inr read

private theorem records_of_declare {kind : DirectiveKind} {read : Except Error Declaration}
    (reads : ∀ declaration, read = .ok declaration → declaration.IsRead) (run : builder.declare kind read = .ok after) :
    builder.Records after := by
  obtain ⟨declaration, found, rfl⟩ := declare_eq_ok_iff.mp run
  refine ⟨rfl, rfl, fun directive member => ?_⟩
  rcases List.mem_append.mp member with before | last
  · exact .inl before
  · rw [List.mem_singleton.mp last]
    exact .inr ⟨reads declaration found⟩

private theorem records_of_declareWhen {condition : Condition} {kind : DirectiveKind} {read : Except Error Declaration}
    (reads : ∀ declaration, read = .ok declaration → declaration.IsRead)
    (run : builder.declareWhen condition kind read = .ok after) : builder.Records after := by
  unfold declareWhen at run
  split at run
  next =>
    cases run
    exact .refl builder
  next => exact records_of_declare reads run

end Builder

theorem Entry.records {entry : Entry} (run : entry.declare builder = .ok after) : builder.Records after := by
  have parsed : ∀ {condition : Condition} {when : Option Spec}, condition.parse = .ok when →
      ∀ spec ∈ when.toList, spec.IsRead :=
    fun read spec listed => Condition.isRead_of_parse read spec (by simpa using listed)
  cases entry with
  | version arguments =>
    refine Builder.records_of_declare (fun declaration read => ?_) run
    obtain ⟨_, _, same⟩ := bind_eq_ok.mp read
    cases same
    exact nofun
  | variant arguments =>
    refine Builder.records_of_declare (fun declaration read => ?_) run
    split at read
    next => cases read
    next =>
      cases read
      exact nofun
  | dependsOn arguments =>
    refine Builder.records_of_declareWhen (fun declaration read => ?_) run
    obtain ⟨target, named, read⟩ := bind_eq_ok.mp read
    obtain ⟨when, condition, read⟩ := bind_eq_ok.mp read
    obtain ⟨types, _, read⟩ := bind_eq_ok.mp read
    obtain ⟨patches, patched, same⟩ := bind_eq_ok.mp read
    cases same
    refine List.forall_mem_cons.mpr ⟨Builder.isRead_of_readTarget named, ?_⟩
    refine List.forall_mem_append.mpr ⟨parsed condition, fun spec listed => ?_⟩
    obtain ⟨patch, member, present⟩ := List.mem_filterMap.mp listed
    obtain ⟨source, _, read⟩ := (mapM_eq_ok patched).2 patch member
    obtain ⟨when, condition, same⟩ := bind_eq_ok.mp read
    cases same
    exact parsed condition spec (by simpa using present)
  | extending arguments =>
    refine Builder.records_of_declareWhen (fun declaration read => ?_) run
    obtain ⟨target, named, read⟩ := bind_eq_ok.mp read
    obtain ⟨when, condition, read⟩ := bind_eq_ok.mp read
    obtain ⟨types, _, same⟩ := bind_eq_ok.mp read
    cases same
    exact List.forall_mem_cons.mpr ⟨Builder.isRead_of_readTarget named, parsed condition⟩
  | provides arguments =>
    refine Builder.records_of_declareWhen (fun declaration read => ?_) run
    obtain ⟨virtuals, named, read⟩ := bind_eq_ok.mp read
    obtain ⟨when, condition, same⟩ := bind_eq_ok.mp read
    cases same
    refine List.forall_mem_append.mpr ⟨fun virtual member => ?_, parsed condition⟩
    obtain ⟨_, _, read⟩ := (mapM_eq_ok named).2 virtual member
    exact Builder.isRead_of_readTarget read
  | conflicts arguments =>
    refine Builder.records_of_declareWhen (fun declaration read => ?_) run
    obtain ⟨conflict, conflicting, read⟩ := bind_eq_ok.mp read
    obtain ⟨when, condition, same⟩ := bind_eq_ok.mp read
    cases same
    exact List.forall_mem_cons.mpr ⟨⟨_, conflicting⟩, parsed condition⟩
  | patch arguments =>
    refine Builder.records_of_declareWhen (fun declaration read => ?_) run
    obtain ⟨when, condition, same⟩ := bind_eq_ok.mp read
    cases same
    exact parsed condition
  | resource arguments =>
    refine Builder.records_of_declareWhen (fun declaration read => ?_) run
    obtain ⟨_, _, read⟩ := bind_eq_ok.mp read
    obtain ⟨when, condition, same⟩ := bind_eq_ok.mp read
    cases same
    exact parsed condition

theorem Recipe.records {recipe : Recipe} (run : recipe.declare builder = .ok after) : builder.Records after := by
  unfold declare at run
  generalize recipe.entries = entries at run
  induction entries generalizing builder with
  | nil =>
    cases run
    exact .refl _
  | cons entry rest ih =>
    rw [declareEntries] at run
    cases first : entry.declare builder with
    | error error =>
      rw [first] at run
      cases run
    | ok next =>
      rw [first] at run
      exact (Entry.records first).trans (ih run)

end Recipes

namespace RecipeSet

variable {set : RecipeSet} {finished : FinishedLayers} {name : String} {builder : Builder}

abbrev AllRead (finished : FinishedLayers) : Prop :=
  finished.All fun _ layer => ∀ action ∈ layer.actions, action.IsRead

theorem AllRead.declare (read : AllRead finished) (run : set.declare finished name = .ok builder) :
    builder.finish.name = name ∧ ∀ action ∈ builder.finish.actions, action.IsRead := by
  rw [RecipeSet.declare] at run
  split at run
  next => cases run
  next placed found =>
    obtain ⟨start, inherited, run⟩ := bind_eq_ok.mp run
    obtain ⟨layers, all, rfl⟩ := inheritAll_eq_ok_iff.mp inherited
    have records := Recipe.records run
    refine ⟨records.name, fun action member => ?_⟩
    rw [Builder.finish, keepFirst_eq] at member
    rcases List.mem_append.mp ((firstOccurrences_sublist _).subset member) with inherited | own
    · obtain ⟨layer, base, inside⟩ := List.mem_flatMap.mp inherited
      have listed : layer ∈ layers := by simpa [records.bases, Builder.withBases, Builder.new] using base
      obtain ⟨name, _, here⟩ := List.mem_map.mp (all ▸ List.mem_map_of_mem listed)
      obtain ⟨_, _, actions⟩ := read.find? here
      exact actions action inside
    · rcases records.pending action own with none | read
      · cases none
      · exact read

theorem allRead_finishBases (run : set.finishBases name = .ok finished) : AllRead finished := by
  obtain ⟨graph, _, run⟩ := bind_eq_ok.mp run
  obtain ⟨order, _, run⟩ := bind_eq_ok.mp run
  refine foldlM_preserves AllRead (fun earlier layer later _ read step => ?_) (OrderedMap.all_empty _) run
  obtain ⟨builder, declared, same⟩ := bind_eq_ok.mp step
  cases same
  have actions := (read.declare declared).2
  exact read.upsert actions fun _ _ _ _ => actions

private theorem isIdentifier_of_readRecipe {found : FoundFile} {recipe : Recipe} {warnings : List Warning}
    (read : readRecipe found = .ok (recipe, warnings)) : isIdentifier recipe.name = true := by
  unfold readRecipe at read
  dsimp only at read
  split at read
  next => cases read
  next =>
    split at read
    next => cases read
    next recipe _ =>
      obtain ⟨_, valid, same⟩ := bind_eq_ok.mp read
      cases same
      rw [Recipe.validate] at valid
      split at valid
      next => cases valid
      next =>
        split at valid
        next => cases valid
        next identifier => simpa using identifier

/-- The recipes of a directory are called by identifiers. -/
theorem isIdentifier_of_load {files : Files} {path : String} {config : Config}
    (loaded : load files path config = .ok set) : set.recipes.KeyedBy fun name => isIdentifier name = true := by
  rw [load] at loaded
  split at loaded
  next =>
    refine foldlM_preserves (fun set : RecipeSet => set.recipes.KeyedBy fun name => isIdentifier name = true) ?_
      (OrderedMap.all_empty _) loaded
    intro earlier found later _ keyed added
    obtain ⟨⟨recipe, warnings⟩, read, inserted⟩ := bind_eq_ok.mp added
    have valid := isIdentifier_of_readRecipe read
    dsimp only at inserted
    unfold RecipeSet.insert at inserted
    split at inserted
    next => cases inserted
    next =>
      cases inserted
      exact keyed.upsert valid _
  next => cases loaded

/-- A package of such recipes has read all its directives from them. -/
theorem written_of_build {package : Package} (named : set.recipes.KeyedBy fun name => isIdentifier name = true)
    (run : set.build name = .ok package) : package.descriptor.Written := by
  obtain ⟨placed, finished, builder, found, above, declared, built⟩ := build_eq_ok run
  have word : IsWord name := by
    obtain ⟨other, same, identifier⟩ := named.find? found
    rw [Std.LawfulEqOrd.eq_of_compare same]
    exact Spec.isWord_of_isIdentifier identifier
  obtain ⟨same, actions⟩ := (allRead_finishBases above).declare declared
  have word : IsWord builder.finish.name := same.symm ▸ word
  have replayed := Layer.written_replay builder.config builder.finish.name actions (.empty word)
  rw [(Layer.build_eq_ok built).2] at replayed
  exact replayed

end RecipeSet

end PackageRecipes
