import PackageRecipes.CommandLine.Run
import PackageRecipes.Proofs.DescriptorKeys

/-! Names in the documents of packages. A map becomes an object under the texts of its keys,
which loses nothing as long as different keys have different texts. The texts of
expressions are such, and so are those of versions, which are read back. -/

namespace PackageRecipes

namespace Json

/-- No object, at any depth, has two members of one name. -/
inductive Unambiguous : Json → Prop where
  | null : Unambiguous null
  | boolean (value : Bool) : Unambiguous (boolean value)
  | number (value : Nat) : Unambiguous (number value)
  | string (text : String) : Unambiguous (string text)
  | array {items : List Json} (each : ∀ item ∈ items, Unambiguous item) : Unambiguous (array items)
  | object {members : List (String × Json)} (distinct : (members.map (·.1)).Nodup)
      (each : ∀ member ∈ members, Unambiguous member.2) : Unambiguous (object members)

attribute [simp] Unambiguous.null Unambiguous.boolean Unambiguous.number Unambiguous.string

@[simp]
theorem unambiguous_optional (text : Option String) : (optional text).Unambiguous := by
  cases text with
  | none => exact .null
  | some text => exact .string text

end Json

section Maps

open Json

variable {κ α : Type} [Ord κ] {keyText : κ → String} {document : α → Json} {map : OrderedMap κ α}

/-- Keys that are told apart by their texts have different ones. -/
theorem nodup_texts (told : ∀ key ∈ map.keys, ∀ other ∈ map.keys, keyText key = keyText other → compare key other = .eq) :
    (map.keys.map keyText).Nodup := by
  rw [List.Nodup, List.pairwise_map, OrderedMap.keys, List.pairwise_map]
  refine map.increasing.imp_of_mem fun member present less same => ?_
  rw [told _ (List.mem_map_of_mem member) _ (List.mem_map_of_mem present) same] at less
  cases less

private theorem Version.compare_of_text {left right : Version} (same : left.text = right.text) :
    compare left right = .eq := by
  obtain ⟨_, first, read⟩ := left
  obtain ⟨text, second, again⟩ := right
  cases same
  cases read.symm.trans again
  exact @Std.ReflCmp.compare_self _ (compareOn Version.segments) _ _

private theorem compare_of_text {map : OrderedMap Spec α} (written : map.KeyedBy Spec.Written) :
    ∀ key ∈ map.keys, ∀ other ∈ map.keys, key.text = other.text → compare key other = .eq := by
  intro key member other present same
  obtain ⟨entry, listed, rfl⟩ := List.mem_map.mp member
  obtain ⟨another, there, rfl⟩ := List.mem_map.mp present
  exact Std.LawfulBEqOrd.compare_eq_iff_beq.mpr ((written entry listed).beq_of_text (written another there) same)

private theorem unambiguous_mapDocument
    (told : ∀ key ∈ map.keys, ∀ other ∈ map.keys, keyText key = keyText other → compare key other = .eq)
    (each : ∀ entry ∈ map.entries, (document entry.2).Unambiguous) : (mapDocument keyText document map).Unambiguous := by
  refine .object ?_ (List.forall_mem_map.mpr each)
  have distinct := nodup_texts told
  rw [OrderedMap.keys, List.map_map] at distinct
  rwa [List.map_map]

private theorem unambiguous_listDocument {items : List α} (each : ∀ item, (document item).Unambiguous) :
    (listDocument document items).Unambiguous :=
  .array (List.forall_mem_map.mpr fun item _ => each item)

private theorem unambiguous_of_names {map : OrderedMap String α}
    (each : ∀ entry ∈ map.entries, (document entry.2).Unambiguous) :
    (mapDocument id document map).Unambiguous :=
  unambiguous_mapDocument (fun _ _ _ _ => Std.LawfulEqCmp.compare_eq_iff_eq.mpr) each

private theorem unambiguous_of_versions {map : OrderedMap Version α}
    (each : ∀ entry ∈ map.entries, (document entry.2).Unambiguous) : (mapDocument Version.text document map).Unambiguous :=
  unambiguous_mapDocument (fun _ _ _ _ => Version.compare_of_text) each

private theorem unambiguous_of_written {map : OrderedMap Spec α} (written : map.KeyedBy Spec.Written)
    (each : ∀ entry ∈ map.entries, (document entry.2).Unambiguous) : (mapDocument Spec.text document map).Unambiguous :=
  unambiguous_mapDocument (compare_of_text written) each

end Maps

section Parts

open Json

@[simp]
theorem Metadata.unambiguous (metadata : Metadata) : (document metadata).Unambiguous :=
  unambiguous_of_names fun _ _ => .string _

@[simp]
theorem DependencyTypes.unambiguous (types : DependencyTypes) : types.document.Unambiguous :=
  unambiguous_listDocument fun _ => .string _

@[simp]
theorem Patch.unambiguous (patch : Patch) : patch.document.Unambiguous := by
  unfold document
  refine .object (by simp) ?_
  cases patch.source <;> simp [Unambiguous.object]

theorem PatchMap.unambiguous {patches : PatchMap} (written : patches.KeyedBy Spec.Written) :
    (document patches).Unambiguous :=
  unambiguous_of_written written fun _ _ => unambiguous_listDocument Patch.unambiguous

theorem Dependency.unambiguous {dependency : Dependency} (written : dependency.patches.KeyedBy Spec.Written) :
    dependency.document.Unambiguous :=
  .object (by simp) (by simp [PatchMap.unambiguous written])

theorem Conflict.unambiguous (conflict : Conflict) : conflict.document.Unambiguous :=
  .object (by simp) (by simp)

theorem Variant.unambiguous (variant : Variant) : variant.document.Unambiguous := by
  unfold document
  refine .object (by simp) ?_
  cases variant.default <;> simp

@[simp]
theorem Checksum.unambiguous (checksum : Checksum) : checksum.document.Unambiguous := by
  cases checksum <;> exact .object (by simp) (by simp)

@[simp]
theorem GitReference.unambiguous (reference : GitReference) : reference.document.Unambiguous := by
  cases reference with
  | head => exact .string _
  | _ => exact .object (by simp) (by simp)

@[simp]
theorem FetchStrategy.unambiguous (strategy : FetchStrategy) : strategy.document.Unambiguous := by
  cases strategy with
  | url location checksum expand =>
    refine .object (by simp) ?_
    cases checksum <;> simp
  | _ => exact .object (by simp) (by simp)

theorem Resource.unambiguous (resource : Resource) : resource.document.Unambiguous :=
  .object (by simp) (by simp)

/-- The document of a descriptor that is keyed by expressions made of words. -/
theorem Descriptor.Written.unambiguous {descriptor : Descriptor} (written : descriptor.Written) :
    descriptor.document.Unambiguous := by
  refine .object (by simp) ?_
  simp only [List.forall_mem_cons]
  refine ⟨.string _, unambiguous_of_versions ?versions, unambiguous_of_names ?dependencies,
    unambiguous_of_written written.conflicts ?conflicts, unambiguous_of_written written.provided ?provided,
    unambiguous_of_names ?variants, PatchMap.unambiguous written.patches,
    unambiguous_of_written written.resources ?resources, unambiguous_of_names ?extendees, nofun⟩
  case versions => exact fun entry _ => Metadata.unambiguous entry.2
  case dependencies =>
    intro entry member
    have required := written.dependencies entry member
    exact unambiguous_of_written (fun other listed => (required other listed).1)
      fun other listed => Dependency.unambiguous (required other listed).2
  case conflicts => exact fun _ _ => unambiguous_listDocument Conflict.unambiguous
  case provided => exact fun _ _ => unambiguous_listDocument fun _ => .string _
  case variants => exact fun entry _ => entry.2.unambiguous
  case resources => exact fun _ _ => unambiguous_listDocument Resource.unambiguous
  case extendees => exact fun _ _ => .array (by simp)

end Parts

namespace Spec

/-- Expressions made with identifiers for owners are equal if their texts are. Hence no two
keys of a map come under one name, and in the document of a package that is built from a
directory of recipes no object has two members of one name. -/
theorem texts_tell_expressions_apart :
    (∀ left right : Spec, left.OwnedByIdentifiers → right.OwnedByIdentifiers → left.text = right.text →
      (left == right) = true) ∧
    (∀ (α : Type) (map : OrderedMap Spec α), (∀ key ∈ map.keys, key.OwnedByIdentifiers) → (map.keys.map text).Nodup) ∧
    ∀ (files : Files) (directory : String) (config : Config) (set : RecipeSet) (name : String) (lines : List String),
      RecipeSet.load files directory config = .ok set → CommandLine.describe set name true = .ok lines →
      ∃ package, set.build name = .ok package ∧ lines = package.descriptor.document.lines ∧
        package.descriptor.document.Unambiguous := by
  refine ⟨?_, ?_, ?_⟩
  · intro left right first second same
    exact first.written.beq_of_text second.written same
  · intro α map owned
    exact nodup_texts (compare_of_text fun entry member => (owned entry.1 (List.mem_map_of_mem member)).written)
  · intro files directory config set name lines loaded run
    obtain ⟨package, built, same⟩ := bind_eq_ok.mp run
    have written := RecipeSet.written_of_build (RecipeSet.isIdentifier_of_load loaded) built
    exact ⟨package, built, (Except.ok.inj same).symm, written.unambiguous⟩

/-- A directory with one recipe, of a package with two conflicts whose texts are close. -/
def closeConflicts : FileTree :=
  let recipe := "[package]\nname = \"app\"\n" ++
    "[[conflicts]]\nspec = \"zlib mode=true\"\n[[conflicts]]\nspec = \"zlib mode=true,\"\n"
  .directory [("recipes", .directory [("app.toml", .file (.ok recipe))])]

/-- What a stray comma makes of the word of a switch is one value however it is made, and
is not taken for the switch. -/
theorem stray_commas_are_told_apart :
    (∃ left right other, (do (← parse "app@1.0").constrain (← parse "app mode=true,")) = .ok left ∧
      anonymous "@1.0 mode=true," "app" = .ok right ∧ left.text = right.text ∧ (left == right) = true ∧
      parse "app@1.0 mode=true" = .ok other ∧ (((OrderedMap.empty.insert left 1).insert other 2).keys.map text).Nodup) ∧
    ∃ set package lines, RecipeSet.load closeConflicts.find "recipes" .standard = .ok set ∧
      set.build "app" = .ok package ∧ package.descriptor.conflicts.size = 2 ∧
      CommandLine.describe set "app" true = .ok lines ∧ lines = package.descriptor.document.lines ∧
      package.descriptor.document.Unambiguous := by
  constructor
  · have checked : (do
        let first ← parse "app@1.0"
        let second ← parse "app mode=true,"
        let left ← first.constrain second
        let right ← anonymous "@1.0 mode=true," "app"
        let _ ← parse "app@1.0 mode=true"
        return left.text = right.text : Except Error Bool).toOption = some true := by decide +kernel
    obtain ⟨first, read, run⟩ := bind_eq_ok.mp (toOption_eq_some.mp checked)
    obtain ⟨second, readSecond, run⟩ := bind_eq_ok.mp run
    obtain ⟨left, narrowed, run⟩ := bind_eq_ok.mp run
    obtain ⟨right, owned, run⟩ := bind_eq_ok.mp run
    obtain ⟨other, readOther, run⟩ := bind_eq_ok.mp run
    have same : left.text = right.text := of_decide_eq_true (Except.ok.inj run)
    have made : left.OwnedByIdentifiers := .constrained (.parsed read) (.parsed readSecond) narrowed
    have keyed : ((OrderedMap.empty.insert left 1).insert other 2).KeyedBy OwnedByIdentifiers :=
      OrderedMap.KeyedBy.upsert (OrderedMap.KeyedBy.upsert (OrderedMap.all_empty _) made _) (.parsed readOther) _
    have equal := texts_tell_expressions_apart.1 left right made (.anonymous (by decide) owned) same
    have apart := texts_tell_expressions_apart.2.1 Nat _ (List.forall_mem_map.mpr keyed)
    refine ⟨left, right, other, ?_, owned, same, equal, readOther, apart⟩
    rw [read, readSecond]
    exact narrowed
  · have checked : (do
        let set ← RecipeSet.load closeConflicts.find "recipes" .standard
        let graph ← set.graph
        let _ ← graph.sorted
        let builder ← set.declare .empty "app"
        let package ← builder.build
        return (set.get? "app").any (fun recipe => recipe.isAbstract = false) ∧ graph.basesOf "app" = [] ∧
          package.descriptor.conflicts.size = 2 : Except Error Bool).toOption = some true := by decide +kernel
    obtain ⟨set, loaded, run⟩ := bind_eq_ok.mp (toOption_eq_some.mp checked)
    obtain ⟨graph, drawn, run⟩ := bind_eq_ok.mp run
    obtain ⟨order, sorted, run⟩ := bind_eq_ok.mp run
    obtain ⟨builder, declared, run⟩ := bind_eq_ok.mp run
    obtain ⟨package, built, run⟩ := bind_eq_ok.mp run
    obtain ⟨held, bases, size⟩ := of_decide_eq_true (Except.ok.inj run)
    obtain ⟨recipe, found, kind⟩ := (Option.any_eq_true _ _).mp held
    have first : set.finishBases "app" = .ok .empty := by
      have none : (graph.ancestors "app").contains = fun _ => false := by
        rw [LayerGraph.ancestors, bases, LayerGraph.reach]
        rfl
      rw [RecipeSet.finishBases_of_sorted drawn sorted, none, List.filter_false]
      rfl
    have alone : set.build "app" = .ok package := by
      rw [RecipeSet.build_eq found (of_decide_eq_true kind), first]
      exact bind_eq_ok.mpr ⟨.empty, rfl, bind_eq_ok.mpr ⟨builder, declared, built⟩⟩
    have run : CommandLine.describe set "app" true = .ok package.descriptor.document.lines := by
      rw [CommandLine.describe, alone]
      rfl
    obtain ⟨again, same, lines, unambiguous⟩ := texts_tell_expressions_apart.2.2 _ _ _ set "app" _ loaded run
    cases alone.symm.trans same
    exact ⟨set, package, _, loaded, alone, size, run, lines, unambiguous⟩

end Spec

end PackageRecipes
