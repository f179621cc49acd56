import PackageRecipes.Proofs.GraphHistories
import PackageRecipes.Proofs.Outcome
import PackageRecipes.RecipeSet

/-! The inheritance graph of a set has the edges that its recipes name, and there is one
if every base is a recipe of the set. -/

namespace PackageRecipes.RecipeSet
open Relation

variable {set : RecipeSet} {graph : LayerGraph} {name base : String}

def Inherits (set : RecipeSet) (name base : String) : Prop :=
  ∃ placed, set.recipes.find? name = some placed ∧ base ∈ placed.recipe.bases

instance : Decidable (set.Inherits name base) :=
  decidable_of_iff ((set.recipes.find? name).any fun placed => placed.recipe.bases.contains base) <| by
    simp [Inherits, Option.any_eq_true]

/-- All bases are known and none leads back to its heir. -/
structure Valid (set : RecipeSet) : Prop where
  known : ∀ name base, set.Inherits name base → set.recipes.contains base = true
  acyclic : ∀ name, ¬ TransGen set.Inherits name name

def graphStep (set : RecipeSet) (graph : LayerGraph) (entry : String × PlacedRecipe) : Except Error LayerGraph :=
  match set.missingBase? entry.2.recipe with
  | some base => .error (.recipeMissing (.base base entry.1))
  | none => .ok (graph.add entry.1 entry.2.recipe.bases)

theorem inherits_iff :
    set.Inherits name base ↔ ∃ entry ∈ set.recipes.entries, entry.1 = name ∧ base ∈ entry.2.recipe.bases := by
  constructor
  · rintro ⟨placed, found, listed⟩
    obtain ⟨entry, member, same, rfl⟩ := set.recipes.find?_eq_some_iff.mp found
    exact ⟨entry, member, (Std.LawfulEqOrd.eq_of_compare same).symm, listed⟩
  · rintro ⟨entry, member, rfl, listed⟩
    exact ⟨entry.2, set.recipes.find?_of_mem member, listed⟩

private theorem graphStep_eq_ok_iff {entry : String × PlacedRecipe} {after : LayerGraph} :
    set.graphStep graph entry = .ok after ↔
      (∀ base ∈ entry.2.recipe.bases, set.recipes.contains base = true) ∧
        after = graph.add entry.1 entry.2.recipe.bases := by
  have complete : set.missingBase? entry.2.recipe = none ↔
      ∀ base ∈ entry.2.recipe.bases, set.recipes.contains base = true := by
    simp [missingBase?, List.find?_eq_none]
  rw [graphStep, ← complete]
  cases set.missingBase? entry.2.recipe <;> simp [eq_comm]

private theorem foldlM_graphStep_eq_ok_iff {entries : List (String × PlacedRecipe)} {after : LayerGraph} :
    entries.foldlM set.graphStep graph = .ok after ↔
      (∀ entry ∈ entries, ∀ base ∈ entry.2.recipe.bases, set.recipes.contains base = true) ∧
        after = entries.foldl (fun graph entry => graph.add entry.1 entry.2.recipe.bases) graph := by
  induction entries generalizing graph with
  | nil => exact ⟨fun run => ⟨nofun, (Except.ok.inj run).symm⟩, fun both => both.2 ▸ rfl⟩
  | cons entry rest ih =>
    rw [List.foldlM_cons, bind_eq_ok, List.forall_mem_cons, List.foldl_cons]
    simp only [graphStep_eq_ok_iff, ih, and_assoc, exists_and_left, exists_eq_left]

def calls (set : RecipeSet) : List (String × List String) :=
  set.recipes.entries.map fun entry => (entry.1, entry.2.recipe.bases)

private theorem introduces_calls : LayerGraph.Introduces set.calls = set.Inherits := by
  funext name base
  refine propext (Iff.trans ?_ inherits_iff.symm)
  simp only [LayerGraph.Introduces, calls, List.mem_map, exists_exists_and_eq_and, @eq_comm String name]

theorem graph_eq_ok_iff :
    set.graph = .ok graph ↔
      (∀ name base, set.Inherits name base → set.recipes.contains base = true) ∧ graph = .ofCalls set.calls := by
  rw [calls, LayerGraph.ofCalls, List.foldl_map]
  refine foldlM_graphStep_eq_ok_iff.trans (and_congr_left fun _ => ?_)
  constructor
  · intro known name base edge
    obtain ⟨entry, member, _, listed⟩ := inherits_iff.mp edge
    exact known entry member base listed
  · exact fun known entry member base listed => known entry.1 base (inherits_iff.mpr ⟨entry, member, rfl, listed⟩)

theorem graph_inherits_eq (run : set.graph = .ok graph) : graph.Inherits = set.Inherits := by
  obtain ⟨_, rfl⟩ := graph_eq_ok_iff.mp run
  rw [LayerGraph.inherits_eq, introduces_calls]

theorem closed_graph (run : set.graph = .ok graph) : graph.Closed := by
  obtain ⟨_, rfl⟩ := graph_eq_ok_iff.mp run
  exact LayerGraph.closed_ofCalls set.calls

theorem mem_layers_iff (run : set.graph = .ok graph) :
    name ∈ graph.layers ↔ set.recipes.contains name = true := by
  obtain ⟨known, rfl⟩ := graph_eq_ok_iff.mp run
  rw [LayerGraph.mem_layers_ofCalls]
  constructor
  · rintro ⟨call, listing, mentioned⟩
    obtain ⟨entry, member, rfl⟩ := List.mem_map.mp listing
    rcases mentioned with rfl | listed
    · rw [OrderedMap.contains, set.recipes.find?_of_mem member]
      rfl
    · exact known entry.1 name (inherits_iff.mpr ⟨entry, member, rfl, listed⟩)
  · intro present
    obtain ⟨placed, found⟩ := Option.isSome_iff_exists.mp present
    obtain ⟨entry, member, same, _⟩ := set.recipes.find?_eq_some_iff.mp found
    exact ⟨_, List.mem_map_of_mem member, .inl (Std.LawfulEqOrd.eq_of_compare same)⟩

theorem valid_of_sorted {order : List String} (run : set.graph = .ok graph) (sorted : graph.sorted = .ok order) :
    set.Valid :=
  ⟨(graph_eq_ok_iff.mp run).1, graph_inherits_eq run ▸ LayerGraph.acyclic_of_sorted sorted⟩

theorem Valid.sorted (valid : set.Valid) :
    ∃ graph, set.graph = .ok graph ∧ graph.sorted = .ok graph.finishOrder := by
  have run := graph_eq_ok_iff.mpr ⟨valid.known, rfl⟩
  have acyclic : (LayerGraph.ofCalls set.calls).Acyclic := by
    rw [LayerGraph.Acyclic, graph_inherits_eq run]
    exact valid.acyclic
  exact ⟨_, run, LayerGraph.sorted_of_acyclic (closed_graph run) acyclic⟩

/-- Ways up from a recipe of a valid set stay in the set. -/
theorem Valid.mem_names (valid : set.Valid) (member : name ∈ set.names) (path : ReflTransGen set.Inherits name base) :
    base ∈ set.names := by
  cases path with
  | refl => exact member
  | tail _ edge => exact set.recipes.mem_keys_iff.mpr (valid.known _ _ edge)

end PackageRecipes.RecipeSet
