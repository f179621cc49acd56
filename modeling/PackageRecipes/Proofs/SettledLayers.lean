import PackageRecipes.Proofs.Inheritance

/-! Finished layers solve the equations that the recipes of a set state: each layer is
what declaring its recipe upon its finished bases gives. Without cycles two such
solutions agree wherever both have a layer, so it does not matter which driver has
finished it, nor what else it has finished before. -/

namespace PackageRecipes.RecipeSet
open Relation

variable {set : RecipeSet} {name base : String} {finished first second : FinishedLayers} {builder : Builder}
  {layer : Layer}

/-- Each layer that is there is what declaring its recipe upon the layers there gives. -/
def Settled (set : RecipeSet) (finished : FinishedLayers) : Prop :=
  ∀ name layer, finished.find? name = some layer →
    ∃ builder, set.declare finished name = .ok builder ∧ builder.finish = layer

/-- The recipe and all that it inherits from declare their directives without a fault. -/
def Declares (set : RecipeSet) (name : String) : Prop :=
  ∀ owner, ReflTransGen set.Inherits name owner → (set.ownDirectives owner).isOk = true

theorem Declares.inherited (declares : set.Declares name) (edge : set.Inherits name base) : set.Declares base :=
  fun owner path => declares owner (.head edge path)

section Lookups

private theorem inheritAll_congr {names : List String} (same : ∀ base ∈ names, first.find? base = second.find? base)
    (builder : Builder) : inheritAll first names builder = inheritAll second names builder := by
  induction names generalizing builder with
  | nil => rfl
  | cons head rest ih =>
    have here := same head List.mem_cons_self
    have later := ih fun base listed => same base (List.mem_cons_of_mem head listed)
    simp only [inheritAll, List.foldlM_cons, here]
    cases second.find? head with
    | none => rfl
    | some layer => exact later (builder.inherit layer)

theorem declare_congr (same : ∀ base, set.Inherits name base → first.find? base = second.find? base) :
    set.declare first name = set.declare second name := by
  unfold declare
  cases found : set.recipes.find? name with
  | none => rfl
  | some placed =>
    have listed : ∀ base ∈ placed.recipe.bases, first.find? base = second.find? base :=
      fun base member => same base ⟨placed, found, member⟩
    simp only [inheritAll_congr listed]

theorem present_of_declare (run : set.declare finished name = .ok builder) (edge : set.Inherits name base) :
    finished.contains base = true := by
  obtain ⟨placed, own, found, _, bases, _⟩ := declare_eq_ok run
  obtain ⟨placed', found', listed⟩ := edge
  cases found.symm.trans found'
  have present : finished.find? base ∈ builder.bases.map some := bases ▸ List.mem_map_of_mem listed
  obtain ⟨layer, _, here⟩ := List.mem_map.mp present
  exact Option.isSome_iff_exists.mpr ⟨layer, here.symm⟩

end Lookups

theorem settled_empty (set : RecipeSet) : set.Settled .empty :=
  fun _ _ none => nomatch none

/-- A recipe that is new to the layers can be declared upon them and then join them, as
none of them has it as a base. -/
theorem Settled.insert (settled : set.Settled finished) (new : ¬ finished.contains name = true)
    (run : set.declare finished name = .ok builder) : set.Settled (finished.insert name builder.finish) := by
  have unchanged : ∀ other declared, set.declare finished other = .ok declared →
      set.declare (finished.insert name builder.finish) other = .ok declared := by
    intro other declared earlier
    rw [← earlier]
    refine declare_congr fun base edge => ?_
    have present := present_of_declare earlier edge
    rw [finished.find?_insert, if_neg]
    intro same
    rw [Std.LawfulEqOrd.eq_of_compare same] at present
    exact new present
  refine finished.forall_insert (fun other layer present => ?_) fun other same => ?_
  · obtain ⟨declared, earlier, finishes⟩ := settled other layer present
    exact ⟨declared, unchanged other declared earlier, finishes⟩
  · rw [Std.LawfulEqOrd.eq_of_compare same]
    exact ⟨builder, unchanged name builder run, rfl⟩

theorem Settled.declares (settled : set.Settled finished) (present : finished.contains name = true) :
    set.Declares name := by
  intro owner path
  induction path using ReflTransGen.head_induction_on with
  | refl =>
    obtain ⟨layer, present⟩ := Option.isSome_iff_exists.mp present
    obtain ⟨builder, run, _⟩ := settled owner layer present
    obtain ⟨_, own, _, declared, _⟩ := declare_eq_ok run
    exact isOk_iff.mpr ⟨own, declared⟩
  | head edge _ ih =>
    obtain ⟨layer, present⟩ := Option.isSome_iff_exists.mp present
    obtain ⟨builder, run, _⟩ := settled _ layer present
    exact ih (present_of_declare run edge)

/-- What can be declared upon settled layers has declared, with all that it inherits from. -/
theorem Settled.declares_of_declare (settled : set.Settled finished) (run : set.declare finished name = .ok builder) :
    set.Declares name := by
  intro owner path
  rcases path.cases_head with rfl | ⟨base, edge, path⟩
  · obtain ⟨_, own, _, declared, _⟩ := declare_eq_ok run
    exact isOk_iff.mpr ⟨own, declared⟩
  · exact settled.declares (present_of_declare run edge) owner path

theorem Valid.founded (valid : set.Valid) (name : String) : Acc (fun base name => set.Inherits name base) name := by
  obtain ⟨graph, planned, _⟩ := valid.sorted
  have acyclic : graph.Acyclic := by
    rw [LayerGraph.Acyclic, graph_inherits_eq planned]
    exact valid.acyclic
  have founded := LayerGraph.acc_inherits (closed_graph planned) acyclic name
  rw [graph_inherits_eq planned] at founded
  exact founded

/-- Two solutions agree on every layer that both have. -/
theorem Settled.find?_eq (valid : set.Valid) (one : set.Settled first) (other : set.Settled second)
    (here : first.contains name = true) (there : second.contains name = true) : first.find? name = second.find? name := by
  induction valid.founded name with
  | intro name _ ih =>
    obtain ⟨layer, here⟩ := Option.isSome_iff_exists.mp here
    obtain ⟨layer', there⟩ := Option.isSome_iff_exists.mp there
    obtain ⟨builder, run, rfl⟩ := one name layer here
    obtain ⟨builder', run', rfl⟩ := other name layer' there
    have bases : ∀ base, set.Inherits name base → first.find? base = second.find? base := fun base edge =>
      ih base edge (present_of_declare run edge) (present_of_declare run' edge)
    have same : builder = builder' := by
      rw [declare_congr bases, run'] at run
      exact (Except.ok.inj run).symm
    rw [here, there, same]

theorem Settled.declare_eq (valid : set.Valid) (one : set.Settled first) (other : set.Settled second)
    (here : ∀ base, set.Inherits name base → first.contains base = true)
    (there : ∀ base, set.Inherits name base → second.contains base = true) :
    set.declare first name = set.declare second name :=
  declare_congr fun base edge => one.find?_eq valid other (here base edge) (there base edge)

theorem Settled.foldlM {names : List String} {after : FinishedLayers} (settled : set.Settled finished)
    (distinct : names.Nodup) (new : ∀ name ∈ names, ¬ finished.contains name = true)
    (run : names.foldlM set.finishNext finished = .ok after) :
    set.Settled after ∧ ∀ name, name ∈ names ∨ finished.contains name = true → after.contains name = true := by
  induction names generalizing finished with
  | nil =>
    cases run
    exact ⟨settled, fun name member => member.elim nofun id⟩
  | cons head rest ih =>
    rw [List.foldlM_cons, bind_eq_ok] at run
    obtain ⟨next, stepped, run⟩ := run
    obtain ⟨builder, declared, written⟩ := bind_eq_ok.mp stepped
    cases written
    obtain ⟨fresh, distinct⟩ := List.nodup_cons.mp distinct
    have written : ∀ name, (finished.insert head builder.finish).contains name = true ↔
        name = head ∨ finished.contains name = true := fun name => finished.contains_upsert
    have later : ∀ name ∈ rest, ¬ (finished.insert head builder.finish).contains name = true := by
      intro name member
      rw [written]
      rintro (rfl | earlier)
      · exact fresh member
      · exact new name (List.mem_cons_of_mem head member) earlier
    obtain ⟨settled, present⟩ := ih (settled.insert (new head List.mem_cons_self) declared) distinct later run
    refine ⟨settled, fun name member => present name ?_⟩
    rcases member with member | earlier
    · rcases List.mem_cons.mp member with same | behind
      · exact .inr ((written name).mpr (.inl same))
      · exact .inl behind
    · exact .inr ((written name).mpr (.inr earlier))

section Building

theorem valid_of_finishBases (run : set.finishBases name = .ok finished) : set.Valid := by
  obtain ⟨graph, planned, run⟩ := bind_eq_ok.mp run
  obtain ⟨order, sorted, _⟩ := bind_eq_ok.mp run
  exact valid_of_sorted planned sorted

theorem settled_finishBases (run : set.finishBases name = .ok finished) :
    set.Settled finished ∧ ∀ base, TransGen set.Inherits name base → finished.contains base = true := by
  obtain ⟨graph, planned, run⟩ := bind_eq_ok.mp run
  obtain ⟨order, sorted, run⟩ := bind_eq_ok.mp run
  have listed := (LayerGraph.perm_of_sorted sorted).2
  have distinct := (listed.nodup_iff.mpr graph.nodup_layers).filter (graph.ancestors name).contains
  obtain ⟨settled, present⟩ := (settled_empty set).foldlM distinct (fun _ _ => nofun) run
  refine ⟨settled, fun base path => present base (.inl (List.mem_filter.mpr ⟨?_, ?_⟩))⟩
  · obtain ⟨heir, _, edge⟩ := TransGen.tail'_iff.mp path
    rw [← graph_inherits_eq planned] at edge
    exact listed.mem_iff.mpr (closed_graph planned heir base edge)
  · rwa [LayerGraph.contains_ancestors_iff, graph_inherits_eq planned]

/-- Upon settled layers that have its bases, a recipe is declared as it is upon those that
are finished for it alone. -/
theorem Valid.bind_finishBases {α : Type} (valid : set.Valid) (settled : set.Settled finished)
    (present : ∀ base, set.Inherits name base → finished.contains base = true) (next : Builder → Except Error α) :
    (set.finishBases name >>= fun finished => set.declare finished name >>= next) =
      set.declare finished name >>= next := by
  have declares : ∀ base, TransGen set.Inherits name base → (set.ownDirectives base).isOk = true := by
    intro owner path
    obtain ⟨base, edge, path⟩ := TransGen.head'_iff.mp path
    exact settled.declares (present base edge) owner path
  obtain ⟨alone, run, _⟩ := valid.finishBases_succeeds declares
  obtain ⟨settledAlone, there⟩ := settled_finishBases run
  have same := settledAlone.declare_eq valid settled (fun base edge => there base (.single edge)) present
  calc (set.finishBases name >>= fun finished => set.declare finished name >>= next)
    _ = set.declare alone name >>= next := by rw [run]; rfl
    _ = set.declare finished name >>= next := by rw [same]

theorem Valid.finishedLayer_eq (valid : set.Valid) (settled : set.Settled finished)
    (present : finished.find? name = some layer) : set.finishedLayer name = .ok layer := by
  obtain ⟨builder, run, rfl⟩ := settled name layer present
  have alone := valid.bind_finishBases settled (fun base => present_of_declare run) fun builder => .ok builder.finish
  rw [run] at alone
  rw [RecipeSet.finishedLayer_eq]
  exact alone

end Building

end PackageRecipes.RecipeSet
