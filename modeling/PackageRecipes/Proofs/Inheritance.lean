import PackageRecipes.Proofs.Ancestry
import PackageRecipes.Proofs.FirstOccurrences
import PackageRecipes.Proofs.OwnDirectives
import PackageRecipes.Proofs.RecipeGraph
import PackageRecipes.Proofs.ReplayGrouping

/-! A finished layer holds what it and all layers above it declare, each directive once,
along however many ways it is inherited. -/

namespace PackageRecipes.RecipeSet
open Relation

variable {set : RecipeSet} {name : String} {finished : FinishedLayers}

/-- The layer's actions are, up to equality, the directives declared by the recipe and by
all that it inherits from, and no two of them are equal. -/
structure InheritsExactly (set : RecipeSet) (name : String) (layer : Layer) : Prop where
  complete : ∀ action, layer.actions.any (· == action) = true ↔
    ∃ owner own, ReflTransGen set.Inherits name owner ∧ set.ownDirectives owner = .ok own ∧
      own.any (· == action) = true
  distinct : layer.actions.Pairwise fun first second => (first == second) = false

def AllExact (set : RecipeSet) (finished : FinishedLayers) : Prop :=
  ∀ name layer, finished.find? name = some layer → set.InheritsExactly name layer

private theorem allExact_empty (set : RecipeSet) : set.AllExact .empty :=
  fun _ _ none => nomatch none

theorem any_finish_actions (builder : Builder) (action : Directive) :
    builder.finish.actions.any (· == action) =
      (builder.bases.any (fun layer => layer.actions.any (· == action)) || builder.pending.any (· == action)) := by
  rw [Builder.finish, keepFirst_eq, any_firstOccurrences, List.any_append, List.any_flatMap, List.any_reverse]

theorem AllExact.declare (exact : set.AllExact finished) {builder : Builder}
    (run : set.declare finished name = .ok builder) : set.InheritsExactly name builder.finish := by
  obtain ⟨placed, own, found, declared, bases, rfl⟩ := declare_eq_ok run
  refine ⟨fun action => ?_, pairwise_firstOccurrences _⟩
  rw [any_finish_actions, Bool.or_eq_true]
  constructor
  · rintro (inherited | same)
    · obtain ⟨layer, member, action⟩ := List.any_eq_true.mp inherited
      have listed : some layer ∈ placed.recipe.bases.map finished.find? := bases ▸ List.mem_map_of_mem member
      obtain ⟨base, listed, here⟩ := List.mem_map.mp listed
      obtain ⟨owner, own, path, found', holds⟩ := ((exact base layer here).complete _).mp action
      exact ⟨owner, own, .head ⟨placed, found, listed⟩ path, found', holds⟩
    · exact ⟨name, _, .refl, declared, same⟩
  · rintro ⟨owner, own, path, declaredThere, holds⟩
    rcases path.cases_head with rfl | ⟨base, ⟨placed', found', listed⟩, path⟩
    · rw [declared] at declaredThere
      cases declaredThere
      exact .inr holds
    · rw [found] at found'
      cases found'
      have present : finished.find? base ∈ builder.bases.map some := bases ▸ List.mem_map_of_mem listed
      obtain ⟨layer, member, here⟩ := List.mem_map.mp present
      have inside := ((exact base layer here.symm).complete action).mpr ⟨owner, own, path, declaredThere, holds⟩
      exact .inl (List.any_eq_true.mpr ⟨layer, member, inside⟩)

theorem AllExact.insert (exact : set.AllExact finished) {layer : Layer} (new : set.InheritsExactly name layer) :
    set.AllExact (finished.insert name layer) :=
  finished.forall_insert exact fun _ same => Std.LawfulEqOrd.eq_of_compare same ▸ new

theorem AllExact.foldlM {names : List String} {after : FinishedLayers} (exact : set.AllExact finished)
    (run : names.foldlM set.finishNext finished = .ok after) : set.AllExact after := by
  refine foldlM_preserves set.AllExact ?_ exact run
  intro finished name after _ exact stepped
  obtain ⟨builder, declared, written⟩ := bind_eq_ok.mp stepped
  cases written
  exact exact.insert (exact.declare declared)

section Success

variable {graph : LayerGraph}

private theorem foldlM_finishNext_succeeds {done order : List String}
    (edges : ∀ layer base, set.Inherits layer base → graph.Inherits layer base)
    (first : graph.BasesFirst done order) (present : ∀ layer ∈ done, finished.contains layer = true)
    (declares : ∀ layer ∈ order, (set.ownDirectives layer).isOk = true) :
    ∃ after, order.foldlM set.finishNext finished = .ok after ∧
      ∀ layer, layer ∈ done ∨ layer ∈ order → after.contains layer = true := by
  induction order generalizing done finished with
  | nil => exact ⟨finished, rfl, fun layer member => member.elim (present layer) nofun⟩
  | cons layer rest ih =>
    have own := declares layer List.mem_cons_self
    obtain ⟨placed, found⟩ := exists_find? own
    obtain ⟨builder, declared⟩ := declare_succeeds found own fun base listed =>
      present base (first.1 base (edges layer base ⟨placed, found, listed⟩))
    have written : ∀ other ∈ layer :: done, (finished.insert layer builder.finish).contains other = true := by
      intro other member
      refine (finished.contains_upsert).mpr ?_
      rcases List.mem_cons.mp member with same | earlier
      · exact .inl same
      · exact .inr (present other earlier)
    obtain ⟨after, run, all⟩ := ih first.2 written fun other member => declares other (List.mem_cons_of_mem layer member)
    refine ⟨after, ?_, ?_⟩
    · rw [List.foldlM_cons, finishNext, declared]
      exact run
    · intro other member
      apply all
      rcases member with earlier | member
      · exact .inl (List.mem_cons_of_mem layer earlier)
      · rcases List.mem_cons.mp member with rfl | later
        · exact .inl List.mem_cons_self
        · exact .inr later

end Success

/-- The finished layers of all that `name` inherits from, as building it finishes them. -/
def finishBases (set : RecipeSet) (name : String) : Except Error FinishedLayers := do
  let graph ← set.graph
  let order ← graph.sorted
  (order.filter (graph.ancestors name).contains).foldlM set.finishNext OrderedMap.empty

theorem finishBases_of_sorted {graph : LayerGraph} {order : List String} (drawn : set.graph = .ok graph)
    (sorted : graph.sorted = .ok order) :
    set.finishBases name = (order.filter (graph.ancestors name).contains).foldlM set.finishNext OrderedMap.empty := by
  rw [finishBases, drawn]
  change (graph.sorted >>= fun order => _) = _
  rw [sorted]
  rfl

theorem Valid.finishBases_succeeds (valid : set.Valid)
    (declares : ∀ base, TransGen set.Inherits name base → (set.ownDirectives base).isOk = true) :
    ∃ finished, set.finishBases name = .ok finished ∧ ∀ base, TransGen set.Inherits name base → finished.contains base = true := by
  obtain ⟨graph, planned, sorted⟩ := valid.sorted
  have same := graph_inherits_eq planned
  have first : graph.BasesFirst [] (graph.finishOrder.filter (graph.ancestors name).contains) := by
    refine (graph.basesFirst_finishOrder).filter fun layer base edge above => ?_
    rw [LayerGraph.contains_ancestors_iff] at above ⊢
    exact above.tail edge
  have above : ∀ layer, layer ∈ graph.finishOrder.filter (graph.ancestors name).contains ↔
      TransGen set.Inherits name layer := by
    intro layer
    rw [List.mem_filter, LayerGraph.contains_ancestors_iff, same, and_iff_right_iff_imp]
    intro path
    obtain ⟨heir, _, edge⟩ := TransGen.tail'_iff.mp path
    rw [← same] at edge
    exact (LayerGraph.perm_of_sorted sorted).2.mem_iff.mpr (closed_graph planned heir layer edge)
  have inSet : ∀ layer base, set.Inherits layer base → graph.Inherits layer base := fun _ _ edge => same ▸ edge
  have started : ∀ layer ∈ ([] : List String), (OrderedMap.empty : FinishedLayers).contains layer = true :=
    fun _ none => absurd none List.not_mem_nil
  obtain ⟨finished, run, present⟩ := foldlM_finishNext_succeeds inSet first started fun layer member =>
    declares layer ((above layer).mp member)
  refine ⟨finished, bind_eq_ok.mpr ⟨graph, planned, bind_eq_ok.mpr ⟨_, sorted, run⟩⟩, fun base path => ?_⟩
  exact present base (.inr ((above base).mpr path))

def finishedLayer (set : RecipeSet) (name : String) : Except Error Layer := do
  let graph ← set.graph
  let order ← graph.sorted
  let finished ← (order.filter (graph.ancestors name).contains).foldlM set.finishNext OrderedMap.empty
  return (← set.declare finished name).finish

theorem finishedLayer_eq :
    set.finishedLayer name = (do return (← set.declare (← set.finishBases name) name).finish) := by
  simp only [finishedLayer, finishBases, bind_assoc]

theorem build_eq {recipe : Recipe} (found : set.get? name = some recipe) (concrete : recipe.isAbstract = false) :
    set.build name = (set.finishBases name >>= fun finished => set.declare finished name >>= Builder.build) := by
  simp only [build, found, concrete, finishBases, bind_assoc, Bool.false_eq_true, if_false]

theorem build_eq_ok {package : Package} (run : set.build name = .ok package) :
    ∃ placed finished builder, set.recipes.find? name = some placed ∧ set.finishBases name = .ok finished ∧
      set.declare finished name = .ok builder ∧ builder.build = .ok package := by
  cases found : set.get? name with
  | none => simp [build, found] at run
  | some recipe =>
    cases kind : recipe.isAbstract with
    | true => simp [build, found, kind] at run
    | false =>
      rw [build_eq found kind] at run
      obtain ⟨finished, above, run⟩ := bind_eq_ok.mp run
      obtain ⟨builder, declared, run⟩ := bind_eq_ok.mp run
      obtain ⟨placed, held, _⟩ := Option.map_eq_some_iff.mp found
      exact ⟨placed, finished, builder, held, above, declared, run⟩

theorem layer_of_build {package : Package} (run : set.build name = .ok package) :
    set.finishedLayer name = .ok package.layer := by
  obtain ⟨_, finished, builder, _, above, declared, built⟩ := build_eq_ok run
  rw [finishedLayer_eq, (Layer.build_eq_ok built).1]
  exact bind_eq_ok.mpr ⟨finished, above, bind_eq_ok.mpr ⟨builder, declared, rfl⟩⟩

theorem inheritsExactly_of_finishedLayer {layer : Layer} (run : set.finishedLayer name = .ok layer) :
    set.InheritsExactly name layer := by
  obtain ⟨graph, planned, run⟩ := bind_eq_ok.mp run
  obtain ⟨order, sorted, run⟩ := bind_eq_ok.mp run
  obtain ⟨finished, folded, run⟩ := bind_eq_ok.mp run
  obtain ⟨builder, declared, same⟩ := bind_eq_ok.mp run
  cases same
  exact ((allExact_empty set).foldlM folded).declare declared

theorem Valid.finishedLayer_succeeds (valid : set.Valid)
    (declares : ∀ layer, ReflTransGen set.Inherits name layer → (set.ownDirectives layer).isOk = true) :
    ∃ layer, set.finishedLayer name = .ok layer := by
  obtain ⟨finished, run, present⟩ := valid.finishBases_succeeds fun base path => declares base path.to_reflTransGen
  have own := declares name .refl
  obtain ⟨placed, found⟩ := exists_find? own
  obtain ⟨builder, declared⟩ := declare_succeeds found own fun base listed => present base (.single ⟨placed, found, listed⟩)
  refine ⟨builder.finish, ?_⟩
  rw [finishedLayer_eq]
  exact bind_eq_ok.mpr ⟨finished, run, bind_eq_ok.mpr ⟨builder, declared, rfl⟩⟩

section Reports

theorem name_report (recipe : Recipe) : (set.report finished name recipe).1.name = name := by
  rw [report]
  split
  next => rfl
  next => split <;> rfl

private theorem allExact_report (exact : set.AllExact finished) (name : String) (recipe : Recipe) :
    set.AllExact (set.report finished name recipe).2 ∧
      ∀ package, (set.report finished name recipe).1.result = .ok (some package) →
        set.InheritsExactly name package.layer := by
  rw [report]
  split
  next => exact ⟨exact, nofun⟩
  next =>
    split
    next => exact ⟨exact, nofun⟩
    next builder declared =>
      refine ⟨exact.insert (exact.declare declared), fun package result => ?_⟩
      dsimp only at result
      split at result
      next => cases result
      next =>
        obtain ⟨built, run, same⟩ := map_eq_ok.mp result
        cases same
        rw [(Layer.build_eq_ok run).1]
        exact exact.declare declared

theorem inheritsExactly_of_reports {order : List String} (exact : set.AllExact finished) {report : BuildReport}
    (member : report ∈ set.reports order finished) {package : Package} (result : report.result = .ok (some package)) :
    set.InheritsExactly report.name package.layer := by
  induction order generalizing finished with
  | nil => cases member
  | cons name rest ih =>
    rw [reports] at member
    split at member
    next => exact ih exact member
    next recipe found =>
      change report ∈ (set.report finished name recipe).1 :: set.reports rest (set.report finished name recipe).2
        at member
      obtain ⟨later, here⟩ := allExact_report exact name recipe
      rcases List.mem_cons.mp member with rfl | behind
      · rw [name_report]
        exact here package result
      · exact ih later behind

end Reports

/-- In a valid set, a recipe that declares, along with all that it inherits from, gives a
finished layer that holds exactly what they declare, each directive once. -/
theorem finished_layer_inherits_exactly (valid : set.Valid)
    (declares : ∀ layer, ReflTransGen set.Inherits name layer → (set.ownDirectives layer).isOk = true) :
    (∃ layer, set.finishedLayer name = .ok layer ∧ set.InheritsExactly name layer ∧
      ∀ package, set.build name = .ok package → package.layer = layer) ∧
    (∀ reports report package, set.buildEach = .ok reports → report ∈ reports → report.name = name →
      report.result = .ok (some package) → set.InheritsExactly name package.layer) := by
  constructor
  · obtain ⟨layer, run⟩ := valid.finishedLayer_succeeds declares
    refine ⟨layer, run, inheritsExactly_of_finishedLayer run, fun package built => ?_⟩
    exact Except.ok.inj ((layer_of_build built).symm.trans run)
  · intro reports report package run member same result
    obtain ⟨graph, _, run⟩ := bind_eq_ok.mp run
    obtain ⟨order, _, listed⟩ := bind_eq_ok.mp run
    cases listed
    rw [← same]
    exact inheritsExactly_of_reports (allExact_empty set) member result

def versionRecipe (name : String) (bases : List String) (version : String) : Recipe where
  name
  isAbstract := true
  bases
  description := none
  homepage := none
  versions := [⟨version, none, .empty⟩]
  dependencies := []
  extensions := []
  conflicts := []
  provisions := []
  patches := []
  variants := []
  resources := []

/-- Two ways up to one base, which declares the version that the heir declares as well. -/
def diamond : Except Error RecipeSet := do
  let set ← (RecipeSet.empty .standard).insert (versionRecipe "app" ["left", "right"] "1.0") none
  let set ← set.insert (versionRecipe "left" ["base"] "2") none
  let set ← set.insert (versionRecipe "right" ["base"] "3") none
  set.insert (versionRecipe "base" [] "1.0") none

theorem diamond_inherits_exactly :
    ∃ set layer, diamond = .ok set ∧ set.finishedLayer "app" = .ok layer ∧ set.InheritsExactly "app" layer := by
  have checked : (do
      let set ← diamond
      let graph ← set.graph
      let _ ← graph.sorted
      return "app" ∈ set.names ∧ ∀ name ∈ set.names, (set.ownDirectives name).isOk = true : Except Error Bool).toOption =
        some true := by decide +kernel
  obtain ⟨set, made, run⟩ := bind_eq_ok.mp (toOption_eq_some.mp checked)
  obtain ⟨graph, planned, run⟩ := bind_eq_ok.mp run
  obtain ⟨order, sorted, run⟩ := bind_eq_ok.mp run
  obtain ⟨known, declares⟩ := of_decide_eq_true (Except.ok.inj run)
  have valid := valid_of_sorted planned sorted
  have inside : ∀ layer, ReflTransGen set.Inherits "app" layer → layer ∈ set.names := by
    intro layer path
    cases path with
    | refl => exact known
    | tail _ edge => exact set.recipes.mem_keys_iff.mpr (valid.known _ _ edge)
  obtain ⟨layer, finished, exact, _⟩ :=
    (finished_layer_inherits_exactly valid fun layer path => declares layer (inside layer path)).1
  exact ⟨set, layer, made, finished, exact⟩

end PackageRecipes.RecipeSet
