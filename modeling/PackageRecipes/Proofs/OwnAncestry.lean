import PackageRecipes.Proofs.BuildAgreement
import PackageRecipes.Proofs.SortedLists

/-! What a package is built to depends on the recipes above it and on nothing else in
its set. The order in which layers are finished is the one thing that looks at the
whole set. Restricted to layers closed under bases, it is the order in which these
are finished when there are no others. -/

namespace PackageRecipes
open Relation

namespace LayerGraph

section Restriction

variable {needed : String → Bool} {layer : String} {queue : List String} {waiting : List (String × List String)}

private theorem filter_freed (needed : String → Bool) (layer : String) (waiting : List (String × List String)) :
    (freed layer waiting).filter needed = freed layer (waiting.filter (needed ·.1)) := by
  simp only [freed, withoutBase, List.filter_map, List.filter_filter, Function.comp_def, Bool.and_comm]

private theorem filter_blocked (needed : String → Bool) (layer : String) (waiting : List (String × List String)) :
    (blocked layer waiting).filter (needed ·.1) = blocked layer (waiting.filter (needed ·.1)) := by
  simp only [blocked, withoutBase, List.filter_map, List.filter_filter, Function.comp_def, Bool.and_comm]

/-- What is waited for, where every base of a needed layer is needed as well. -/
structure ClosedWaiting (needed : String → Bool) (waiting : List (String × List String)) : Prop where
  left : ∀ entry ∈ waiting, entry.2 ≠ []
  closed : ∀ entry ∈ waiting, needed entry.1 = true → ∀ base ∈ entry.2, needed base = true

theorem ClosedWaiting.blocked (waits : ClosedWaiting needed waiting) (layer : String) :
    ClosedWaiting needed (blocked layer waiting) := by
  constructor
  case left =>
    intro entry member
    obtain ⟨_, _, _, left⟩ := mem_blocked_iff.mp member
    exact left
  case closed =>
    intro entry member kept base listed
    obtain ⟨before, present, rfl, _⟩ := mem_blocked_iff.mp member
    exact waits.closed before present kept base (List.mem_filter.mp listed).1

/-- Finishing a layer that is not needed changes nothing for those that are. -/
private theorem ClosedWaiting.withoutBase_filter (waits : ClosedWaiting needed waiting) (other : needed layer = false) :
    withoutBase layer (waiting.filter (needed ·.1)) = waiting.filter (needed ·.1) := by
  refine (List.map_congr_left fun entry member => ?_).trans (List.map_id _)
  obtain ⟨present, kept⟩ := List.mem_filter.mp member
  have apart : entry.2.filter (· != layer) = entry.2 := by
    refine List.filter_eq_self.mpr fun base listed => ?_
    have inside := waits.closed entry present kept base listed
    rw [bne_iff_ne]
    rintro rfl
    rw [other] at inside
    cases inside
  simp only [apart]
  rfl

private theorem ClosedWaiting.freed_filter (waits : ClosedWaiting needed waiting) (other : needed layer = false) :
    freed layer (waiting.filter (needed ·.1)) = [] := by
  rw [freed, waits.withoutBase_filter other, List.map_eq_nil_iff, List.filter_eq_nil_iff]
  intro entry member
  rw [List.isEmpty_iff]
  exact waits.left entry (List.mem_filter.mp member).1

private theorem ClosedWaiting.blocked_filter (waits : ClosedWaiting needed waiting) (other : needed layer = false) :
    LayerGraph.blocked layer (waiting.filter (needed ·.1)) = waiting.filter (needed ·.1) := by
  rw [LayerGraph.blocked, waits.withoutBase_filter other, List.filter_eq_self]
  intro entry member
  simpa using waits.left entry (List.mem_filter.mp member).1

/-- The needed layers are finished in the order in which they are if no others are
there, whatever comes between them. -/
private theorem filter_finishAll (waits : ClosedWaiting needed waiting) :
    (finishAll queue waiting).filter needed = finishAll (queue.filter needed) (waiting.filter (needed ·.1)) := by
  fun_induction finishAll queue waiting with
  | case1 waiting => simp [finishAll]
  | case2 waiting layer rest ih =>
    have later := ih (waits.blocked layer)
    rw [List.filter_append, filter_freed, filter_blocked] at later
    rw [List.filter_cons, List.filter_cons, later]
    cases kept : needed layer with
    | true => simp only [if_true, finishAll]
    | false => simp [waits.freed_filter kept, waits.blocked_filter kept]

end Restriction

variable {graph left right : LayerGraph} {needed : String → Bool} {name : String}

def planned (pending : List (String × List String)) : List String :=
  finishAll ((pending.filter fun entry => entry.2.isEmpty).map (·.1)) (pending.filter fun entry => !entry.2.isEmpty)

private theorem filter_planned {pending : List (String × List String)}
    (closed : ∀ entry ∈ pending, needed entry.1 = true → ∀ base ∈ entry.2, needed base = true) :
    (planned pending).filter needed = planned (pending.filter (needed ·.1)) := by
  have waits : ClosedWaiting needed (pending.filter fun entry => !entry.2.isEmpty) :=
    ⟨fun entry member => by simpa using (List.mem_filter.mp member).2,
      fun entry member => closed entry (List.mem_filter.mp member).1⟩
  rw [planned, filter_finishAll waits, planned]
  simp only [List.filter_map, List.filter_filter, Function.comp_def, Bool.and_comm]

private theorem pending_eq (graph : LayerGraph) :
    graph.pending = graph.layers.map fun name => (name, graph.basesOf name) := by
  rw [← map_fst_pending, List.map_map]
  refine (List.map_id _).symm.trans (List.map_congr_left fun entry member => ?_)
  simp only [Function.comp_apply, ← snd_of_mem_pending member]
  rfl

private theorem filter_finishOrder
    (closed : ∀ layer base, graph.Inherits layer base → needed layer = true → needed base = true) :
    graph.finishOrder.filter needed =
      planned ((graph.layers.filter needed).map fun name => (name, graph.basesOf name)) := by
  have whole : (planned graph.pending).filter needed = planned (graph.pending.filter (needed ·.1)) := by
    refine filter_planned fun entry member kept base listed => ?_
    rw [snd_of_mem_pending member] at listed
    exact closed entry.1 base (mem_basesOf_iff.mp listed) kept
  have restricted : graph.pending.filter (needed ·.1) =
      (graph.layers.filter needed).map fun name => (name, graph.basesOf name) := by
    rw [pending_eq, List.filter_map]
    rfl
  rw [restricted] at whole
  exact whole

private theorem increasing_basesOf (graph : LayerGraph) (name : String) : Increasing (graph.basesOf name) := by
  rw [basesOf, bases?]
  cases graph.bases.find? name with
  | none => exact .nil
  | some bases => exact bases.increasing_keys

private theorem basesOf_congr (same : ∀ base, left.Inherits name base ↔ right.Inherits name base) :
    left.basesOf name = right.basesOf name := by
  refine eq_of_increasing (left.increasing_basesOf name) (right.increasing_basesOf name) fun base => ?_
  rw [mem_basesOf_iff, mem_basesOf_iff, same]

/-- Two graphs that agree on layers closed under bases finish these in the same order. -/
private theorem filter_finishOrder_congr
    (closed : ∀ layer base, left.Inherits layer base → needed layer = true → needed base = true)
    (layers : ∀ layer, needed layer = true → (layer ∈ left.layers ↔ layer ∈ right.layers))
    (edges : ∀ layer, needed layer = true → ∀ base, left.Inherits layer base ↔ right.Inherits layer base) :
    left.finishOrder.filter needed = right.finishOrder.filter needed := by
  have closedRight : ∀ layer base, right.Inherits layer base → needed layer = true → needed base = true :=
    fun layer base edge kept => closed layer base ((edges layer kept base).mpr edge) kept
  have same : left.layers.filter needed = right.layers.filter needed := by
    refine eq_of_increasing (left.bases.increasing_keys.filter _) (right.bases.increasing_keys.filter _) fun layer => ?_
    rw [List.mem_filter, List.mem_filter]
    exact and_congr_left (layers layer)
  rw [filter_finishOrder closed, filter_finishOrder closedRight, same]
  congr 1
  refine List.map_congr_left fun layer member => ?_
  rw [basesOf_congr (edges layer (List.mem_filter.mp member).2)]

end LayerGraph

namespace RecipeSet

variable {left right : RecipeSet} {name layer : String}

/-- Both sets hold the same for the recipe and for all that it inherits from: the recipe
in the same directory, or none. -/
def SameAncestry (left right : RecipeSet) (name : String) : Prop :=
  ∀ layer, ReflTransGen left.Inherits name layer → left.recipes.find? layer = right.recipes.find? layer

section Agreement

variable (same : left.SameAncestry right name)
include same

theorem SameAncestry.inherits_iff {base : String} (path : ReflTransGen left.Inherits name layer) :
    left.Inherits layer base ↔ right.Inherits layer base := by
  rw [Inherits, Inherits, same layer path]

private theorem SameAncestry.reflTransGen_iff :
    ReflTransGen left.Inherits name layer ↔ ReflTransGen right.Inherits name layer := by
  constructor
  · intro path
    induction path with
    | refl => exact .refl
    | tail path edge ih => exact ih.tail ((same.inherits_iff path).mp edge)
  · intro path
    induction path with
    | refl => exact .refl
    | tail _ edge ih => exact ih.tail ((same.inherits_iff ih).mpr edge)

theorem SameAncestry.trans {other : RecipeSet} (next : right.SameAncestry other name) : left.SameAncestry other name :=
  fun layer path => (same layer path).trans (next layer (same.reflTransGen_iff.mp path))

private theorem SameAncestry.transGen_iff : TransGen left.Inherits name layer ↔ TransGen right.Inherits name layer := by
  rw [TransGen.tail'_iff, TransGen.tail'_iff]
  refine exists_congr fun heir => ?_
  rw [← same.reflTransGen_iff]
  exact and_congr_right same.inherits_iff

theorem SameAncestry.declare_eq (settings : left.config = right.config) (path : ReflTransGen left.Inherits name layer)
    (finished : FinishedLayers) : left.declare finished layer = right.declare finished layer := by
  rw [declare, declare, same layer path, settings]

private theorem SameAncestry.foldlM_finishNext (settings : left.config = right.config) {layers : List String}
    (above : ∀ layer ∈ layers, ReflTransGen left.Inherits name layer) (finished : FinishedLayers) :
    layers.foldlM left.finishNext finished = layers.foldlM right.finishNext finished := by
  induction layers generalizing finished with
  | nil => rfl
  | cons layer rest ih =>
    have here : left.finishNext finished layer = right.finishNext finished layer := by
      rw [finishNext, finishNext, same.declare_eq settings (above layer List.mem_cons_self)]
    rw [List.foldlM_cons, List.foldlM_cons, here]
    refine congrArg _ (funext fun finished => ?_)
    exact ih (fun other member => above other (List.mem_cons_of_mem layer member)) finished

/-- The layers above are finished in the same order, so that the first of them at fault,
if there is one, is the same too. -/
theorem SameAncestry.finishBases_eq (settings : left.config = right.config) (first : left.Valid) (second : right.Valid) :
    left.finishBases name = right.finishBases name := by
  obtain ⟨graph, drawn, sorted⟩ := first.sorted
  obtain ⟨other, drawnRight, sortedRight⟩ := second.sorted
  have ancestors : (graph.ancestors name).contains = (other.ancestors name).contains := by
    funext layer
    rw [Bool.eq_iff_iff, LayerGraph.contains_ancestors_iff, LayerGraph.contains_ancestors_iff,
      graph_inherits_eq drawn, graph_inherits_eq drawnRight, same.transGen_iff]
  have above : ∀ {layer}, (graph.ancestors name).contains layer = true → TransGen left.Inherits name layer := by
    intro layer inside
    rwa [LayerGraph.contains_ancestors_iff, graph_inherits_eq drawn] at inside
  have order : graph.finishOrder.filter (graph.ancestors name).contains =
      other.finishOrder.filter (graph.ancestors name).contains := by
    apply LayerGraph.filter_finishOrder_congr
    case closed =>
      intro layer base edge inside
      rw [LayerGraph.contains_ancestors_iff] at inside ⊢
      exact inside.tail edge
    case layers =>
      intro layer inside
      rw [mem_layers_iff drawn, mem_layers_iff drawnRight, OrderedMap.contains, OrderedMap.contains,
        same layer (above inside).to_reflTransGen]
    case edges =>
      intro layer inside base
      rw [graph_inherits_eq drawn, graph_inherits_eq drawnRight]
      exact same.inherits_iff (above inside).to_reflTransGen
  rw [finishBases_of_sorted drawn sorted, finishBases_of_sorted drawnRight sortedRight, ← ancestors, ← order]
  exact same.foldlM_finishNext settings (fun layer member => (above (List.mem_filter.mp member).2).to_reflTransGen) _

end Agreement

/-- In two valid sets under the same settings that hold the same recipe and the same
recipes above it, a package is built to the same outcome, whatever else they hold. -/
theorem build_depends_on_ancestry (settings : left.config = right.config) (first : left.Valid) (second : right.Valid)
    (same : left.SameAncestry right name) : left.build name = right.build name := by
  have here : left.get? name = right.get? name := by
    rw [get?, get?, same name .refl]
  cases found : left.get? name with
  | none => rw [build, build, ← here, found]
  | some recipe =>
    cases kind : recipe.isAbstract with
    | true => simp only [build, ← here, found, kind, if_true]
    | false =>
      rw [build_eq found kind, build_eq (here.symm.trans found) kind, same.finishBases_eq settings first second]
      refine congrArg _ (funext fun finished => ?_)
      rw [same.declare_eq settings .refl]

/-- A recipe added to a valid set is above none of those already there. -/
theorem Valid.sameAncestry_insert {recipe : Recipe} {directory : Option Directory} (valid : left.Valid)
    (known : name ∈ left.names) (added : left.insert recipe directory = .ok right) : left.SameAncestry right name := by
  rw [insert] at added
  split at added
  · cases added
  next fresh =>
    cases added
    intro layer path
    have held : left.recipes.contains layer = true := left.recipes.mem_keys_iff.mp (valid.mem_names known path)
    have apart : compare layer recipe.name ≠ .eq := by
      intro equal
      rw [Std.LawfulEqOrd.eq_of_compare equal] at held
      exact fresh held
    rw [OrderedMap.find?_insert, if_neg apart]

/-- Two layers that cannot be declared, and a package that inherits from both. -/
def twiceFaulty : Except Error RecipeSet := do
  let set ← (RecipeSet.empty .standard).insert (versionRecipe "alpha" [] "@") none
  let set ← set.insert (versionRecipe "beta" [] "%") none
  set.insert (concrete (versionRecipe "app" ["beta", "alpha"] "1.0")) none

def fault? (set : RecipeSet) (layers : List String) : Option Error :=
  match layers.foldlM set.finishNext OrderedMap.empty with
  | .ok _ => none
  | .error error => some error

/-- Building fails with the error of the first layer above that cannot be declared. -/
theorem build_eq_error {set : RecipeSet} {graph : LayerGraph} {recipe : Recipe} {order ancestors : List String}
    {error : Error} (found : set.get? name = some recipe) (kind : recipe.isAbstract = false)
    (drawn : set.graph = .ok graph) (sorted : graph.sorted = .ok order)
    (reached : graph.reach [] (graph.basesOf name) = ancestors)
    (fails : set.fault? (order.filter (OrderedSet.ofList ancestors).contains) = some error) :
    set.build name = .error error := by
  unfold fault? at fails
  split at fails
  · cases fails
  next run =>
    cases fails
    subst reached
    rw [build_eq found kind, finishBases_of_sorted drawn sorted, LayerGraph.ancestors, run]
    rfl

/-- The same fault is met first where a layer declared before it is at fault too. -/
theorem twiceFaulty_fails_alike :
    ∃ set larger whole, twiceFaulty = .ok set ∧ set.insert (versionRecipe "aardvark" [] "~") none = .ok larger ∧
      larger.insert (versionRecipe "zeta" ["app", "beta"] "1.0") none = .ok whole ∧
      set.build "app" = .error (.directive "alpha" "version" (.version "@")) ∧
      whole.build "app" = .error (.directive "alpha" "version" (.version "@")) := by
  have checked : (do
      let set ← twiceFaulty
      let larger ← set.insert (versionRecipe "aardvark" [] "~") none
      let whole ← larger.insert (versionRecipe "zeta" ["app", "beta"] "1.0") none
      let first ← set.graph
      let order ← first.sorted
      let second ← larger.graph
      let _ ← second.sorted
      let third ← whole.graph
      let _ ← third.sorted
      return (set.get? "app").any (fun recipe => recipe.isAbstract = false) ∧ "app" ∈ larger.names ∧
        set.config = whole.config ∧ first.basesOf "app" = ["alpha", "beta"] ∧
        (∀ layer ∈ ["alpha", "beta"], first.basesOf layer = []) ∧
        set.fault? (order.filter (OrderedSet.ofList ["beta", "alpha"]).contains) =
          some (.directive "alpha" "version" (.version "@")) : Except Error Bool).toOption =
          some true := by decide +kernel
  obtain ⟨set, made, run⟩ := bind_eq_ok.mp (toOption_eq_some.mp checked)
  obtain ⟨larger, enlarged, run⟩ := bind_eq_ok.mp run
  obtain ⟨whole, completed, run⟩ := bind_eq_ok.mp run
  obtain ⟨first, drawn, run⟩ := bind_eq_ok.mp run
  obtain ⟨order, sorted, run⟩ := bind_eq_ok.mp run
  obtain ⟨second, redrawn, run⟩ := bind_eq_ok.mp run
  obtain ⟨_, resorted, run⟩ := bind_eq_ok.mp run
  obtain ⟨third, drawnLast, run⟩ := bind_eq_ok.mp run
  obtain ⟨_, sortedLast, run⟩ := bind_eq_ok.mp run
  obtain ⟨held, knownLater, settings, bases, none, fails⟩ := of_decide_eq_true (Except.ok.inj run)
  obtain ⟨recipe, found, kind⟩ := (Option.any_eq_true _ _).mp held
  have known : "app" ∈ set.names := by
    rw [names, OrderedMap.mem_keys_iff]
    rw [get?, Option.map_eq_some_iff] at found
    obtain ⟨_, found, _⟩ := found
    exact found ▸ rfl
  have reached : first.reach [] (first.basesOf "app") = ["beta", "alpha"] := by
    simp [LayerGraph.reach, bases, none]
  have valid := valid_of_sorted drawn sorted
  have inner := valid.sameAncestry_insert known enlarged
  have outer := (valid_of_sorted redrawn resorted).sameAncestry_insert knownLater completed
  have same := build_depends_on_ancestry settings valid (valid_of_sorted drawnLast sortedLast) (inner.trans outer)
  have error := build_eq_error found (of_decide_eq_true kind) drawn sorted reached fails
  exact ⟨set, larger, whole, made, enlarged, completed, error, same ▸ error⟩

end RecipeSet

end PackageRecipes
