import PackageRecipes.Proofs.Ancestry
import PackageRecipes.Proofs.InheritanceCycles

/-! The search for the layers that one inherits from, turn by turn. A layer can be in the
queue many times, but it brings its bases there only once, so the search ends on cycles
too. It takes one turn for each base that is listed on the way. What it has then reached is
the transitive closure of the bases. -/

namespace PackageRecipes.LayerGraph
open Relation

/-- The layers reached so far, and those that have come up and are still to be looked at. -/
structure Search where
  reached : OrderedSet String
  queue : List String

namespace Search

def step (graph : LayerGraph) (search : Search) : Option Search :=
  match search.queue with
  | [] => none
  | layer :: rest =>
    if search.reached.contains layer then some ⟨search.reached, rest⟩
    else some ⟨search.reached.add layer, rest ++ graph.basesOf layer⟩

def start (graph : LayerGraph) (name : String) : Search :=
  ⟨.empty, graph.basesOf name⟩

def turns (graph : LayerGraph) : Nat → Search → Option Search
  | 0, search => some search
  | count + 1, search => (search.step graph).bind (turns graph count)

/-- After that many turns there is no further one, and the search has come to `last`. -/
structure EndsAfter (graph : LayerGraph) (count : Nat) (search last : Search) : Prop where
  turns : turns graph count search = some last
  ended : last.step graph = none

section Turns

variable {graph : LayerGraph} {count : Nat} {reached rest : List String} {layer : String} {search next last : Search}

theorem EndsAfter.step (step : search.step graph = some next) (ends : EndsAfter graph count next last) :
    EndsAfter graph (count + 1) search last where
  turns := by rw [Search.turns, step, Option.bind_some, ends.turns]
  ended := ends.ended

private theorem step_known (known : reached.contains layer = true) :
    step graph ⟨.ofList reached, layer :: rest⟩ = some ⟨.ofList reached, rest⟩ := by
  simp only [step, OrderedSet.contains_ofList, known, if_true]

private theorem step_new (new : ¬ reached.contains layer = true) :
    step graph ⟨.ofList reached, layer :: rest⟩ = some ⟨.ofList (layer :: reached), rest ++ graph.basesOf layer⟩ := by
  simp only [step, OrderedSet.contains_ofList, new]
  rfl

/-- From any state on, each layer in the queue costs one turn, and so does each base of a layer
that is found. -/
private theorem endsAfter_reach (graph : LayerGraph) (reached queue : List String) :
    ∃ found, graph.reach reached queue = found ++ reached ∧
      EndsAfter graph (queue.length + (found.flatMap graph.basesOf).length) ⟨.ofList reached, queue⟩
        ⟨.ofList (found ++ reached), []⟩ := by
  fun_induction reach graph reached queue with
  | case1 reached => exact ⟨[], rfl, rfl, rfl⟩
  | case2 reached layer rest known ih =>
    obtain ⟨found, same, ends⟩ := ih
    refine ⟨found, same, ?_⟩
    rw [List.length_cons, Nat.add_right_comm]
    exact ends.step (step_known known)
  | case3 reached layer rest new ih =>
    -- what is found later comes to stand in front of this layer
    obtain ⟨found, same, ends⟩ := ih
    refine ⟨found ++ [layer], by rw [same, List.append_assoc, List.singleton_append], ?_⟩
    have count : (layer :: rest).length + ((found ++ [layer]).flatMap graph.basesOf).length =
        (rest ++ graph.basesOf layer).length + (found.flatMap graph.basesOf).length + 1 := by
      simp only [List.length_cons, List.length_append, List.flatMap_append, List.flatMap_singleton]
      omega
    rw [count, List.append_assoc, List.singleton_append]
    exact ends.step (step_new new)

end Turns

end Search

variable {graph : LayerGraph} {reached queue : List String}

private theorem nodup_reach (distinct : reached.Nodup) : (graph.reach reached queue).Nodup := by
  fun_induction reach graph reached queue with
  | case1 reached => exact distinct
  | case2 reached layer rest known ih => exact ih distinct
  | case3 reached layer rest new ih =>
    apply ih
    exact List.nodup_cons.mpr ⟨by simpa using new, distinct⟩

theorem perm_ancestors (graph : LayerGraph) (name : String) :
    (graph.ancestors name).toList.Perm (graph.reach [] (graph.basesOf name)) :=
  (List.perm_ext_iff_of_nodup (graph.ancestors name).nodup_keys (nodup_reach .nil)).mpr fun _ =>
    OrderedSet.mem_toList_ofList

/-- The bases that a layer lists and those that its ancestors list, once for each that does. -/
def basesOnTheWay (graph : LayerGraph) (name : String) : List String :=
  graph.basesOf name ++ (graph.ancestors name).toList.flatMap graph.basesOf

theorem endsAfter_ancestors (graph : LayerGraph) (name : String) :
    Search.EndsAfter graph (graph.basesOnTheWay name).length (.start graph name) ⟨graph.ancestors name, []⟩ := by
  obtain ⟨found, same, ends⟩ := Search.endsAfter_reach graph [] (graph.basesOf name)
  rw [List.append_nil] at same ends
  have listed := ((graph.perm_ancestors name).flatMap_right graph.basesOf).length_eq
  rw [same] at listed
  rw [basesOnTheWay, List.length_append, listed, ancestors, same]
  exact ends

/-- On whatever graph and from whatever layer, the search ends, after one turn for each base
listed on the way. It has then reached the layers that one or more steps to a base lead
to, and no others; the layer itself is among them exactly if it lies on a cycle. -/
theorem ancestors_are_transitive_closure (graph : LayerGraph) (name : String) :
    Search.EndsAfter graph (graph.basesOnTheWay name).length (.start graph name) ⟨graph.ancestors name, []⟩ ∧
    (∀ layer, layer ∈ (graph.ancestors name).toList ↔ TransGen graph.Inherits name layer) ∧
    (name ∈ (graph.ancestors name).toList ↔ ∃ cycle, IsCycle graph.Inherits cycle ∧ name ∈ cycle) := by
  have closure : ∀ layer, layer ∈ (graph.ancestors name).toList ↔ TransGen graph.Inherits name layer :=
    fun layer => OrderedSet.mem_toList_iff.trans contains_ancestors_iff
  exact ⟨endsAfter_ancestors graph name, closure, (closure name).trans exists_isCycle_iff.symm⟩

/-- The search from a layer on a cycle of two ends with both, and does not reach the one below. -/
example :
    let graph := ofCalls [("app", ["left"]), ("left", ["right"]), ("right", ["left"])]
    (Search.turns graph 3 (.start graph "left")).map (fun last => (last.reached.toList, last.queue)) =
      some (["left", "right"], []) := by
  decide

end PackageRecipes.LayerGraph
