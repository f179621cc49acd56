import Mathlib.Logic.Relation
import PackageRecipes.Proofs.GraphEdges

/-! Following bases from a queue reaches what one or more steps lead to, and nothing
else. Cycles do no harm, as a layer reached before is passed over. -/

namespace PackageRecipes.LayerGraph
open Relation

variable {graph : LayerGraph} {reached queue : List String}

private theorem subset_reach (name : String) (member : name ∈ reached ∨ name ∈ queue) :
    name ∈ graph.reach reached queue := by
  fun_induction reach graph reached queue with
  | case1 reached =>
    rcases member with member | member
    · exact member
    · cases member
  | case2 reached layer rest known ih =>
    apply ih
    rcases member with member | member
    · exact .inl member
    · rcases List.mem_cons.mp member with rfl | later
      · exact .inl (by simpa using known)
      · exact .inr later
  | case3 reached layer rest new ih =>
    apply ih
    rcases member with member | member
    · exact .inl (List.mem_cons_of_mem layer member)
    · rcases List.mem_cons.mp member with rfl | later
      · exact .inl List.mem_cons_self
      · exact .inr (List.mem_append_left _ later)

private theorem leads_of_mem_reach {name : String} (member : name ∈ graph.reach reached queue) :
    name ∈ reached ∨ ∃ start ∈ queue, ReflTransGen graph.Inherits start name := by
  fun_induction reach graph reached queue with
  | case1 reached => exact .inl member
  | case2 reached layer rest known ih =>
    rcases ih member with earlier | ⟨start, queued, path⟩
    · exact .inl earlier
    · exact .inr ⟨start, List.mem_cons_of_mem layer queued, path⟩
  | case3 reached layer rest new ih =>
    rcases ih member with earlier | ⟨start, queued, path⟩
    · rcases List.mem_cons.mp earlier with rfl | before
      · exact .inr ⟨name, List.mem_cons_self, .refl⟩
      · exact .inl before
    · rcases List.mem_append.mp queued with later | base
      · exact .inr ⟨start, List.mem_cons_of_mem layer later, path⟩
      · exact .inr ⟨layer, List.mem_cons_self, .head (mem_basesOf_iff.mp base) path⟩

private theorem closed_reach
    (closed : ∀ name ∈ reached, ∀ base, graph.Inherits name base → base ∈ reached ∨ base ∈ queue)
    {name base : String} (member : name ∈ graph.reach reached queue) (edge : graph.Inherits name base) :
    base ∈ graph.reach reached queue := by
  fun_induction reach graph reached queue with
  | case1 reached =>
    rcases closed name member base edge with done | queued
    · exact done
    · cases queued
  | case2 reached layer rest known ih =>
    refine ih ?_ member
    intro name present base edge
    rcases closed name present base edge with done | queued
    · exact .inl done
    · rcases List.mem_cons.mp queued with rfl | later
      · exact .inl (by simpa using known)
      · exact .inr later
  | case3 reached layer rest new ih =>
    refine ih ?_ member
    intro name present base edge
    rcases List.mem_cons.mp present with rfl | before
    · exact .inr (List.mem_append_right _ (mem_basesOf_iff.mpr edge))
    · rcases closed name before base edge with done | queued
      · exact .inl (List.mem_cons_of_mem layer done)
      · rcases List.mem_cons.mp queued with rfl | later
        · exact .inl List.mem_cons_self
        · exact .inr (List.mem_append_left _ later)

theorem mem_reach_iff {name layer : String} :
    layer ∈ graph.reach [] (graph.basesOf name) ↔ TransGen graph.Inherits name layer := by
  constructor
  · intro member
    rcases leads_of_mem_reach member with impossible | ⟨start, base, path⟩
    · cases impossible
    · exact .head' (mem_basesOf_iff.mp base) path
  · intro path
    induction path with
    | single edge => exact subset_reach _ (.inr (mem_basesOf_iff.mpr edge))
    | tail _ edge ih => exact closed_reach (fun _ none => absurd none List.not_mem_nil) ih edge

theorem contains_ancestors_iff {name layer : String} :
    (graph.ancestors name).contains layer = true ↔ TransGen graph.Inherits name layer := by
  rw [← mem_reach_iff, ancestors, ← OrderedSet.mem_toList_iff, OrderedSet.mem_toList_ofList]

end PackageRecipes.LayerGraph
