import PackageRecipes.LayerGraph
import PackageRecipes.Proofs.OrderedMapLookup

/-! The layers and edges of an inheritance graph, as its two maps hold them, and what
adding a layer with its bases does to them. -/

namespace PackageRecipes.LayerGraph

section Neighbours

variable {neighbours : OrderedMap String (OrderedSet String)} {name other : String}

def Neighbour (neighbours : OrderedMap String (OrderedSet String)) (name other : String) : Prop :=
  ∃ others, neighbours.find? name = some others ∧ other ∈ others.toList

theorem neighbour_mention {mentioned : String} :
    Neighbour (mention neighbours mentioned) name other ↔ Neighbour neighbours name other := by
  rw [Neighbour, Neighbour, mention, OrderedMap.find?_upsert]
  split
  next same =>
    cases Std.LawfulEqOrd.eq_of_compare same
    cases found : neighbours.find? name with
    | none =>
      constructor
      · rintro ⟨others, here, member⟩
        cases here
        cases member
      · rintro ⟨others, here, _⟩
        cases here
    | some others => simp
  next => exact Iff.rfl

theorem neighbour_link {source target : String} :
    Neighbour (link neighbours source target) name other ↔
      Neighbour neighbours name other ∨ name = source ∧ other = target := by
  rw [Neighbour, Neighbour, link, OrderedMap.find?_upsert]
  split
  next same =>
    cases Std.LawfulEqOrd.eq_of_compare same
    constructor
    · rintro ⟨others, here, member⟩
      cases here
      rcases OrderedSet.mem_toList_add.mp member with rfl | earlier
      · exact .inr ⟨rfl, rfl⟩
      · cases found : neighbours.find? name with
        | none =>
          rw [found] at earlier
          cases earlier
        | some others =>
          rw [found] at earlier
          exact .inl ⟨others, rfl, earlier⟩
    · rintro (⟨others, found, member⟩ | ⟨_, rfl⟩)
      · rw [found]
        exact ⟨_, rfl, OrderedSet.mem_toList_add.mpr (.inr member)⟩
      · exact ⟨_, rfl, OrderedSet.mem_toList_add.mpr (.inl rfl)⟩
  next apart =>
    have different : name ≠ source := fun same => apart (same ▸ Std.ReflCmp.compare_self)
    simp [different]

end Neighbours

variable {graph : LayerGraph} {name base : String}

def Inherits (graph : LayerGraph) (name base : String) : Prop :=
  Neighbour graph.bases name base

theorem mem_basesOf_iff : base ∈ graph.basesOf name ↔ graph.Inherits name base := by
  rw [basesOf, bases?, Inherits, Neighbour]
  cases graph.bases.find? name <;> simp

theorem mem_layers_iff : name ∈ graph.layers ↔ graph.contains name = true :=
  graph.bases.mem_keys_iff

theorem mem_layers_of_inherits (edge : graph.Inherits name base) : name ∈ graph.layers := by
  obtain ⟨bases, found, _⟩ := edge
  rw [mem_layers_iff, contains, OrderedMap.contains, found]
  rfl

def Closed (graph : LayerGraph) : Prop :=
  ∀ name base, graph.Inherits name base → base ∈ graph.layers

theorem contains_addBase {added layer : String} :
    (graph.addBase layer added).contains name = true ↔
      name = added ∨ name = layer ∨ graph.contains name = true :=
  (OrderedMap.contains_upsert _).trans (or_congr_right (OrderedMap.contains_upsert _))

theorem inherits_addBase {added layer : String} :
    (graph.addBase layer added).Inherits name base ↔ graph.Inherits name base ∨ name = layer ∧ base = added :=
  neighbour_mention.trans neighbour_link

theorem contains_add {layer : String} {bases : List String} :
    (graph.add layer bases).contains name = true ↔
      name = layer ∨ name ∈ bases ∨ graph.contains name = true := by
  suffices folded : ∀ start : LayerGraph, start.contains layer = true →
      ((bases.foldl (fun graph base => graph.addBase layer base) start).contains name = true ↔
        name ∈ bases ∨ start.contains name = true) by
    have mentioned : ∀ other, (LayerGraph.mk (mention graph.bases layer) (mention graph.heirs layer)).contains other = true ↔
        other = layer ∨ graph.contains other = true := fun _ => graph.bases.contains_upsert
    rw [add, folded _ ((mentioned layer).mpr (.inl rfl)), mentioned, or_left_comm]
  induction bases with
  | nil => simp
  | cons first rest ih =>
    intro start present
    rw [List.foldl_cons, ih _ (contains_addBase.mpr (.inr (.inr present))), contains_addBase, List.mem_cons]
    constructor
    · rintro (later | rfl | rfl | earlier)
      · exact .inl (.inr later)
      · exact .inl (.inl rfl)
      · exact .inr present
      · exact .inr earlier
    · rintro ((rfl | later) | earlier)
      · exact .inr (.inl rfl)
      · exact .inl later
      · exact .inr (.inr (.inr earlier))

theorem inherits_add {layer : String} {bases : List String} :
    (graph.add layer bases).Inherits name base ↔ graph.Inherits name base ∨ name = layer ∧ base ∈ bases := by
  suffices folded : ∀ start : LayerGraph,
      (bases.foldl (fun graph base => graph.addBase layer base) start).Inherits name base ↔
        start.Inherits name base ∨ name = layer ∧ base ∈ bases from
    (folded _).trans (or_congr_left neighbour_mention)
  induction bases with
  | nil => simp
  | cons first rest ih =>
    intro start
    rw [List.foldl_cons, ih, inherits_addBase, List.mem_cons, or_assoc, and_or_left]

end PackageRecipes.LayerGraph
