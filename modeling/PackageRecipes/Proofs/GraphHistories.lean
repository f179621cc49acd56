import PackageRecipes.Proofs.CountedBases

/-! Graphs that layers are added to call by call. The two maps mirror each other and hold
the layers and edges that the calls name, and nothing else, so neither the order nor the
repetition of calls matters. Such a graph is sorted unless a layer inherits from itself. -/

namespace PackageRecipes
open Relation

namespace LayerGraph

section Maps

variable {first second : OrderedMap String (OrderedSet String)}

private theorem eq_of_neighbours (layers : ∀ name, first.contains name = true ↔ second.contains name = true)
    (edges : ∀ name other, Neighbour first name other ↔ Neighbour second name other) : first = second := by
  refine OrderedMap.eq_of_find? fun name => ?_
  have present := layers name
  have listed := edges name
  unfold Neighbour at listed
  unfold OrderedMap.contains at present
  cases here : first.find? name with
  | none =>
    rw [here] at present
    exact (Option.not_isSome_iff_eq_none.mp (mt present.mpr nofun)).symm
  | some others =>
    rw [here] at present listed
    obtain ⟨others', there⟩ := Option.isSome_iff_exists.mp (present.mp rfl)
    rw [there] at listed ⊢
    refine congrArg some (OrderedMap.eq_of_find? fun other => ?_)
    have member := listed other
    simp only [Option.some.injEq, exists_eq_left', OrderedSet.mem_toList_iff, OrderedMap.contains] at member
    cases held : others.find? other <;> cases held' : others'.find? other <;> simp_all

end Maps

/-- The maps have the same layers, and each leads back along the edges of the other. -/
structure Mirrored (graph : LayerGraph) : Prop where
  layers : ∀ name, graph.heirs.contains name = true ↔ graph.contains name = true
  edges : ∀ name base, Neighbour graph.heirs base name ↔ graph.Inherits name base

section Steps

variable {graph left right : LayerGraph} {layer : String}

private theorem not_neighbour_empty {name other : String} : ¬ Neighbour .empty name other := by
  rintro ⟨_, none, _⟩
  cases none

private theorem mirrored_empty : empty.Mirrored :=
  ⟨fun _ => .rfl, fun _ _ => iff_of_false not_neighbour_empty not_neighbour_empty⟩

theorem Mirrored.mention (mirrored : graph.Mirrored) (layer : String) :
    Mirrored ⟨mention graph.bases layer, mention graph.heirs layer⟩ where
  layers name := (graph.heirs.contains_upsert).trans
    ((or_congr_right (mirrored.layers name)).trans (graph.bases.contains_upsert).symm)
  edges name base := neighbour_mention.trans ((mirrored.edges name base).trans neighbour_mention.symm)

theorem Mirrored.addBase (mirrored : graph.Mirrored) (present : graph.contains layer = true) (added : String) :
    (graph.addBase layer added).Mirrored where
  layers name := by
    rw [contains_addBase]
    refine (graph.heirs.contains_upsert).trans ((or_congr_right (mirrored.layers name)).trans ?_)
    refine or_congr_right ⟨.inr, ?_⟩
    rintro (rfl | earlier)
    · exact present
    · exact earlier
  edges name base := by
    rw [inherits_addBase, ← mirrored.edges name base, and_comm]
    exact neighbour_link

theorem Mirrored.add (mirrored : graph.Mirrored) (layer : String) (bases : List String) :
    (graph.add layer bases).Mirrored := by
  suffices folded : ∀ start : LayerGraph, start.Mirrored → start.contains layer = true →
      (bases.foldl (fun graph base => graph.addBase layer base) start).Mirrored from
    folded _ (mirrored.mention layer) (graph.bases.contains_upsert.mpr (.inl rfl))
  induction bases with
  | nil => exact fun _ mirrored _ => mirrored
  | cons base rest ih =>
    intro start mirrored present
    exact ih _ (mirrored.addBase present base) (contains_addBase.mpr (.inr (.inr present)))

/-- Mirrored graphs with the same layers and edges are the same graph. -/
theorem Mirrored.eq (first : left.Mirrored) (second : right.Mirrored)
    (layers : ∀ name, left.contains name = true ↔ right.contains name = true)
    (edges : ∀ name base, left.Inherits name base ↔ right.Inherits name base) : left = right := by
  have bases : left.bases = right.bases := eq_of_neighbours layers edges
  have heirs : left.heirs = right.heirs := by
    refine eq_of_neighbours (fun name => ?_) fun base name => ?_
    · rw [first.layers, second.layers, layers]
    · rw [first.edges, second.edges, edges]
  cases left
  cases right
  cases bases
  cases heirs
  rfl

end Steps

def ofCalls (calls : List (String × List String)) : LayerGraph :=
  calls.foldl (fun graph call => graph.add call.1 call.2) .empty

def Mentions (calls : List (String × List String)) (name : String) : Prop :=
  ∃ call ∈ calls, name = call.1 ∨ name ∈ call.2

def Introduces (calls : List (String × List String)) (name base : String) : Prop :=
  ∃ call ∈ calls, name = call.1 ∧ base ∈ call.2

section Histories

variable {calls others : List (String × List String)} {name base : String}

private theorem ofCalls_concat (calls : List (String × List String)) (call : String × List String) :
    ofCalls (calls ++ [call]) = (ofCalls calls).add call.1 call.2 :=
  List.foldl_concat ..

private theorem mirrored_ofCalls (calls : List (String × List String)) : (ofCalls calls).Mirrored := by
  induction calls using List.reverseRecOn with
  | nil => exact mirrored_empty
  | append_singleton earlier call ih =>
    rw [ofCalls_concat]
    exact ih.add call.1 call.2

private theorem contains_ofCalls : (ofCalls calls).contains name = true ↔ Mentions calls name := by
  induction calls using List.reverseRecOn with
  | nil => exact ⟨nofun, fun ⟨_, absent, _⟩ => nomatch absent⟩
  | append_singleton earlier call ih =>
    rw [ofCalls_concat, contains_add, ih]
    simp only [Mentions, List.mem_append, List.mem_singleton, or_and_right, exists_or, exists_eq_left]
    rw [← or_assoc, or_comm]

theorem inherits_ofCalls : (ofCalls calls).Inherits name base ↔ Introduces calls name base := by
  induction calls using List.reverseRecOn with
  | nil => exact iff_of_false not_neighbour_empty fun ⟨_, absent, _⟩ => nomatch absent
  | append_singleton earlier call ih =>
    rw [ofCalls_concat, inherits_add, ih]
    simp only [Introduces, List.mem_append, List.mem_singleton, or_and_right, exists_or, exists_eq_left]

theorem inherits_eq (calls : List (String × List String)) : (ofCalls calls).Inherits = Introduces calls := by
  funext name base
  exact propext inherits_ofCalls

theorem mem_layers_ofCalls : name ∈ (ofCalls calls).layers ↔ Mentions calls name :=
  mem_layers_iff.trans contains_ofCalls

theorem closed_ofCalls (calls : List (String × List String)) : (ofCalls calls).Closed := by
  intro name base edge
  obtain ⟨call, member, _, listed⟩ := inherits_ofCalls.mp edge
  exact mem_layers_ofCalls.mpr ⟨call, member, .inr listed⟩

/-- The calls build the same graph in whatever order and however often they are made. -/
private theorem ofCalls_eq (layers : ∀ name, Mentions calls name ↔ Mentions others name)
    (edges : ∀ name base, Introduces calls name base ↔ Introduces others name base) : ofCalls calls = ofCalls others := by
  refine (mirrored_ofCalls calls).eq (mirrored_ofCalls others) (fun name => ?_) fun name base => ?_
  · rw [contains_ofCalls, contains_ofCalls, layers]
  · rw [inherits_ofCalls, inherits_ofCalls, edges]

theorem sorted_ofCalls_iff :
    (∃ order, (ofCalls calls).sorted = .ok order) ↔ ∀ layer, ¬ TransGen (Introduces calls) layer layer := by
  rw [← inherits_eq]
  exact ⟨fun ⟨_, sorted⟩ => acyclic_of_sorted sorted, fun acyclic => ⟨_, sorted_of_acyclic (closed_ofCalls calls) acyclic⟩⟩

/-- The order lists the layers that the calls mention, once each and behind their bases. -/
structure Lists (calls : List (String × List String)) (order : List String) : Prop where
  once : order.Nodup
  layers : ∀ name, name ∈ order ↔ Mentions calls name
  behind : ∀ before layer after, order = before ++ layer :: after → ∀ base, Introduces calls layer base → base ∈ before

private theorem lists_of_sorted {order : List String} (sorted : (ofCalls calls).sorted = .ok order) :
    Lists calls order := by
  obtain ⟨rfl, same⟩ := perm_of_sorted sorted
  constructor
  case once => exact same.nodup_iff.mpr (ofCalls calls).nodup_layers
  case layers => exact fun name => same.mem_iff.trans mem_layers_ofCalls
  case behind =>
    intro before layer after split base edge
    have first := (ofCalls calls).basesFirst_finishOrder
    exact (first.mem_of_split split (inherits_ofCalls.mpr edge)).resolve_left List.not_mem_nil

/-- The graph that calls build holds their edges in both directions, and its order of finishing
is the one that counting down comes to. It is sorted exactly if no layer inherits from
itself, into all its layers, once each and behind their bases; and calls that name the
same layers and edges have the same outcome. -/
theorem sorting_lists_layers_behind_bases (calls : List (String × List String)) :
    (ofCalls calls).Mirrored ∧
    (ofCalls calls).CountsDownTo (ofCalls calls).finishOrder ∧
    ((∃ order, (ofCalls calls).sorted = .ok order) ↔ ∀ layer, ¬ TransGen (Introduces calls) layer layer) ∧
    (∀ order, (ofCalls calls).sorted = .ok order → Lists calls order) ∧
    ∀ others, (∀ name, Mentions calls name ↔ Mentions others name) →
      (∀ name base, Introduces calls name base ↔ Introduces others name base) →
      (ofCalls calls).sorted = (ofCalls others).sorted :=
  ⟨mirrored_ofCalls calls, countsDownTo_finishOrder (mirrored_ofCalls calls).edges, sorted_ofCalls_iff, fun _ => lists_of_sorted,
    fun _ layers edges => congrArg sorted (ofCalls_eq layers edges)⟩

/-- Two ways up from the leaf to the root, which itself is never added. -/
def diamond : List (String × List String) :=
  [("leaf", ["left", "right"]), ("left", ["root"]), ("right", ["root"])]

theorem diamond_sorts_in_any_order :
    Lists diamond ["root", "left", "right", "leaf"] ∧
      (ofCalls (diamond ++ diamond.reverse)).sorted = .ok ["root", "left", "right", "leaf"] := by
  have sorted : (ofCalls diamond).sorted = .ok ["root", "left", "right", "leaf"] := by
    have pending : (ofCalls diamond).pending =
        [("leaf", ["left", "right"]), ("left", ["root"]), ("right", ["root"]), ("root", [])] := by decide
    have order : (ofCalls diamond).finishOrder = ["root", "left", "right", "leaf"] := by
      change finishAll (((ofCalls diamond).pending.filter _).map _) ((ofCalls diamond).pending.filter _) = _
      simp [pending, finishAll, freed, blocked, withoutBase]
    simp only [LayerGraph.sorted, order]
    rfl
  obtain ⟨_, _, _, lists, alike⟩ := sorting_lists_layers_behind_bases diamond
  refine ⟨lists _ sorted, ?_⟩
  rw [← sorted]
  exact (alike _ (fun name => by simp [Mentions]) fun name base => by simp [Introduces]).symm

end Histories

end LayerGraph

end PackageRecipes
