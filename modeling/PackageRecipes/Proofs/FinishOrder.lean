import Mathlib.Data.Fintype.Card
import Mathlib.Data.Fintype.EquivFin
import Mathlib.Data.Fintype.Sets
import Mathlib.Logic.Relation
import PackageRecipes.Proofs.GraphEdges

/-! The order in which layers are finished. Each comes once and behind its bases, and
all of them come if no layer inherits from itself. -/

namespace PackageRecipes
open Relation

section Founded

variable {ι : Type} {inherits : ι → ι → Prop}

theorem not_cyclic_of_acc {layer : ι} (founded : Acc (fun base layer => inherits layer base) layer) :
    ¬ TransGen inherits layer layer := by
  induction founded with
  | intro layer _ ih =>
    intro cycle
    obtain ⟨base, edge, path⟩ := TransGen.head'_iff.mp cycle
    exact ih base edge (.tail' path edge)

/-- Without cycles, finitely many layers can be gone through from their bases on. -/
theorem acc_of_acyclic [Finite ι] (acyclic : ∀ layer, ¬ TransGen inherits layer layer) (layer : ι) :
    Acc (fun base layer => inherits layer base) layer := by
  let below (first second : ι) : Prop := TransGen inherits second first
  have transitive : IsTrans ι below := ⟨fun _ _ _ early late => late.trans early⟩
  have irreflexive : Std.Irrefl below := ⟨acyclic⟩
  exact Subrelation.accessible (fun edge => .single edge) ((Finite.wellFounded_of_trans_of_irrefl below).apply layer)

end Founded

namespace LayerGraph

variable {graph : LayerGraph}

/-- The layers come behind their bases, where those in `done` have come before. -/
def BasesFirst (graph : LayerGraph) : List String → List String → Prop
  | _, [] => True
  | done, layer :: rest => (∀ base, graph.Inherits layer base → base ∈ done) ∧ BasesFirst graph (layer :: done) rest

def Acyclic (graph : LayerGraph) : Prop :=
  ∀ layer, ¬ TransGen graph.Inherits layer layer

/-- Leaving out layers keeps the order, if what is left has all its bases. -/
theorem BasesFirst.filter {done order : List String} {needed : String → Bool} (first : graph.BasesFirst done order)
    (closed : ∀ layer base, graph.Inherits layer base → needed layer = true → needed base = true) :
    graph.BasesFirst (done.filter needed) (order.filter needed) := by
  induction order generalizing done with
  | nil => exact trivial
  | cons layer rest ih =>
    have later := ih first.2
    rw [List.filter_cons] at later ⊢
    by_cases kept : needed layer = true
    · rw [if_pos kept] at later ⊢
      refine ⟨fun base edge => ?_, later⟩
      exact List.mem_filter.mpr ⟨first.1 base edge, closed layer base edge kept⟩
    · rw [if_neg kept] at later ⊢
      exact later

theorem BasesFirst.mem_of_split {done order before after : List String} {layer base : String}
    (first : graph.BasesFirst done order) (split : order = before ++ layer :: after) (edge : graph.Inherits layer base) :
    base ∈ done ∨ base ∈ before := by
  induction before generalizing done order with
  | nil =>
    subst split
    exact .inl (first.1 base edge)
  | cons head rest ih =>
    subst split
    rcases ih first.2 rfl with earlier | later
    · rcases List.mem_cons.mp earlier with rfl | before
      · exact .inr List.mem_cons_self
      · exact .inl before
    · exact .inr (List.mem_cons_of_mem head later)

section Steps

variable {layer name : String} {entry : String × List String} {waiting : List (String × List String)}

theorem mem_freed_iff :
    name ∈ freed layer waiting ↔ ∃ entry ∈ waiting, entry.1 = name ∧ entry.2.filter (· != layer) = [] := by
  simp only [freed, withoutBase, List.mem_map, List.mem_filter, List.isEmpty_iff]
  constructor
  · rintro ⟨_, ⟨⟨entry, member, rfl⟩, free⟩, rfl⟩
    exact ⟨entry, member, rfl, free⟩
  · rintro ⟨entry, member, rfl, free⟩
    exact ⟨_, ⟨⟨entry, member, rfl⟩, free⟩, rfl⟩

theorem mem_blocked_iff :
    entry ∈ blocked layer waiting ↔
      ∃ before ∈ waiting, entry = (before.1, before.2.filter (· != layer)) ∧ entry.2 ≠ [] := by
  simp only [blocked, withoutBase, List.mem_map, List.mem_filter, Bool.not_eq_true', List.isEmpty_eq_false_iff]
  constructor
  · rintro ⟨⟨before, member, rfl⟩, left⟩
    exact ⟨before, member, rfl, left⟩
  · rintro ⟨before, member, rfl, left⟩
    exact ⟨⟨before, member, rfl⟩, left⟩

theorem perm_freed_blocked (layer : String) (waiting : List (String × List String)) :
    (freed layer waiting ++ (blocked layer waiting).map (·.1)).Perm (waiting.map (·.1)) := by
  have names : (withoutBase layer waiting).map (·.1) = waiting.map (·.1) := by
    simp [withoutBase, Function.comp_def]
  rw [freed, blocked, ← List.map_append, ← names]
  exact (List.filter_append_perm (fun entry => entry.2.isEmpty) (withoutBase layer waiting)).map (·.1)

/-- The bases of queued layers are all done; those of a waiting one are done or waited for. -/
structure Waits (graph : LayerGraph) (done queue : List String) (waiting : List (String × List String)) : Prop where
  ready : ∀ layer ∈ queue, ∀ base, graph.Inherits layer base → base ∈ done
  waits : ∀ entry ∈ waiting, ∀ base, graph.Inherits entry.1 base → base ∈ done ∨ base ∈ entry.2

theorem Waits.finish {done rest : List String} (waits : graph.Waits done (layer :: rest) waiting) :
    graph.Waits (layer :: done) (rest ++ freed layer waiting) (blocked layer waiting) := by
  have shrunk : ∀ entry ∈ waiting, ∀ base, graph.Inherits entry.1 base →
      base ∈ layer :: done ∨ base ∈ entry.2.filter (· != layer) := by
    intro entry member base edge
    by_cases same : base = layer
    · exact .inl (same ▸ List.mem_cons_self)
    · rcases waits.waits entry member base edge with before | left
      · exact .inl (List.mem_cons_of_mem layer before)
      · exact .inr (List.mem_filter.mpr ⟨left, by simpa using same⟩)
  constructor
  case ready =>
    intro name member base edge
    rcases List.mem_append.mp member with queued | free
    · exact List.mem_cons_of_mem layer (waits.ready name (List.mem_cons_of_mem layer queued) base edge)
    · obtain ⟨entry, present, rfl, none⟩ := mem_freed_iff.mp free
      rcases shrunk entry present base edge with before | left
      · exact before
      · rw [none] at left
        cases left
  case waits =>
    intro entry member base edge
    obtain ⟨before, present, rfl, _⟩ := mem_blocked_iff.mp member
    exact shrunk before present base edge

end Steps

section Runs

variable {queue : List String} {waiting : List (String × List String)}

private theorem basesFirst_finishAll {done : List String} (waits : graph.Waits done queue waiting) :
    graph.BasesFirst done (finishAll queue waiting) := by
  fun_induction finishAll queue waiting generalizing done with
  | case1 waiting => exact trivial
  | case2 waiting layer rest ih => exact ⟨waits.ready layer List.mem_cons_self, ih waits.finish⟩

theorem perm_finishAll (queue : List String) (waiting : List (String × List String)) :
    ∃ stuck, (finishAll queue waiting ++ stuck).Perm (queue ++ waiting.map (·.1)) := by
  fun_induction finishAll queue waiting with
  | case1 waiting => exact ⟨waiting.map (·.1), .refl _⟩
  | case2 waiting layer rest ih =>
    obtain ⟨stuck, same⟩ := ih
    refine ⟨stuck, .cons layer (same.trans ?_)⟩
    rw [List.append_assoc]
    exact (perm_freed_blocked layer waiting).append_left rest

private theorem mem_finishAll_of_queued {name : String} (queued : name ∈ queue) : name ∈ finishAll queue waiting := by
  fun_induction finishAll queue waiting with
  | case1 waiting => cases queued
  | case2 waiting layer rest ih =>
    rcases List.mem_cons.mp queued with rfl | later
    · exact List.mem_cons_self
    · exact List.mem_cons_of_mem layer (ih (List.mem_append_left _ later))

private theorem mem_finishAll_of_waiting {entry : String × List String} (member : entry ∈ waiting) (left : entry.2 ≠ [])
    (finished : ∀ base ∈ entry.2, base ∈ finishAll queue waiting) : entry.1 ∈ finishAll queue waiting := by
  fun_induction finishAll queue waiting generalizing entry with
  | case1 waiting =>
    obtain ⟨base, inside⟩ := List.exists_mem_of_ne_nil _ left
    cases finished base inside
  | case2 waiting layer rest ih =>
    apply List.mem_cons_of_mem
    by_cases free : entry.2.filter (· != layer) = []
    · have freed := mem_freed_iff.mpr ⟨entry, member, rfl, free⟩
      exact mem_finishAll_of_queued (List.mem_append_right _ freed)
    · have shrunk : (entry.1, entry.2.filter (· != layer)) ∈ blocked layer waiting :=
        mem_blocked_iff.mpr ⟨entry, member, rfl, free⟩
      have remaining : ∀ base ∈ entry.2.filter (· != layer),
          base ∈ finishAll (rest ++ freed layer waiting) (blocked layer waiting) := by
        intro base inside
        obtain ⟨present, other⟩ := List.mem_filter.mp inside
        rcases List.mem_cons.mp (finished base present) with rfl | later
        · simp at other
        · exact later
      have later := ih shrunk free remaining
      exact later

end Runs

theorem nodup_layers (graph : LayerGraph) : graph.layers.Nodup :=
  graph.bases.nodup_keys

/-- The layers and their bases, as finishing starts out from them. -/
def pending (graph : LayerGraph) : List (String × List String) :=
  graph.bases.entries.map fun (name, bases) => (name, bases.toList)

theorem map_fst_pending (graph : LayerGraph) : graph.pending.map (·.1) = graph.layers := by
  simp [pending, layers, OrderedMap.keys, Function.comp_def]

theorem snd_of_mem_pending {entry : String × List String} (member : entry ∈ graph.pending) :
    entry.2 = graph.basesOf entry.1 := by
  obtain ⟨⟨name, bases⟩, present, rfl⟩ := List.mem_map.mp member
  have found : graph.bases.find? name = some bases := graph.bases.find?_of_mem present
  simp [basesOf, bases?, found]

theorem basesFirst_finishOrder (graph : LayerGraph) : graph.BasesFirst [] graph.finishOrder := by
  apply basesFirst_finishAll
  constructor
  case ready =>
    intro layer member base edge
    obtain ⟨entry, queued, rfl⟩ := List.mem_map.mp member
    obtain ⟨present, free⟩ := List.mem_filter.mp queued
    have inside := mem_basesOf_iff.mpr edge
    rw [← snd_of_mem_pending present, List.isEmpty_iff.mp free] at inside
    exact inside
  case waits =>
    intro entry member base edge
    rw [snd_of_mem_pending (List.mem_filter.mp member).1]
    exact .inr (mem_basesOf_iff.mpr edge)

theorem perm_pending (graph : LayerGraph) :
    ((graph.pending.filter fun entry => entry.2.isEmpty).map (·.1) ++
      (graph.pending.filter fun entry => !entry.2.isEmpty).map (·.1)).Perm graph.layers := by
  rw [← List.map_append, ← map_fst_pending]
  exact (List.filter_append_perm (fun entry => entry.2.isEmpty) graph.pending).map (·.1)

theorem perm_finishOrder (graph : LayerGraph) : ∃ stuck, (graph.finishOrder ++ stuck).Perm graph.layers :=
  (perm_finishAll _ _).imp fun _ same => same.trans graph.perm_pending

/-- Without cycles, the layers can be gone through from their bases on. -/
theorem acc_inherits (closed : graph.Closed) (acyclic : graph.Acyclic) (layer : String) :
    Acc (fun base name => graph.Inherits name base) layer := by
  let inside (layer base : {name // name ∈ graph.layers}) : Prop := graph.Inherits layer.1 base.1
  have apart : ∀ layer, ¬ TransGen inside layer layer := fun layer cycle =>
    acyclic layer.1 (cycle.lift Subtype.val fun _ _ edge => edge)
  have founded : ∀ start : {name // name ∈ graph.layers}, Acc (fun base name => graph.Inherits name base) start.1 := by
    intro start
    induction acc_of_acyclic apart start with
    | intro start _ ih => exact ⟨_, fun base edge => ih ⟨base, closed start.1 base edge⟩ edge⟩
  exact ⟨_, fun base edge => founded ⟨base, closed layer base edge⟩⟩

theorem mem_finishOrder (closed : graph.Closed) (acyclic : graph.Acyclic) {layer : String}
    (member : layer ∈ graph.layers) : layer ∈ graph.finishOrder := by
  induction acc_inherits closed acyclic layer with
  | intro layer _ ih =>
    rw [← map_fst_pending] at member
    obtain ⟨entry, present, rfl⟩ := List.mem_map.mp member
    by_cases free : entry.2 = []
    · apply mem_finishAll_of_queued
      exact List.mem_map_of_mem (List.mem_filter.mpr ⟨present, by simp [free]⟩)
    · refine mem_finishAll_of_waiting (List.mem_filter.mpr ⟨present, by simp [free]⟩) free fun base inside => ?_
      rw [snd_of_mem_pending present] at inside
      have edge := mem_basesOf_iff.mp inside
      exact ih base edge (closed entry.1 base edge)

theorem perm_of_sorted {order : List String} (sorted : graph.sorted = .ok order) :
    order = graph.finishOrder ∧ order.Perm graph.layers := by
  rw [LayerGraph.sorted] at sorted
  split at sorted
  next complete =>
    cases sorted
    obtain ⟨stuck, same⟩ := graph.perm_finishOrder
    have length := same.length_eq
    have whole : graph.layers.length = graph.size := by simp [layers, size, OrderedMap.keys, OrderedMap.size]
    rw [List.length_append, whole, complete] at length
    have none : stuck = [] := List.eq_nil_of_length_eq_zero (by omega)
    rw [none, List.append_nil] at same
    exact ⟨rfl, same⟩
  next => cases sorted

/-- Layers behind their bases lead back to none of themselves. -/
theorem acc_of_basesFirst {done order : List String} (first : graph.BasesFirst done order)
    (founded : ∀ layer ∈ done, Acc (fun base name => graph.Inherits name base) layer) {layer : String}
    (member : layer ∈ order) : Acc (fun base name => graph.Inherits name base) layer := by
  induction order generalizing done with
  | nil => cases member
  | cons head rest ih =>
    have here : Acc (fun base name => graph.Inherits name base) head :=
      ⟨_, fun base edge => founded base (first.1 base edge)⟩
    rcases List.mem_cons.mp member with rfl | later
    · exact here
    · refine ih first.2 (fun layer earlier => ?_) later
      rcases List.mem_cons.mp earlier with rfl | before
      · exact here
      · exact founded layer before

theorem acyclic_of_sorted {order : List String} (sorted : graph.sorted = .ok order) : graph.Acyclic := by
  obtain ⟨rfl, same⟩ := perm_of_sorted sorted
  intro layer cycle
  obtain ⟨base, edge, _⟩ := TransGen.head'_iff.mp cycle
  have member := same.mem_iff.mpr (mem_layers_of_inherits edge)
  have founded := acc_of_basesFirst graph.basesFirst_finishOrder (fun _ none => absurd none List.not_mem_nil) member
  exact not_cyclic_of_acc founded cycle

theorem sorted_of_acyclic (closed : graph.Closed) (acyclic : graph.Acyclic) :
    graph.sorted = .ok graph.finishOrder := by
  obtain ⟨stuck, same⟩ := graph.perm_finishOrder
  have nodup : (graph.finishOrder ++ stuck).Nodup := same.nodup_iff.mpr graph.nodup_layers
  have none : stuck = [] := by
    apply List.eq_nil_iff_forall_not_mem.mpr
    intro layer left
    have finished := mem_finishOrder closed acyclic (same.mem_iff.mp (List.mem_append_right _ left))
    exact (List.nodup_append.mp nodup).2.2 layer finished layer left rfl
  have complete : graph.finishOrder.length = graph.size := by
    rw [none, List.append_nil] at same
    rw [same.length_eq]
    simp [layers, size, OrderedMap.keys, OrderedMap.size]
  simp only [LayerGraph.sorted, complete, if_true]

end LayerGraph

end PackageRecipes
