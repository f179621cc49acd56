import Mathlib.Data.List.Chain
import PackageRecipes.Proofs.GraphHistories

/-! The search for inheritance cycles. A cycle that it reports leads along bases from a
layer back to itself, with no layer twice on the way; if it reports none, then all layers
can be gone through from their bases on, and so none inherits from itself. -/

namespace PackageRecipes
open Relation

section Cycles

variable {inherits : String → String → Prop} {cycle : List String} {name last : String}

/-- From a layer along bases back to the layer, with no layer twice on the way. -/
structure IsCycle (inherits : String → String → Prop) (cycle : List String) : Prop where
  long : 2 ≤ cycle.length
  closes : cycle.head? = cycle.getLast?
  distinct : cycle.dropLast.Nodup
  steps : cycle.IsChain inherits

private theorem IsCycle.transGen_of_mem (isCycle : IsCycle inherits cycle) (member : name ∈ cycle) :
    TransGen inherits name name := by
  obtain ⟨long, closes, _, steps⟩ := isCycle
  match cycle with
  | first :: second :: rest =>
    obtain ⟨edge, steps⟩ := List.isChain_cons_cons.mp steps
    have again : (second :: rest).getLast? = some first := closes.symm
    obtain ⟨_, last⟩ := List.mem_getLast?_eq_getLast again
    have onward := steps.induction (TransGen inherits first) _ (fun _ _ edge path => path.tail edge) fun _ => .single edge
    have back := steps.backwards_cons_induction (ReflTransGen inherits · first) _ last.symm
      (fun _ _ edge path => path.head edge) .refl
    have later : name ∈ second :: rest := by
      rcases List.mem_cons.mp member with rfl | later
      · exact List.mem_of_getLast? again
      · exact later
    exact .trans_right (back name later) (onward name later)

theorem IsCycle.transGen (isCycle : IsCycle inherits cycle) : ∃ layer, TransGen inherits layer layer := by
  have nonempty : cycle ≠ [] := List.ne_nil_of_length_pos (Nat.lt_of_lt_of_le Nat.two_pos isCycle.long)
  exact ⟨_, isCycle.transGen_of_mem (List.head_mem nonempty)⟩

/-- A way up along bases, its last layer first, that comes back to one of its layers. -/
private theorem isCycle_of_path {path : List String} {base : String}
    (steps : (base :: path).IsChain fun base layer => inherits layer base) (distinct : path.Nodup) (member : base ∈ path) :
    IsCycle inherits (base :: (path.takeWhile (· != base)).reverse ++ [base]) := by
  obtain ⟨front, back, rfl, apart⟩ := List.eq_append_cons_of_mem member
  have before : (front ++ base :: back).takeWhile (· != base) = front := by
    rw [List.takeWhile_append_of_pos fun layer inside => by simpa using ne_of_mem_of_not_mem inside apart]
    simp
  rw [before]
  constructor
  case long => simp
  case closes => rw [List.getLast?_concat]; rfl
  case distinct =>
    have part : (front ++ [base]).Nodup := distinct.sublist (by simp)
    rw [List.dropLast_concat, ← List.nodup_reverse]
    simpa using part
  case steps =>
    have part : (base :: front ++ [base]).IsChain fun base layer => inherits layer base :=
      steps.prefix ⟨back, by simp⟩
    rw [← List.isChain_reverse]
    simpa using part

/-- A way up along bases need not come to a layer twice. It is listed from its last layer. -/
private theorem exists_nodup_of_reflTransGen (way : ReflTransGen inherits name last) :
    ∃ below, (last :: below).IsChain (fun base layer => inherits layer base) ∧ (last :: below).Nodup ∧
      (last :: below).getLast? = some name := by
  induction way with
  | refl => exact ⟨[], .singleton _, List.nodup_singleton _, rfl⟩
  | @tail layer base _ edge ih =>
    obtain ⟨below, steps, distinct, starts⟩ := ih
    by_cases again : base ∈ layer :: below
    · -- the way has been at the base before, and what lies between can be left out
      obtain ⟨between, before, split⟩ := List.append_of_mem again
      rw [split] at steps distinct starts
      rw [List.getLast?_append_of_ne_nil _ (List.cons_ne_nil base before)] at starts
      exact ⟨before, steps.right_of_append, distinct.sublist (List.sublist_append_right ..), starts⟩
    · exact ⟨layer :: below, .cons_cons edge steps, List.nodup_cons.mpr ⟨again, distinct⟩, starts⟩

/-- A layer lies on a cycle exactly if bases lead from it back to it. -/
theorem exists_isCycle_iff : (∃ cycle, IsCycle inherits cycle ∧ name ∈ cycle) ↔ TransGen inherits name name := by
  constructor
  · intro ⟨cycle, isCycle, member⟩
    exact isCycle.transGen_of_mem member
  · intro path
    obtain ⟨last, way, edge⟩ := TransGen.tail'_iff.mp path
    obtain ⟨below, steps, distinct, starts⟩ := exists_nodup_of_reflTransGen way
    have member : name ∈ last :: below := List.mem_of_getLast? starts
    exact ⟨_, isCycle_of_path (.cons_cons edge steps) distinct member, by simp⟩

end Cycles

namespace LayerGraph

variable {graph : LayerGraph} {done after : List String} {walk : List (String × List String)} {cycle : List String}

/-- From each of the layers, bases lead on only so often. -/
def Founded (graph : LayerGraph) (layers : List String) : Prop :=
  ∀ layer ∈ layers, Acc (fun base name => graph.Inherits name base) layer

/-- The bases of the layers on a walk are done, have still to be followed, or lead to the
layer that was entered from there, which is `above`. -/
def Accounted (graph : LayerGraph) (done : List String) : Option String → List (String × List String) → Prop
  | _, [] => True
  | above, (layer, rest) :: below =>
    (∀ base, graph.Inherits layer base → base ∈ done ∨ base ∈ rest ∨ above = some base) ∧
      Accounted graph done (some layer) below

/-- Each layer of a walk is a base of the one it was entered from, none is on it twice,
and what has been left behind leads to no cycle. -/
structure Walks (graph : LayerGraph) (done : List String) (walk : List (String × List String)) : Prop where
  founded : graph.Founded done
  steps : (walkLayers walk).IsChain fun base layer => graph.Inherits layer base
  distinct : (walkLayers walk).Nodup
  remain : ∀ entry ∈ walk, ∀ base ∈ entry.2, graph.Inherits entry.1 base
  accounted : graph.Accounted done none walk

section Steps

variable {layer base : String} {rest : List String} {below : List (String × List String)} {above : Option String}

theorem Accounted.mono {more : List String} (accounted : graph.Accounted done above walk)
    (kept : ∀ layer ∈ done, layer ∈ more) : graph.Accounted more above walk := by
  induction walk generalizing above with
  | nil => exact trivial
  | cons entry below ih => exact ⟨fun base edge => (accounted.1 base edge).imp_left (kept base), ih accounted.2⟩

private theorem Accounted.leave (accounted : graph.Accounted done (some layer) walk) :
    graph.Accounted (layer :: done) none walk := by
  cases walk with
  | nil => exact trivial
  | cons entry below =>
    refine ⟨fun base edge => ?_, accounted.2.mono fun _ => List.mem_cons_of_mem layer⟩
    rcases accounted.1 base edge with before | remains | here
    · exact .inl (List.mem_cons_of_mem layer before)
    · exact .inr (.inl remains)
    · cases here
      exact .inl List.mem_cons_self

private theorem walks_start (founded : graph.Founded done) (layer : String) :
    graph.Walks done [(layer, graph.basesOf layer)] where
  founded := founded
  steps := .singleton layer
  distinct := List.nodup_singleton layer
  remain := by simpa using fun base => mem_basesOf_iff.mp
  accounted := ⟨fun _ edge => .inr (.inl (mem_basesOf_iff.mpr edge)), trivial⟩

/-- A layer all of whose bases are done leads to no cycle. -/
private theorem Walks.founded_top (walks : graph.Walks done ((layer, []) :: below)) :
    graph.Founded (layer :: done) := by
  intro other member
  rcases List.mem_cons.mp member with rfl | before
  · refine ⟨_, fun base edge => walks.founded base ?_⟩
    rcases walks.accounted.1 base edge with before | none | none
    · exact before
    · cases none
    · cases none
  · exact walks.founded other before

private theorem Walks.leave (walks : graph.Walks done ((layer, []) :: below)) : graph.Walks (layer :: done) below where
  founded := walks.founded_top
  steps := walks.steps.tail
  distinct := walks.distinct.of_cons
  remain := fun entry member => walks.remain entry (List.mem_cons_of_mem _ member)
  accounted := walks.accounted.2.leave

theorem Walks.skip (walks : graph.Walks done ((layer, base :: rest) :: below)) (known : base ∈ done) :
    graph.Walks done ((layer, rest) :: below) where
  founded := walks.founded
  steps := walks.steps
  distinct := walks.distinct
  remain := by
    have remain := walks.remain
    rw [List.forall_mem_cons] at remain ⊢
    exact ⟨fun other member => remain.1 other (List.mem_cons_of_mem base member), remain.2⟩
  accounted := by
    refine ⟨fun other edge => ?_, walks.accounted.2⟩
    rcases walks.accounted.1 other edge with before | remains | none
    · exact .inl before
    · rcases List.mem_cons.mp remains with rfl | later
      · exact .inl known
      · exact .inr (.inl later)
    · cases none

theorem Walks.edge (walks : graph.Walks done ((layer, base :: rest) :: below)) : graph.Inherits layer base :=
  walks.remain _ List.mem_cons_self base List.mem_cons_self

private theorem Walks.enter (walks : graph.Walks done ((layer, base :: rest) :: below))
    (new : base ∉ layer :: walkLayers below) :
    graph.Walks done ((base, graph.basesOf base) :: (layer, rest) :: below) where
  founded := walks.founded
  steps := .cons_cons walks.edge walks.steps
  distinct := List.nodup_cons.mpr ⟨new, walks.distinct⟩
  remain := by
    have remain := walks.remain
    rw [List.forall_mem_cons] at remain
    simp only [List.forall_mem_cons]
    exact ⟨fun other => mem_basesOf_iff.mp, fun other member => remain.1 other (List.mem_cons_of_mem base member), remain.2⟩
  accounted := by
    refine ⟨fun other edge => .inr (.inl (mem_basesOf_iff.mpr edge)), fun other edge => ?_, walks.accounted.2⟩
    rcases walks.accounted.1 other edge with before | remains | none
    · exact .inl before
    · rcases List.mem_cons.mp remains with rfl | later
      · exact .inr (.inr rfl)
      · exact .inr (.inl later)
    · cases none

private theorem Walks.isCycle (walks : graph.Walks done ((layer, base :: rest) :: below))
    (member : base ∈ layer :: walkLayers below) :
    IsCycle graph.Inherits (base :: ((layer :: walkLayers below).takeWhile (· != base)).reverse ++ [base]) :=
  isCycle_of_path (.cons_cons walks.edge walks.steps) walks.distinct member

end Steps

section Search

/-- A search ends with a cycle, or with all that it has started from done and led to no cycle. -/
def Settles (graph : LayerGraph) (starts : List String) : List String × Option (List String) → Prop
  | (_, some cycle) => IsCycle graph.Inherits cycle
  | (after, none) => graph.Founded after ∧ ∀ layer ∈ starts, layer ∈ after

theorem Settles.mono {outcome : List String × Option (List String)} {starts fewer : List String}
    (settles : graph.Settles starts outcome) (kept : ∀ layer ∈ fewer, layer ∈ starts) : graph.Settles fewer outcome := by
  obtain ⟨after, _ | cycle⟩ := outcome
  · exact ⟨settles.1, fun layer member => settles.2 layer (kept layer member)⟩
  · exact settles

private theorem settles_followBases (walks : graph.Walks done walk) :
    graph.Settles (walkLayers walk ++ done) (followBases graph done walk) := by
  fun_induction followBases graph done walk with
  | case1 done => exact ⟨walks.founded, fun _ member => member⟩
  | case2 done layer below ih => exact (ih walks.leave).mono (by simp [walkLayers]; grind)
  | case3 done layer base rest below path member => exact walks.isCycle (List.contains_iff_mem.mp member)
  | case4 done layer base rest below path new known ih => exact ih (walks.skip (by simpa using known))
  | case5 done layer base rest below path new unknown ih =>
    exact (ih (walks.enter (mt List.contains_iff_mem.mpr new))).mono fun layer => List.mem_cons_of_mem base

/-- Searches from one layer after another end with the first cycle that there is. -/
private theorem firstCycle_settles {layers : List String} (founded : graph.Founded done) :
    (∀ cycle, firstCycle graph done layers = some cycle → IsCycle graph.Inherits cycle) ∧
      (firstCycle graph done layers = none → graph.Founded layers) := by
  induction layers generalizing done with
  | nil => exact ⟨nofun, fun _ => nofun⟩
  | cons layer rest ih =>
    have settles := settles_followBases (walks_start founded layer)
    rw [firstCycle]
    split
    next known =>
      obtain ⟨real, absent⟩ := ih founded
      exact ⟨real, fun none => List.forall_mem_cons.mpr ⟨founded layer (List.contains_iff_mem.mp known), absent none⟩⟩
    next =>
      split
      next run =>
        rw [run] at settles
        exact ⟨fun _ same => Option.some.inj same ▸ settles, nofun⟩
      next run =>
        rw [run] at settles
        obtain ⟨real, absent⟩ := ih settles.1
        have here := settles.1 layer (settles.2 layer List.mem_cons_self)
        exact ⟨real, fun none => List.forall_mem_cons.mpr ⟨here, absent none⟩⟩

end Search

private theorem founded_nil : graph.Founded [] :=
  nofun

private theorem isCycle_of_cycle? (found : graph.cycle? = some cycle) : IsCycle graph.Inherits cycle :=
  (firstCycle_settles founded_nil).1 cycle found

theorem cycle?_eq_none_iff : graph.cycle? = none ↔ graph.Acyclic := by
  constructor
  · intro absent layer cycle
    obtain ⟨base, edge, _⟩ := TransGen.head'_iff.mp cycle
    have founded := (firstCycle_settles founded_nil).2 absent
    exact not_cyclic_of_acc (founded layer (mem_layers_of_inherits edge)) cycle
  · intro acyclic
    refine Option.eq_none_iff_forall_ne_some.mpr fun cycle found => ?_
    obtain ⟨layer, path⟩ := (isCycle_of_cycle? found).transGen
    exact acyclic layer path

theorem cycle?_isSome_iff : graph.cycle?.isSome = true ↔ ∃ layer, TransGen graph.Inherits layer layer := by
  rw [Option.isSome_iff_ne_none, ne_eq, cycle?_eq_none_iff, Acyclic, not_forall_not]

theorem error_of_sorted {error : Error} (failed : graph.sorted = .error error) :
    error = .inheritance (.cycle (graph.cycle?.getD [])) := by
  rw [LayerGraph.sorted] at failed
  split at failed
  next => cases failed
  next => exact (Except.error.inj failed).symm

/-- Sorting fails with the cycle that the search finds, and not without one. -/
theorem sorted_eq_error_iff {error : Error} (closed : graph.Closed) :
    graph.sorted = .error error ↔ ∃ cycle, graph.cycle? = some cycle ∧ error = .inheritance (.cycle cycle) := by
  constructor
  · intro failed
    have error := error_of_sorted failed
    cases found : graph.cycle? with
    | none =>
      rw [sorted_of_acyclic closed (cycle?_eq_none_iff.mp found)] at failed
      cases failed
    | some cycle => exact ⟨cycle, rfl, by rw [error, found, Option.getD_some]⟩
  · rintro ⟨cycle, found, rfl⟩
    cases sorted : graph.sorted with
    | ok order => simp [cycle?_eq_none_iff.mpr (acyclic_of_sorted sorted)] at found
    | error error => rw [error_of_sorted sorted, found, Option.getD_some]

/-- Whatever calls have built the graph, a cycle is found exactly if a layer inherits from itself. It
leads along direct bases from a layer back to the layer, with no layer twice on the way,
and it is what sorting fails with. -/
theorem reported_cycles_are_real (calls : List (String × List String)) :
    ((ofCalls calls).cycle?.isSome = true ↔ ∃ layer, TransGen (Introduces calls) layer layer) ∧
    (∀ cycle, (ofCalls calls).cycle? = some cycle → IsCycle (Introduces calls) cycle) ∧
    (∀ error, (ofCalls calls).sorted = .error error ↔
      ∃ cycle, (ofCalls calls).cycle? = some cycle ∧ error = .inheritance (.cycle cycle)) := by
  rw [← inherits_eq]
  exact ⟨cycle?_isSome_iff, fun _ => isCycle_of_cycle?, fun _ => sorted_eq_error_iff (closed_ofCalls calls)⟩

/-- Two layers that inherit from one another, and one below them that is on no cycle. -/
def loop : List (String × List String) :=
  [("app", ["left"]), ("left", ["right"]), ("right", ["left"])]

theorem loop_is_reported :
    IsCycle (Introduces loop) ["left", "right", "left"] ∧
      (ofCalls loop).sorted = .error (.inheritance (.cycle ["left", "right", "left"])) := by
  have found : (ofCalls loop).cycle? = some ["left", "right", "left"] := by
    have layers : (ofCalls loop).layers = ["app", "left", "right"] := by decide
    have app : (ofCalls loop).basesOf "app" = ["left"] := by decide
    have left : (ofCalls loop).basesOf "left" = ["right"] := by decide
    have right : (ofCalls loop).basesOf "right" = ["left"] := by decide
    simp [cycle?, layers, firstCycle, followBases, walkLayers, app, left, right]
  obtain ⟨_, real, fails⟩ := reported_cycles_are_real loop
  exact ⟨real _ found, (fails _).mpr ⟨_, found, rfl⟩⟩

end LayerGraph

end PackageRecipes
