import PackageRecipes.Proofs.FinishOrder
import PackageRecipes.Proofs.SortedLists

/-! Finishing layers by counting. For each layer only the number of bases still to come is
kept; a finished layer counts its heirs down, and an heir with nothing left to count joins
the queue. This ends, and finishes the layers in the same order as crossing the bases off
one by one, if the heirs of a layer are those that have it as a base. -/

namespace PackageRecipes
open Relation

namespace LayerGraph

def heirsOf (graph : LayerGraph) (name : String) : List String :=
  (graph.heirs? name).getD []

/-- The layers finished so far, those that can be finished next, and for each layer
how many of its bases are still to come. -/
structure Countdown where
  done : List String
  queue : List String
  left : OrderedMap String Nat

namespace Countdown

/-- One base less to wait for; an heir that has none left joins the queue. -/
def release (state : Countdown) (heir : String) : Countdown :=
  match state.left.find? heir with
  | none => state
  | some count =>
    { state with
      left := state.left.insert heir (count - 1)
      queue := if count - 1 = 0 then state.queue ++ [heir] else state.queue }

def step (graph : LayerGraph) (state : Countdown) : Option Countdown :=
  match state.queue with
  | [] => none
  | layer :: rest => some ((graph.heirsOf layer).foldl release ⟨state.done ++ [layer], rest, state.left⟩)

def start (graph : LayerGraph) : Countdown :=
  let left := graph.bases.mapValues (·.size)
  ⟨[], (left.entries.filter fun entry => entry.2 == 0).map (·.1), left⟩

def Leads (graph : LayerGraph) : Countdown → Countdown → Prop :=
  ReflTransGen fun before after => step graph before = some after

section Releases

variable {heirs : List String}

def waitsForLast (left : OrderedMap String Nat) (heir : String) : Bool :=
  (left.find? heir).any (· ≤ 1)

private theorem done_release (state : Countdown) (heir : String) : (state.release heir).done = state.done := by
  unfold release
  split <;> rfl

private theorem find?_left_release (state : Countdown) (heir name : String) :
    (state.release heir).left.find? name =
      if name = heir then (state.left.find? name).map (· - 1) else state.left.find? name := by
  unfold release
  split
  next absent =>
    split
    next same => rw [same, absent, Option.map_none]
    next => rfl
  next count found =>
    simp only [OrderedMap.find?_insert, Std.LawfulEqOrd.compare_eq_iff_eq]
    split
    next same => rw [same, found, Option.map_some]
    next => rfl

private theorem queue_release (state : Countdown) (heir : String) :
    (state.release heir).queue = state.queue ++ [heir].filter (waitsForLast state.left) := by
  unfold release
  split
  next absent => simp [waitsForLast, absent]
  next count found =>
    by_cases last : count ≤ 1
    · simp [waitsForLast, found, last, Nat.sub_eq_zero_of_le last]
    · simp [waitsForLast, found, last, Nat.sub_ne_zero_of_lt (Nat.lt_of_not_le last)]

private theorem done_foldl_release (state : Countdown) (heirs : List String) :
    (heirs.foldl release state).done = state.done := by
  induction heirs generalizing state with
  | nil => rfl
  | cons heir rest ih => exact (ih _).trans (state.done_release heir)

private theorem find?_left_foldl_release (state : Countdown) (once : heirs.Nodup) (name : String) :
    (heirs.foldl release state).left.find? name =
      if name ∈ heirs then (state.left.find? name).map (· - 1) else state.left.find? name := by
  induction heirs generalizing state with
  | nil => rfl
  | cons heir rest ih =>
    obtain ⟨apart, later⟩ := List.nodup_cons.mp once
    rw [List.foldl_cons, ih _ later, find?_left_release]
    by_cases same : name = heir
    · simp [same, apart]
    · simp [same]

private theorem queue_foldl_release (state : Countdown) (once : heirs.Nodup) :
    (heirs.foldl release state).queue = state.queue ++ heirs.filter (waitsForLast state.left) := by
  induction heirs generalizing state with
  | nil => simp
  | cons heir rest ih =>
    obtain ⟨apart, later⟩ := List.nodup_cons.mp once
    -- counting the first heir down does not tell on those behind it
    have unchanged : rest.filter (waitsForLast (state.release heir).left) = rest.filter (waitsForLast state.left) := by
      refine List.filter_congr fun name member => ?_
      have different : name ≠ heir := fun same => apart (same ▸ member)
      rw [waitsForLast, find?_left_release, if_neg different, waitsForLast]
    rw [List.foldl_cons, ih _ later, queue_release, unchanged, List.append_assoc, ← List.filter_append]
    rfl

end Releases

end Countdown

section Waiting

variable {graph : LayerGraph} {layer : String} {done rest : List String} {waiting : List (String × List String)}
  {left : OrderedMap String Nat}

/-- Layers come up once each, and one that misses a base is waiting. The waiting ones, in
order, list the bases that they miss, as many as are counted for them. -/
structure Counts (graph : LayerGraph) (done queue : List String) (waiting : List (String × List String))
    (left : OrderedMap String Nat) : Prop where
  once : (done ++ (queue ++ waiting.map (·.1))).Nodup
  increasing : Increasing (waiting.map (·.1))
  waits : ∀ name base, graph.Inherits name base → base ∉ done → ∃ missing, (name, missing) ∈ waiting
  misses : ∀ name missing, (name, missing) ∈ waiting →
    ∀ base, base ∈ missing ↔ graph.Inherits name base ∧ base ∉ done
  distinct : ∀ name missing, (name, missing) ∈ waiting → missing.Nodup ∧ missing ≠ []
  count : ∀ name missing, (name, missing) ∈ waiting → left.find? name = some missing.length

private theorem map_fst_withoutBase : (withoutBase layer waiting).map (·.1) = waiting.map (·.1) := by
  simp [withoutBase, Function.comp_def]

/-- Whichever layers are taken out of the waiting ones, their order stays. -/
private theorem increasing_filter_withoutBase (increasing : Increasing (waiting.map (·.1)))
    (taken : String × List String → Bool) :
    Increasing (((withoutBase layer waiting).filter taken).map (·.1)) := by
  rw [← @map_fst_withoutBase layer] at increasing
  exact increasing.sublist (List.filter_sublist.map _)

private theorem increasing_heirsOf (graph : LayerGraph) (layer : String) : Increasing (graph.heirsOf layer) := by
  rw [heirsOf, heirs?]
  cases graph.heirs.find? layer with
  | none => exact .nil
  | some heirs => exact heirs.increasing_keys

private theorem mem_heirsOf_iff {heir : String} : heir ∈ graph.heirsOf layer ↔ Neighbour graph.heirs layer heir := by
  rw [heirsOf, heirs?, Neighbour]
  cases graph.heirs.find? layer <;> simp

private theorem nodup_heirsOf (graph : LayerGraph) (layer : String) : (graph.heirsOf layer).Nodup := by
  rw [heirsOf, heirs?]
  cases graph.heirs.find? layer with
  | none => exact .nil
  | some heirs => exact heirs.nodup_keys

private theorem Counts.not_mem_done (counts : graph.Counts done (layer :: rest) waiting left) : layer ∉ done :=
  fun early => (List.nodup_append.mp counts.once).2.2 layer early layer List.mem_cons_self rfl

section Finishing

variable (mirrored : ∀ name base, Neighbour graph.heirs base name ↔ graph.Inherits name base)
include mirrored

private theorem Counts.mem_heirsOf_iff_mem (counts : graph.Counts done (layer :: rest) waiting left) {name : String}
    {missing : List String} (member : (name, missing) ∈ waiting) :
    name ∈ graph.heirsOf layer ↔ layer ∈ missing := by
  rw [mem_heirsOf_iff, mirrored, counts.misses name missing member, and_iff_left counts.not_mem_done]

private theorem Counts.length_filter_ne (counts : graph.Counts done (layer :: rest) waiting left) {name : String}
    {missing : List String} (member : (name, missing) ∈ waiting) :
    (missing.filter (· != layer)).length =
      if name ∈ graph.heirsOf layer then missing.length - 1 else missing.length := by
  rw [← (counts.distinct name missing member).1.erase_eq_filter, List.length_erase]
  simp only [counts.mem_heirsOf_iff_mem mirrored member]

/-- The heirs that wait for nothing but the layer are those that its finishing frees. Both come
in the order of names, so it is enough that they are the same ones. -/
private theorem Counts.filter_heirsOf (counts : graph.Counts done (layer :: rest) waiting left) :
    (graph.heirsOf layer).filter (Countdown.waitsForLast left) = freed layer waiting := by
  refine eq_of_increasing ((graph.increasing_heirsOf layer).filter _)
    (increasing_filter_withoutBase counts.increasing _) fun name => ?_
  rw [List.mem_filter, mem_freed_iff]
  constructor
  · rintro ⟨heir, last⟩
    have edge := (mirrored name layer).mp (mem_heirsOf_iff.mp heir)
    obtain ⟨missing, member⟩ := counts.waits name layer edge counts.not_mem_done
    refine ⟨_, member, rfl, List.eq_nil_of_length_eq_zero ?_⟩
    rw [counts.length_filter_ne mirrored member, if_pos heir]
    simpa [Countdown.waitsForLast, counts.count name missing member, Nat.sub_eq_zero_iff_le] using last
  · rintro ⟨⟨name, missing⟩, member, rfl, free⟩
    have length := counts.length_filter_ne mirrored member
    have nonempty := List.length_pos_iff.mpr (counts.distinct name missing member).2
    rw [free, List.length_nil] at length
    have heir : name ∈ graph.heirsOf layer := by
      by_contra stranger
      rw [if_neg stranger] at length
      omega
    rw [if_pos heir] at length
    simp only [Countdown.waitsForLast, counts.count name missing member, Option.any_some, decide_eq_true_eq]
    exact ⟨heir, by omega⟩

theorem Counts.finish (counts : graph.Counts done (layer :: rest) waiting left) {after : OrderedMap String Nat}
    (lowered : ∀ name, after.find? name =
      if name ∈ graph.heirsOf layer then (left.find? name).map (· - 1) else left.find? name) :
    graph.Counts (done ++ [layer]) (rest ++ freed layer waiting) (blocked layer waiting) after where
  once := by
    refine (List.Perm.nodup_iff ?_).mpr counts.once
    rw [List.append_assoc, List.singleton_append, List.append_assoc]
    exact (((perm_freed_blocked layer waiting).append_left rest).cons layer).append_left done
  increasing := increasing_filter_withoutBase counts.increasing _
  waits name base edge later := by
    rw [List.mem_append, List.mem_singleton, not_or] at later
    obtain ⟨missing, member⟩ := counts.waits name base edge later.1
    have still : base ∈ missing.filter (· != layer) :=
      List.mem_filter.mpr ⟨(counts.misses name missing member base).mpr ⟨edge, later.1⟩, by simpa using later.2⟩
    exact ⟨_, mem_blocked_iff.mpr ⟨_, member, rfl, List.ne_nil_of_mem still⟩⟩
  misses name missing member base := by
    obtain ⟨⟨name, before⟩, present, ⟨⟩, _⟩ := mem_blocked_iff.mp member
    rw [List.mem_filter, counts.misses name before present]
    simp [and_assoc]
  distinct name missing member := by
    obtain ⟨⟨name, before⟩, present, ⟨⟩, nonempty⟩ := mem_blocked_iff.mp member
    exact ⟨(counts.distinct name before present).1.filter _, nonempty⟩
  count name missing member := by
    obtain ⟨⟨name, before⟩, present, ⟨⟩, _⟩ := mem_blocked_iff.mp member
    rw [lowered, counts.count name before present, counts.length_filter_ne mirrored present]
    split <;> rfl

/-- One layer is finished: what the count frees is what crossing off frees. -/
theorem Counts.step (counts : graph.Counts done (layer :: rest) waiting left) :
    ∃ after, Countdown.step graph ⟨done, layer :: rest, left⟩ =
        some ⟨done ++ [layer], rest ++ freed layer waiting, after⟩ ∧
      graph.Counts (done ++ [layer]) (rest ++ freed layer waiting) (blocked layer waiting) after := by
  let popped : Countdown := ⟨done ++ [layer], rest, left⟩
  let released := (graph.heirsOf layer).foldl Countdown.release popped
  have queue : released.queue = rest ++ freed layer waiting := by
    rw [popped.queue_foldl_release (graph.nodup_heirsOf layer), counts.filter_heirsOf mirrored]
  have finished : released.done = popped.done := popped.done_foldl_release (graph.heirsOf layer)
  have released_eq : released = ⟨released.done, released.queue, released.left⟩ := rfl
  rw [finished, queue] at released_eq
  exact ⟨released.left, congrArg some released_eq,
    counts.finish mirrored (popped.find?_left_foldl_release (graph.nodup_heirsOf layer))⟩

theorem Counts.run {queue : List String} (counts : graph.Counts done queue waiting left) :
    ∃ last, Countdown.Leads graph ⟨done, queue, left⟩ ⟨done ++ finishAll queue waiting, [], last⟩ := by
  fun_induction finishAll queue waiting generalizing done left with
  | case1 waiting =>
    rw [List.append_nil]
    exact ⟨left, .refl⟩
  | case2 waiting layer rest ih =>
    obtain ⟨after, step, counts⟩ := counts.step mirrored
    obtain ⟨last, run⟩ := ih counts
    rw [List.append_assoc, List.singleton_append] at run
    exact ⟨last, .head step run⟩

end Finishing

end Waiting

section Starting

variable {graph : LayerGraph}

private theorem queue_start (graph : LayerGraph) :
    (Countdown.start graph).queue = (graph.pending.filter fun entry => entry.2.isEmpty).map (·.1) := by
  simp only [Countdown.start, pending, OrderedMap.mapValues, List.filter_map, List.map_map]
  congr 1
  refine List.filter_congr fun entry _ => ?_
  simp only [Function.comp_apply, OrderedMap.size, OrderedSet.toList, OrderedMap.keys]
  cases entry.2.entries <;> rfl

private theorem counts_start (graph : LayerGraph) :
    graph.Counts [] (Countdown.start graph).queue (graph.pending.filter fun entry => !entry.2.isEmpty)
      (Countdown.start graph).left where
  once := by
    rw [List.nil_append, queue_start]
    exact graph.perm_pending.nodup_iff.mpr graph.nodup_layers
  increasing := by
    have whole : Increasing graph.layers := graph.bases.increasing_keys
    rw [← map_fst_pending] at whole
    exact whole.sublist (List.filter_sublist.map _)
  waits name base edge _ := by
    obtain ⟨bases, found, member⟩ := edge
    obtain ⟨entry, present, same, rfl⟩ := graph.bases.find?_eq_some_iff.mp found
    cases Std.LawfulEqOrd.eq_of_compare same
    have nonempty : entry.2.toList ≠ [] := List.ne_nil_of_mem member
    exact ⟨_, List.mem_filter.mpr ⟨List.mem_map_of_mem present, by simpa using nonempty⟩⟩
  misses name missing member base := by
    have listed := snd_of_mem_pending (List.mem_filter.mp member).1
    rw [← mem_basesOf_iff, ← listed]
    simp
  distinct name missing member := by
    obtain ⟨present, nonempty⟩ := List.mem_filter.mp member
    obtain ⟨entry, _, ⟨⟩⟩ := List.mem_map.mp present
    exact ⟨entry.2.nodup_keys, by simpa using nonempty⟩
  count name missing member := by
    obtain ⟨entry, present, ⟨⟩⟩ := List.mem_map.mp (List.mem_filter.mp member).1
    refine (graph.bases.find?_mapValues (·.size) entry.1).trans ?_
    rw [graph.bases.find?_of_mem present]
    simp [OrderedMap.size, OrderedSet.toList, OrderedMap.keys]

/-- Counting down comes to its end with the layers finished in that order. -/
def CountsDownTo (graph : LayerGraph) (order : List String) : Prop :=
  ∃ left, Countdown.Leads graph (Countdown.start graph) ⟨order, [], left⟩

theorem countsDownTo_finishOrder
    (mirrored : ∀ name base, Neighbour graph.heirs base name ↔ graph.Inherits name base) :
    graph.CountsDownTo graph.finishOrder := by
  have order : finishAll (Countdown.start graph).queue (graph.pending.filter fun entry => !entry.2.isEmpty) =
      graph.finishOrder := by
    rw [queue_start]
    rfl
  rw [← order]
  exact graph.counts_start.run mirrored

end Starting

end LayerGraph

end PackageRecipes
