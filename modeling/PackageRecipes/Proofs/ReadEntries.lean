import PackageRecipes.Proofs.CommutativeMerge
import PackageRecipes.Proofs.Outcome

/-! Reading the entries of a map one by one into another map. As no two of them have
equal keys, each is read by itself, whatever their order. -/

namespace PackageRecipes
open Std

variable {ε κ α : Type} [Ord κ] [TransOrd κ] {read : κ × α → Except ε α}

def readInto (read : κ × α → Except ε α) (map : OrderedMap κ α) (entry : κ × α) : Except ε (OrderedMap κ α) :=
  (read entry).map fun value => map.insert entry.1 value

def DifferentKeys (entries : List (κ × α)) : Prop :=
  entries.Pairwise fun first second => compare first.1 second.1 ≠ .eq

omit [TransOrd κ] in
theorem OrderedMap.differentKeys (map : OrderedMap κ α) : DifferentKeys map.entries :=
  map.increasing.imp fun less => by simp [less]

theorem DifferentKeys.perm {entries others : List (κ × α)} (different : DifferentKeys entries) (perm : entries.Perm others) :
    DifferentKeys others :=
  (perm.pairwise_iff fun apart same => apart (OrientedCmp.eq_comm.mp same)).mp different

private theorem exists_foldlM_readInto {entries : List (κ × α)}
    (each : ∀ entry ∈ entries, ∃ value, read entry = .ok value)
    (start : OrderedMap κ α) : ∃ after, entries.foldlM (readInto read) start = .ok after := by
  induction entries generalizing start with
  | nil => exact ⟨start, rfl⟩
  | cons entry rest ih =>
    obtain ⟨⟨value, found⟩, each⟩ := List.forall_mem_cons.mp each
    obtain ⟨after, run⟩ := ih each (start.insert entry.1 value)
    refine ⟨after, ?_⟩
    rw [List.foldlM_cons, bind_eq_ok]
    exact ⟨_, map_eq_ok.mpr ⟨value, found, rfl⟩, run⟩

/-- Entries with different keys do not get into each other's way. -/
private theorem foldlM_readInto_eq_ok {entries : List (κ × α)} (different : DifferentKeys entries)
    {start after : OrderedMap κ α}
    (run : entries.foldlM (readInto read) start = .ok after) :
    (∀ entry ∈ entries, ∃ value, read entry = .ok value ∧ after.find? entry.1 = some value) ∧
      ∀ key, (∀ entry ∈ entries, compare key entry.1 ≠ .eq) → after.find? key = start.find? key := by
  induction entries generalizing start with
  | nil =>
    cases run
    exact ⟨nofun, fun _ _ => rfl⟩
  | cons entry rest ih =>
    obtain ⟨apart, different⟩ := List.pairwise_cons.mp different
    rw [List.foldlM_cons, bind_eq_ok] at run
    obtain ⟨_, added, run⟩ := run
    obtain ⟨value, found, rfl⟩ := map_eq_ok.mp added
    obtain ⟨written, kept⟩ := ih different run
    refine ⟨List.forall_mem_cons.mpr ⟨⟨value, found, ?_⟩, written⟩, fun key others => ?_⟩
    · rw [kept entry.1 apart, start.find?_insert, if_pos ReflCmp.compare_self]
    · obtain ⟨other, others⟩ := List.forall_mem_cons.mp others
      rw [kept key others, start.find?_insert, if_neg other]

/-- Reading the entries of a map, in any order, gives a map like it if each entry reads
as a value like its own. -/
theorem exists_alikeEntries_iff (read : κ × α → Except ε α) (alike : α → α → Prop) {map : OrderedMap κ α}
    {entries : List (κ × α)} (perm : map.entries.Perm entries) :
    (∃ after, entries.foldlM (readInto read) .empty = .ok after ∧ AlikeEntries alike after map) ↔
      ∀ entry ∈ map.entries, ∃ value, read entry = .ok value ∧ alike value entry.2 := by
  have different := map.differentKeys.perm perm
  constructor
  · rintro ⟨after, run, like⟩ entry member
    obtain ⟨value, found, written⟩ := (foldlM_readInto_eq_ok different run).1 entry (perm.mem_iff.mp member)
    have both := like entry.1
    rw [written, map.find?_of_mem member] at both
    cases both with
    | some like => exact ⟨value, found, like⟩
  · intro each
    have readable : ∀ entry ∈ entries, ∃ value, read entry = .ok value :=
      fun entry member => (each entry (perm.mem_iff.mpr member)).imp fun _ => And.left
    obtain ⟨after, run⟩ := exists_foldlM_readInto readable .empty
    obtain ⟨written, kept⟩ := foldlM_readInto_eq_ok different run
    refine ⟨after, run, fun key => ?_⟩
    cases present : map.find? key with
    | none =>
      rw [kept key]
      · exact .none
      · intro entry member same
        rw [map.find?_eq_some_iff.mpr ⟨entry, perm.mem_iff.mpr member, same, rfl⟩] at present
        cases present
    | some value =>
      obtain ⟨entry, member, same, rfl⟩ := map.find?_eq_some_iff.mp present
      obtain ⟨value, found, like⟩ := each entry member
      obtain ⟨_, again, written⟩ := written entry (perm.mem_iff.mp member)
      cases found.symm.trans again
      rw [after.find?_congr same, written]
      exact .some like

/-- A fold that adds each entry under a new key reads the entries into its map. -/
theorem foldlM_eq_readInto {σ : Type} {step : σ → κ × α → Except ε σ} (place : OrderedMap κ α → σ)
    {entries : List (κ × α)} (different : DifferentKeys entries) {start : OrderedMap κ α}
    (adds : ∀ entry ∈ entries, ∀ map : OrderedMap κ α, map.find? entry.1 = none →
      step (place map) entry = (readInto read map entry).map place)
    (fresh : ∀ entry ∈ entries, start.find? entry.1 = none) :
    entries.foldlM step (place start) = (entries.foldlM (readInto read) start).map place := by
  induction entries generalizing start with
  | nil => rfl
  | cons entry rest ih =>
    obtain ⟨apart, different⟩ := List.pairwise_cons.mp different
    obtain ⟨new, fresh⟩ := List.forall_mem_cons.mp fresh
    obtain ⟨first, adds⟩ := List.forall_mem_cons.mp adds
    rw [List.foldlM_cons, List.foldlM_cons, first start new, readInto]
    cases read entry with
    | error error => rfl
    | ok value =>
      refine ih different adds fun other member => ?_
      rw [start.find?_insert, if_neg fun same => apart other member (OrientedCmp.eq_comm.mp same)]
      exact fresh other member

end PackageRecipes
