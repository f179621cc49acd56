import PackageRecipes.Proofs.DependencyMerge
import PackageRecipes.Proofs.Grouping

/-! Requirements that are declared equally do the same, although they need not be spelled
alike: their conditions anchor to equal ones, and their dependencies are alike. Only
directories make a difference to patches that equality does not see. -/

namespace PackageRecipes
open Std

section Maps

variable {κ α : Type} [Ord κ] [TransOrd κ] {alike : α → α → Prop}

theorem AlikeEntries.upsert {left right : OrderedMap κ α} (entries : AlikeEntries alike left right) {key other : κ}
    (same : compare key other = .eq) {update change : Option α → α}
    (like : ∀ {first second}, Option.Rel alike first second → alike (update first) (change second)) :
    AlikeEntries alike (left.upsert key update) (right.upsert other change) := by
  intro sought
  rw [left.find?_upsert, right.find?_upsert, TransCmp.congr_right same, right.find?_congr (OrientedCmp.eq_comm.mp same)]
  split
  · exact .some (like (entries key))
  · exact entries sought

end Maps

namespace Spec

theorem name_eq_of_beq {left right : Spec} (same : (left == right) = true) : left.name = right.name := by
  rw [beq_eq, Bool.and_eq_true, Node.beq_eq, Bool.and_eq_true] at same
  exact eq_of_beq same.1.1

/-- Adding clauses on several dependencies narrows those that are there. -/
private theorem foldlM_addDependency_eq_ok_iff {entries : List (String × Node)} (spec : Spec) {after : Spec} :
    entries.foldlM (fun spec (name, node) => spec.addDependency name node) spec = .ok after ↔
      ∃ dependencies, entries.foldlM (fun dependencies (name, node) => narrowDependency dependencies name node)
        spec.dependencies = .ok dependencies ∧ { spec with dependencies } = after := by
  induction entries generalizing spec with
  | nil => simp [pure, Except.pure]
  | cons entry rest ih =>
    simp only [List.foldlM_cons, bind_eq_ok, addDependency_eq_ok_iff]
    constructor
    · rintro ⟨_, ⟨first, narrowed, rfl⟩, run⟩
      obtain ⟨last, run, same⟩ := (ih _).mp run
      exact ⟨last, ⟨first, narrowed, run⟩, same⟩
    · rintro ⟨last, ⟨first, narrowed, run⟩, same⟩
      exact ⟨_, ⟨first, narrowed, rfl⟩, (ih _).mpr ⟨last, run, same⟩⟩

/-- Anchoring an expression about another package makes it one about a dependency. -/
theorem anchor_eq_ok_iff {spec anchored : Spec} {owner name : String} (named : spec.node.name = some name)
    (other : name ≠ owner) :
    spec.anchor owner = .ok anchored ↔
      ∃ dependencies, spec.dependencies.entries.foldlM
        (fun dependencies (name, node) => narrowDependency dependencies name node)
        (OrderedMap.empty.insert name spec.node) = .ok dependencies ∧ { Spec.named owner with dependencies } = anchored := by
  have differ : (name == owner) = false := by simpa using other
  simp only [anchor, named, differ]
  exact foldlM_addDependency_eq_ok_iff _

theorem anchor_congr {spec other anchored : Spec} {owner : String} (same : (spec == other) = true)
    (normal : spec.Normal) (normal' : other.Normal) (run : spec.anchor owner = .ok anchored) :
    ∃ anchored', other.anchor owner = .ok anchored' ∧ (anchored == anchored') = true := by
  obtain ⟨nodes, dependencies⟩ := Bool.and_eq_true_iff.mp (beq_eq spec other ▸ same)
  obtain ⟨names, parts⟩ := Bool.and_eq_true_iff.mp (Node.beq_eq spec.node other.node ▸ nodes)
  have names := eq_of_beq names
  cases named : spec.node.name with
  | none =>
    simp only [anchor, named] at run
    cases run
    simp only [anchor, ← names, named]
    refine ⟨_, rfl, ?_⟩
    rw [beq_eq, Node.beq_eq, BEq.refl, parts, dependencies]
    rfl
  | some name =>
    by_cases own : name = owner
    · simp only [anchor, named, own, BEq.refl, if_true] at run
      cases run
      refine ⟨other, ?_, same⟩
      simp only [anchor, ← names, named, own, BEq.refl, if_true]
    · obtain ⟨narrowed, merged, rfl⟩ := (anchor_eq_ok_iff named own).mp run
      have laws := Node.nodeMerge.entries narrowDependency_narrows.mergesEntries
      have start := (laws.same.refl .empty).upsert (ReflCmp.compare_self (a := name)) (fun _ => nodes)
      have single : ∀ {node : Node}, node.Normal →
          ∀ key value, (OrderedMap.empty.insert name node).find? key = some value → value.Normal :=
        fun normal => OrderedMap.forall_insert _ nofun fun _ _ => normal
      obtain ⟨narrowed', again, like⟩ := laws.congr (single normal.node) normal.dependencies (single normal'.node)
        normal'.dependencies start (beq_iff_alikeEntries.mp dependencies) (toOption_eq_some.mpr merged)
      refine ⟨_, (anchor_eq_ok_iff (names ▸ named) own).mpr ⟨narrowed', toOption_eq_some.mp again, rfl⟩, ?_⟩
      rw [beq_eq, BEq.refl, beq_iff_alikeEntries.mpr like]
      rfl

end Spec

/-- Everything that a condition or none at all constrains is in normal form. -/
def NormalWhen (when : Option Spec) : Prop :=
  ∀ spec, when = some spec → spec.Normal

theorem anchorCondition_congr {when other : Option Spec} {owner : String} {condition : Spec}
    (same : (when == other) = true) (normal : NormalWhen when) (normal' : NormalWhen other)
    (run : anchorCondition when owner = .ok condition) :
    ∃ condition', anchorCondition other owner = .ok condition' ∧ (condition == condition') = true := by
  cases when with
  | none =>
    cases other with
    | none => exact ⟨condition, run, BEq.refl condition⟩
    | some => cases same
  | some spec =>
    cases other with
    | none => cases same
    | some other => exact Spec.anchor_congr same (normal spec rfl) (normal' other rfl) run

/-- What a requirement says about patches was read in the given directory. -/
structure DependencyPatch.IsRead (directory : Option Directory) (patch : DependencyPatch) : Prop where
  directory : patch.directory = directory
  when : NormalWhen patch.when

theorem DependencyPatch.beq_eq (left right : DependencyPatch) :
    (left == right) = (left.locator == right.locator && (left.level == right.level && (left.when == right.when &&
      (left.details == right.details && left.directory == right.directory)))) := by
  cases left; cases right; rfl

theorem DependencyDeclaration.beq_eq (left right : DependencyDeclaration) :
    (left == right) = (left.target == right.target && (left.when == right.when && (left.types == right.types &&
      left.patches == right.patches))) := by
  cases left; cases right; rfl

/-- A requirement as it was read in the given directory. -/
structure DependencyDeclaration.IsRead (directory : Option Directory) (requirement : DependencyDeclaration) : Prop where
  target : requirement.target.Normal
  when : NormalWhen requirement.when
  patches : ∀ patch ∈ requirement.patches, patch.IsRead directory

section Patches

variable {directory : Option Directory} {target : String}

theorem DependencyPatch.addTo_congr {patch other : DependencyPatch} {before before' after : Dependency}
    (same : (patch == other) = true) (read : patch.IsRead directory) (read' : other.IsRead directory)
    (alike : before.Alike before') (run : patch.addTo target before = .ok after) :
    ∃ after', other.addTo target before' = .ok after' ∧ after.Alike after' := by
  rw [beq_eq] at same
  simp only [Bool.and_eq_true] at same
  obtain ⟨locator, level, when, details, _⟩ := same
  rw [addTo, bind_eq_ok] at run
  obtain ⟨condition, anchored, run⟩ := run
  obtain ⟨condition', anchored', equal⟩ := anchorCondition_congr when read.when read'.when anchored
  obtain ⟨created, made, same⟩ := bind_eq_ok.mp run
  cases same
  rw [eq_of_beq locator, eq_of_beq level, eq_of_beq details, read.directory, ← read'.directory] at made
  refine ⟨before'.addPatch condition' created, ?_, alike.target, alike.types, ?_⟩
  · rw [addTo, anchored', made]
    rfl
  · refine alike.patches.upsert (compare_eq_iff_beq.mpr equal) fun like => ?_
    cases like with
    | none => exact .refl _
    | some perm => exact perm.append_right _

private theorem foldlM_addTo_congr {patches others : List DependencyPatch} {before before' after : Dependency}
    (same : (patches == others) = true) (read : ∀ patch ∈ patches, patch.IsRead directory)
    (read' : ∀ patch ∈ others, patch.IsRead directory) (alike : before.Alike before')
    (run : patches.foldlM (fun dependency patch => patch.addTo target dependency) before = .ok after) :
    ∃ after', others.foldlM (fun dependency patch => patch.addTo target dependency) before' = .ok after' ∧
      after.Alike after' := by
  induction patches generalizing others before before' with
  | nil =>
    cases others with
    | nil =>
      cases run
      exact ⟨before', rfl, alike⟩
    | cons => cases same
  | cons patch rest ih =>
    cases others with
    | nil => cases same
    | cons other others =>
      obtain ⟨first, later⟩ := Bool.and_eq_true_iff.mp same
      rw [List.foldlM_cons, bind_eq_ok] at run
      obtain ⟨next, added, run⟩ := run
      obtain ⟨next', added', alikeNext⟩ := DependencyPatch.addTo_congr first (read patch List.mem_cons_self)
        (read' other List.mem_cons_self) alike added
      obtain ⟨last, run', alikeLast⟩ := ih later (fun patch member => read patch (List.mem_cons_of_mem _ member))
        (fun patch member => read' patch (List.mem_cons_of_mem _ member)) alikeNext run
      refine ⟨last, ?_, alikeLast⟩
      rw [List.foldlM_cons, added']
      exact run'

theorem DependencyDeclaration.dependency_congr {requirement other : DependencyDeclaration} {dependency : Dependency}
    (same : (requirement == other) = true) (read : requirement.IsRead directory) (read' : other.IsRead directory)
    (run : requirement.dependency target = .ok dependency) :
    ∃ dependency', other.dependency target = .ok dependency' ∧ dependency.Alike dependency' := by
  rw [beq_eq] at same
  simp only [Bool.and_eq_true] at same
  obtain ⟨targets, _, types, patches⟩ := same
  refine foldlM_addTo_congr patches read.patches read'.patches ⟨targets, eq_of_beq types, ?_⟩ run
  exact fun _ => .none

end Patches

end PackageRecipes
