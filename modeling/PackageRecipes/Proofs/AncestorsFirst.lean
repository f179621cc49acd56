import PackageRecipes.Proofs.SettledLayers

/-! Ancestors come first. Bases are replayed last to first, and of equal directives only the
first is kept, so one more base can move what its heirs replay. What a layer declares
itself stays behind all that the layers above it leave to it, in every heir. -/

namespace PackageRecipes
open Relation

section Orders

variable {α β : Type} [BEq α] {items others : List α} {early late : α}

/-- The first item equal to the late one has one equal to the early one in front of it. -/
def Precedes (items : List α) (early late : α) : Prop :=
  ∃ before found after, items = before ++ found :: after ∧ (found == late) = true ∧
    before.any (· == late) = false ∧ before.any (· == early) = true

theorem Precedes.append_right (precedes : Precedes items early late) (others : List α) :
    Precedes (items ++ others) early late := by
  obtain ⟨before, found, after, rfl, equal, first, behind⟩ := precedes
  exact ⟨before, found, after ++ others, by simp, equal, first, behind⟩

theorem Precedes.append_left (precedes : Precedes items early late) (absent : others.any (· == late) = false) :
    Precedes (others ++ items) early late := by
  obtain ⟨before, found, after, rfl, equal, first, behind⟩ := precedes
  refine ⟨others ++ before, found, after, by simp, equal, ?_, ?_⟩
  · rw [List.any_append, absent, first]
    rfl
  · rw [List.any_append, behind, Bool.or_true]

/-- An item that comes with others in front of it comes behind all of these. -/
private theorem precedes_append (before : others.any (· == early) = true) (absent : others.any (· == late) = false)
    (present : items.any (· == late) = true) : Precedes (others ++ items) early late := by
  obtain ⟨found, member⟩ : ∃ found, items.find? (· == late) = some found :=
    Option.isSome_iff_exists.mp (List.find?_isSome.mpr (List.any_eq_true.mp present))
  obtain ⟨equal, front, after, rfl, none⟩ := List.find?_eq_some_iff_append.mp member
  have first : front.any (· == late) = false := by simpa using none
  refine ⟨others ++ front, found, after, by simp, equal, ?_, ?_⟩
  · rw [List.any_append, absent, first]
    rfl
  · rw [List.any_append, before, Bool.true_or]

/-- Of lists put together, the first that has the late item decides. -/
private theorem precedes_flatMap {parts : List β} {list : β → List α}
    (present : ∃ part ∈ parts, (list part).any (· == late) = true)
    (each : ∀ part ∈ parts, (list part).any (· == late) = true → Precedes (list part) early late) :
    Precedes (parts.flatMap list) early late := by
  induction parts with
  | nil =>
    obtain ⟨_, none, _⟩ := present
    cases none
  | cons first rest ih =>
    rw [List.flatMap_cons]
    cases here : (list first).any (· == late) with
    | true => exact (each first List.mem_cons_self here).append_right _
    | false =>
      refine Precedes.append_left (ih ?_ fun part member => each part (List.mem_cons_of_mem first member)) here
      obtain ⟨part, member, there⟩ := present
      rcases List.mem_cons.mp member with rfl | later
      · rw [here] at there
        cases there
      · exact ⟨part, later, there⟩

theorem Precedes.firstOccurrences [EquivBEq α] (precedes : Precedes items early late) :
    Precedes (firstOccurrences items) early late := by
  obtain ⟨before, found, after, rfl, equal, first, behind⟩ := precedes
  obtain ⟨later, kept, _⟩ := firstOccurrences_append (before ++ [found]) after
  have fresh : (PackageRecipes.firstOccurrences before).any (· == found) = false := by
    rw [any_firstOccurrences, any_congr equal, first]
  rw [firstOccurrences_concat, fresh, if_neg Bool.false_ne_true] at kept
  rw [List.append_assoc, List.append_assoc] at kept
  refine ⟨PackageRecipes.firstOccurrences before, found, later, kept, equal, ?_, ?_⟩
  · rw [any_firstOccurrences, first]
  · rw [any_firstOccurrences, behind]

end Orders

/-- Layers that inherit from one another: the bases of each builder are others of the
layers, as their builders have finished them. -/
structure Hierarchy (ι : Type) where
  builder : ι → Builder
  bases : ι → List ι
  finished : ∀ layer, (builder layer).bases = (bases layer).map fun base => (builder base).finish

namespace Hierarchy

variable {ι : Type} {hierarchy : Hierarchy ι} {layer heir ancestor : ι} {own action : Directive}

def Inherits (hierarchy : Hierarchy ι) (layer base : ι) : Prop :=
  base ∈ hierarchy.bases layer

def actions (hierarchy : Hierarchy ι) (layer : ι) : List Directive :=
  (hierarchy.builder layer).finish.actions

def declares (hierarchy : Hierarchy ι) (layer : ι) (directive : Directive) : Bool :=
  (hierarchy.builder layer).pending.any (· == directive)

def Acyclic (hierarchy : Hierarchy ι) : Prop :=
  ∀ layer, ¬ TransGen hierarchy.Inherits layer layer

/-- Of the heir and all layers above it, the one layer declares the directive. -/
structure DeclaredOnlyBy (hierarchy : Hierarchy ι) (heir layer : ι) (directive : Directive) : Prop where
  here : hierarchy.declares layer directive = true
  only : ∀ other, ReflTransGen hierarchy.Inherits heir other → other ≠ layer →
    hierarchy.declares other directive = false

theorem DeclaredOnlyBy.inherited {base : ι} (owned : hierarchy.DeclaredOnlyBy heir layer own)
    (edge : hierarchy.Inherits heir base) : hierarchy.DeclaredOnlyBy base layer own :=
  ⟨owned.here, fun other path => owned.only other (.head edge path)⟩

private theorem actions_eq (layer : ι) :
    hierarchy.actions layer =
      firstOccurrences
        ((hierarchy.bases layer).reverse.flatMap hierarchy.actions ++ (hierarchy.builder layer).pending) := by
  rw [actions, Builder.finish, hierarchy.finished, keepFirst_eq, ← List.map_reverse, List.flatMap_map]
  rfl

private theorem any_actions (layer : ι) (action : Directive) :
    (hierarchy.actions layer).any (· == action) =
      ((hierarchy.bases layer).any (fun base => (hierarchy.actions base).any (· == action)) ||
        hierarchy.declares layer action) := by
  rw [actions, RecipeSet.any_finish_actions, hierarchy.finished, List.any_map]
  rfl

private theorem any_actions_of_inherits (inherits : ReflTransGen hierarchy.Inherits layer ancestor)
    (present : (hierarchy.actions ancestor).any (· == action) = true) :
    (hierarchy.actions layer).any (· == action) = true := by
  induction inherits using ReflTransGen.head_induction_on with
  | refl => exact present
  | head edge _ ih =>
    rw [any_actions, Bool.or_eq_true, List.any_eq_true]
    exact .inl ⟨_, edge, ih⟩

/-- What a layer replays has been declared by it or by a layer above it. -/
private theorem exists_owner (founded : Acc (fun base layer => hierarchy.Inherits layer base) layer)
    (present : (hierarchy.actions layer).any (· == action) = true) :
    ∃ owner, ReflTransGen hierarchy.Inherits layer owner ∧ hierarchy.declares owner action = true := by
  induction founded with
  | intro layer _ ih =>
    rw [any_actions, Bool.or_eq_true, List.any_eq_true] at present
    rcases present with ⟨base, edge, there⟩ | here
    · obtain ⟨owner, path, declared⟩ := ih base edge there
      exact ⟨owner, .head edge path, declared⟩
    · exact ⟨layer, .refl, here⟩

/-- A directive that no other layer of the hierarchy declares comes behind all that its
layer inherits. The induction is on the heir: either it is the layer itself, or the
directive comes from bases that all have the layer above them or are it. -/
private theorem precedes_of_acc (founded : Acc (fun base layer => hierarchy.Inherits layer base) heir)
    (above : TransGen hierarchy.Inherits layer ancestor) (below : ReflTransGen hierarchy.Inherits heir layer)
    (owned : hierarchy.DeclaredOnlyBy heir layer own)
    (present : (hierarchy.actions ancestor).any (· == action) = true) :
    Precedes (hierarchy.actions heir) action own := by
  induction founded with
  | intro heir bases ih =>
    have through : ∀ base, hierarchy.Inherits heir base → (hierarchy.actions base).any (· == own) = true →
        ReflTransGen hierarchy.Inherits base layer := by
      intro base edge inside
      obtain ⟨owner, path, declares⟩ := exists_owner (bases base edge) inside
      by_cases same : owner = layer
      · exact same ▸ path
      · rw [owned.only owner (.head edge path) same] at declares
        cases declares
    rw [actions_eq]
    apply Precedes.firstOccurrences
    rcases below.cases_head with rfl | ⟨base, edge, below⟩
    · refine precedes_append ?_ ?_ owned.here
      · obtain ⟨base, edge, path⟩ := TransGen.head'_iff.mp above
        rw [List.any_flatMap, List.any_reverse, List.any_eq_true]
        exact ⟨base, edge, any_actions_of_inherits path present⟩
      · rw [List.any_flatMap, List.any_reverse, List.any_eq_false]
        intro base edge inside
        exact not_cyclic_of_acc ⟨heir, bases⟩ (.head' edge (through base edge inside))
    · refine (precedes_flatMap ?_ ?_).append_right _
      · refine ⟨base, List.mem_reverse.mpr edge, any_actions_of_inherits below ?_⟩
        rw [any_actions, owned.here, Bool.or_true]
      · intro base member inside
        have edge := List.mem_reverse.mp member
        exact ih base edge (through base edge inside) (owned.inherited edge)

end Hierarchy

namespace RecipeSet

variable {set : RecipeSet} {finished : FinishedLayers} {name base : String} {builder : Builder}

/-- The builder of a recipe that can be declared upon the finished layers, else one that
has nothing. -/
def builderUpon (set : RecipeSet) (finished : FinishedLayers) (name : String) : Builder :=
  match set.declare finished name with
  | .ok builder => builder
  | .error _ => .new name set.config

def basesUpon (set : RecipeSet) (finished : FinishedLayers) (name : String) : List String :=
  match set.declare finished name, set.recipes.find? name with
  | .ok _, some placed => placed.recipe.bases
  | _, _ => []

private theorem builderUpon_eq (run : set.declare finished name = .ok builder) :
    set.builderUpon finished name = builder := by
  rw [builderUpon, run]

private theorem mem_basesUpon_iff :
    base ∈ set.basesUpon finished name ↔
      (∃ builder, set.declare finished name = .ok builder) ∧ set.Inherits name base := by
  rw [basesUpon, Inherits]
  cases set.declare finished name <;> cases set.recipes.find? name <;> simp

private theorem Settled.bases_builderUpon (settled : set.Settled finished) (name : String) :
    (set.builderUpon finished name).bases =
      (set.basesUpon finished name).map fun base => (set.builderUpon finished base).finish := by
  cases run : set.declare finished name with
  | error => simp [builderUpon, basesUpon, run, Builder.new]
  | ok builder =>
    obtain ⟨placed, _, found, _, bases, _⟩ := declare_eq_ok run
    have each : ∀ base ∈ placed.recipe.bases, finished.find? base = some (set.builderUpon finished base).finish := by
      intro base listed
      obtain ⟨layer, present⟩ := Option.isSome_iff_exists.mp (present_of_declare run ⟨placed, found, listed⟩)
      obtain ⟨above, run, rfl⟩ := settled base layer present
      rw [builderUpon_eq run, present]
    have listed : set.basesUpon finished name = placed.recipe.bases := by rw [basesUpon, run, found]
    rw [List.map_congr_left each] at bases
    rw [builderUpon_eq run, listed]
    apply List.map_injective_iff.mpr (Option.some_injective Layer)
    rw [← bases, List.map_map]
    rfl

def Settled.hierarchy (settled : set.Settled finished) : Hierarchy String where
  builder := set.builderUpon finished
  bases := set.basesUpon finished
  finished := settled.bases_builderUpon

private theorem Settled.inherits_of_hierarchy (settled : set.Settled finished)
    (edge : settled.hierarchy.Inherits name base) :
    set.Inherits name base :=
  (mem_basesUpon_iff.mp edge).2

/-- Bases of what can be declared can be declared, so the hierarchy has all ways up from it. -/
theorem Settled.inherits_hierarchy (settled : set.Settled finished) (run : set.declare finished name = .ok builder)
    (path : ReflTransGen set.Inherits name base) :
    ReflTransGen settled.hierarchy.Inherits name base ∧ ∃ above, set.declare finished base = .ok above := by
  induction path with
  | refl => exact ⟨.refl, builder, run⟩
  | tail _ edge ih =>
    obtain ⟨path, above, run⟩ := ih
    obtain ⟨layer, present⟩ := Option.isSome_iff_exists.mp (present_of_declare run edge)
    obtain ⟨next, declared, _⟩ := settled _ layer present
    exact ⟨path.tail (mem_basesUpon_iff.mpr ⟨⟨above, run⟩, edge⟩), next, declared⟩

def OwnDirective (set : RecipeSet) (name : String) (directive : Directive) : Prop :=
  ∃ own, set.ownDirectives name = .ok own ∧ own.any (· == directive) = true

instance {directive : Directive} : Decidable (set.OwnDirective name directive) :=
  decidable_of_iff ((set.ownDirectives name).toOption.any fun own => own.any (· == directive)) <| by
    simp only [OwnDirective, Option.any_eq_true, toOption_eq_some]

/-- Of the heir and all recipes above it, the one recipe declares the directive. -/
structure DeclaredOnlyBy (set : RecipeSet) (heir name : String) (directive : Directive) : Prop where
  here : set.OwnDirective name directive
  only : ∀ other, ReflTransGen set.Inherits heir other → other ≠ name → ¬ set.OwnDirective other directive

private theorem declares_hierarchy (settled : set.Settled finished) (run : set.declare finished name = .ok builder)
    (directive : Directive) : settled.hierarchy.declares name directive = true ↔ set.OwnDirective name directive := by
  obtain ⟨_, own, _, declared, _, rfl⟩ := declare_eq_ok run
  have same : settled.hierarchy.builder name = builder := builderUpon_eq run
  rw [Hierarchy.declares, OwnDirective, same, declared]
  simp

private theorem Settled.transGen_hierarchy (settled : set.Settled finished)
    (run : set.declare finished name = .ok builder)
    (path : TransGen set.Inherits name base) : TransGen settled.hierarchy.Inherits name base := by
  obtain ⟨first, edge, path⟩ := TransGen.head'_iff.mp path
  obtain ⟨_, above, next⟩ := settled.inherits_hierarchy run (.single edge)
  exact .head' (mem_basesUpon_iff.mpr ⟨⟨builder, run⟩, edge⟩) (settled.inherits_hierarchy next path).1

private theorem Settled.declaredOnlyBy_hierarchy {heir : String} {own : Directive} (settled : set.Settled finished)
    (run : set.declare finished heir = .ok builder) (inherits : ReflTransGen set.Inherits heir name)
    (owned : set.DeclaredOnlyBy heir name own) : settled.hierarchy.DeclaredOnlyBy heir name own := by
  obtain ⟨_, middle, named⟩ := settled.inherits_hierarchy run inherits
  refine ⟨(declares_hierarchy settled named own).mpr owned.here, fun other path different => Bool.eq_false_iff.mpr ?_⟩
  intro holds
  have inSet := path.lift id fun _ _ edge => settled.inherits_of_hierarchy edge
  obtain ⟨_, otherBuilder, declared⟩ := settled.inherits_hierarchy run inSet
  exact owned.only other inSet different ((declares_hierarchy settled declared own).mp holds)

private theorem Settled.actions_hierarchy (settled : set.Settled finished)
    (run : set.declare finished name = .ok builder) :
    settled.hierarchy.actions name = builder.finish.actions :=
  congrArg (fun builder : Builder => builder.finish.actions) (builderUpon_eq run)

/-- The finished layers of a set that can be built are a hierarchy of the kind above. -/
theorem finishedLayers_precede {heir ancestor : String} {below : Layer} {own : Directive}
    (finished : set.finishedLayer heir = .ok below) (inherits : ReflTransGen set.Inherits heir name)
    (above : TransGen set.Inherits name ancestor) (owned : set.DeclaredOnlyBy heir name own) :
    ∃ layer, set.finishedLayer ancestor = .ok layer ∧
      ∀ action ∈ layer.actions, Precedes below.actions action own := by
  rw [finishedLayer_eq] at finished
  obtain ⟨layers, run, finished⟩ := bind_eq_ok.mp finished
  obtain ⟨builder, declared, finished⟩ := bind_eq_ok.mp finished
  cases finished
  have valid := valid_of_finishBases run
  obtain ⟨settled, present⟩ := settled_finishBases run
  obtain ⟨layer, finished⟩ := Option.isSome_iff_exists.mp (present ancestor (.trans_right inherits above))
  obtain ⟨ancestorBuilder, upon, rfl⟩ := settled ancestor layer finished
  refine ⟨_, valid.finishedLayer_eq settled finished, fun action member => ?_⟩
  obtain ⟨path, _, named⟩ := settled.inherits_hierarchy declared inherits
  have founded : Acc (fun base layer => settled.hierarchy.Inherits layer base) heir :=
    Subrelation.accessible settled.inherits_of_hierarchy (valid.founded heir)
  rw [← settled.actions_hierarchy declared]
  rw [← settled.actions_hierarchy upon] at member
  exact Hierarchy.precedes_of_acc founded (settled.transGen_hierarchy named above) path
    (settled.declaredOnlyBy_hierarchy declared inherits owned) (List.any_eq_true.mpr ⟨action, member, BEq.rfl⟩)

end RecipeSet

/-- In every heir of a layer, a directive that the layer alone declares comes behind all
that any layer above it leaves to its heirs, in whatever order bases are listed. -/
theorem ancestors_replay_first :
    (∀ (ι : Type) [Finite ι] (hierarchy : Hierarchy ι) (heir layer ancestor : ι) (own : Directive),
      hierarchy.Acyclic → ReflTransGen hierarchy.Inherits heir layer → TransGen hierarchy.Inherits layer ancestor →
      hierarchy.DeclaredOnlyBy heir layer own →
      ∀ action ∈ hierarchy.actions ancestor, Precedes (hierarchy.actions heir) action own) ∧
    ∀ (set : RecipeSet) (heir name ancestor : String) (below : Layer) (own : Directive),
      set.finishedLayer heir = .ok below → ReflTransGen set.Inherits heir name →
      TransGen set.Inherits name ancestor →
      set.DeclaredOnlyBy heir name own →
      ∃ above, set.finishedLayer ancestor = .ok above ∧
        ∀ action ∈ above.actions, Precedes below.actions action own := by
  constructor
  · intro ι _ hierarchy heir layer ancestor own acyclic below above owned action member
    have present : (hierarchy.actions ancestor).any (· == action) = true :=
      List.any_eq_true.mpr ⟨action, member, BEq.rfl⟩
    exact Hierarchy.precedes_of_acc (acc_of_acyclic acyclic heir) above below owned present
  · intro set heir name ancestor below own finished inherits above owned
    exact RecipeSet.finishedLayers_precede finished inherits above owned

def switchOn (name : String) : Directive :=
  .declared (.variant ⟨name, .switch true, "", .switch, false, none⟩)

def bottom : Builder :=
  (Builder.new "base" .standard).record (switchOn "mpi")

def middle : Builder :=
  ((Builder.new "tools" .standard).inherit bottom.finish).record (switchOn "cuda")

def top : Builder :=
  (((Builder.new "app" .standard).inherit bottom.finish).inherit middle.finish).record (switchOn "mpi")

/-- The topmost layer names both layers below it as bases and repeats a switch. -/
def stairs : Hierarchy (Fin 3) where
  builder
    | 0 => bottom
    | 1 => middle
    | 2 => top
  bases
    | 0 => []
    | 1 => [0]
    | 2 => [0, 1]
  finished
    | 0 => rfl
    | 1 => rfl
    | 2 => rfl

private theorem acyclic_stairs : stairs.Acyclic := by
  have descends : ∀ layer base, base ∈ stairs.bases layer → base < layer := by decide
  intro layer cycle
  have below : ∀ {base}, TransGen stairs.Inherits layer base → base < layer := by
    intro base path
    induction path with
    | single edge => exact descends _ _ edge
    | tail _ edge ih => exact (descends _ _ edge).trans ih
  exact absurd (below cycle) (lt_irrefl layer)

theorem stairs_and_diamond_replay_ancestors_first :
    (∀ action ∈ stairs.actions 0, Precedes (stairs.actions 2) action (switchOn "cuda")) ∧
    ∃ set below above own, RecipeSet.diamond = .ok set ∧ set.finishedLayer "app" = .ok below ∧
      set.ownDirectives "left" = .ok own ∧ own.isEmpty = false ∧ set.finishedLayer "base" = .ok above ∧
      ∀ directive ∈ own, ∀ action ∈ above.actions, Precedes below.actions action directive := by
  constructor
  · have only : ∀ other : Fin 3, other ≠ 1 → stairs.declares other (switchOn "cuda") = false := by decide +kernel
    exact ancestors_replay_first.1 (Fin 3) stairs 2 1 0 (switchOn "cuda") acyclic_stairs
      (.single (show (1 : Fin 3) ∈ stairs.bases 2 by decide)) (.single (show (0 : Fin 3) ∈ stairs.bases 1 by decide))
      ⟨by decide +kernel, fun other _ => only other⟩
  · have checked : (do
        let set ← RecipeSet.diamond
        let graph ← set.graph
        let _ ← graph.sorted
        let own ← set.ownDirectives "left"
        return own.isEmpty = false ∧ "app" ∈ set.names ∧
          set.Inherits "app" "left" ∧ set.Inherits "left" "base" ∧
          (∀ name ∈ set.names, (set.ownDirectives name).isOk = true) ∧
          ∀ directive ∈ own, ∀ name ∈ set.names, name ≠ "left" → ¬ set.OwnDirective name directive :
        Except Error Bool).toOption = some true := by decide +kernel
    obtain ⟨set, made, run⟩ := bind_eq_ok.mp (toOption_eq_some.mp checked)
    obtain ⟨graph, planned, run⟩ := bind_eq_ok.mp run
    obtain ⟨order, sorted, run⟩ := bind_eq_ok.mp run
    obtain ⟨own, left, run⟩ := bind_eq_ok.mp run
    obtain ⟨nonempty, known, edge, above, declares, only⟩ := of_decide_eq_true (Except.ok.inj run)
    have valid := RecipeSet.valid_of_sorted planned sorted
    have inside : ∀ {name}, ReflTransGen set.Inherits "app" name → name ∈ set.names := valid.mem_names known
    obtain ⟨below, finished⟩ := valid.finishedLayer_succeeds fun name path => declares name (inside path)
    have precede : ∀ directive ∈ own, ∃ above, set.finishedLayer "base" = .ok above ∧
        ∀ action ∈ above.actions, Precedes below.actions action directive := by
      intro directive member
      refine ancestors_replay_first.2 set "app" "left" "base" below directive finished
        (.single edge) (.single above) ⟨?_, ?_⟩
      · exact ⟨own, left, List.any_eq_true.mpr ⟨directive, member, BEq.rfl⟩⟩
      · exact fun other path => only directive member other (inside path)
    have paths : ReflTransGen set.Inherits "app" "base" := .head edge (.single above)
    obtain ⟨layer, above⟩ := valid.finishedLayer_succeeds fun name path => declares name (inside (paths.trans path))
    refine ⟨set, below, layer, own, made, finished, left, nonempty, above, fun directive member => ?_⟩
    obtain ⟨_, ran, precedes⟩ := precede directive member
    cases above.symm.trans ran
    exact precedes

end PackageRecipes
