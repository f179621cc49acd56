import PackageRecipes.Proofs.EqualDeclarations
import PackageRecipes.Proofs.Rearrangement
import PackageRecipes.Proofs.ScannedText

/-! Reading as it comes to what is read, whatever is reported on a failure: the package and
each clause are read by themselves, and the clauses are then merged one after the other.
Conditions are read in this way whether or not their text is trimmed. -/

namespace PackageRecipes

section Dependencies

/-- Merges the constraints on dependencies of the one map into those of the other. -/
def mergeDependencies (left right : OrderedMap String Node) : Option (OrderedMap String Node) :=
  (right.entries.foldlM (fun dependencies (name, node) => Spec.narrowDependency dependencies name node) left).toOption

def onlyDependency (entry : String × Node) : OrderedMap String Node :=
  OrderedMap.empty.insert entry.1 entry.2

def NormalDependencies (dependencies : OrderedMap String Node) : Prop :=
  ∀ name node, dependencies.find? name = some node → node.Normal

abbrev AlikeDependencies (left right : OrderedMap String Node) : Prop :=
  AlikeEntries (fun left right => (left == right) = true) left right

theorem dependencyMapMerge : CommutativeMerge AlikeDependencies NormalDependencies mergeDependencies :=
  Node.nodeMerge.entries Spec.narrowDependency_narrows.mergesEntries

theorem normal_empty : NormalDependencies .empty :=
  nofun

theorem normal_onlyDependency {entry : String × Node} (normal : entry.2.Normal) :
    NormalDependencies (onlyDependency entry) :=
  OrderedMap.forall_insert _ nofun fun _ _ => normal

private theorem mergeDependencies_only (dependencies : OrderedMap String Node) (entry : String × Node) :
    mergeDependencies dependencies (onlyDependency entry) =
      (Spec.narrowDependency dependencies entry.1 entry.2).toOption := by
  have single : (onlyDependency entry).entries = [entry] := rfl
  rw [mergeDependencies, single, List.foldlM_cons, toOption_bind]
  exact Option.bind_fun_some _

end Dependencies

namespace Spec

/-- A clause as it is read by itself, under the name of the dependency. -/
def readClause (items : List Item) : Option (String × Node) :=
  (Node.ofItems items).toOption.bind fun node => node.name.map (·, node)

/-- The constraints on dependencies with further clauses merged into them. -/
def mergeClauses (dependencies : OrderedMap String Node) (clauses : List (String × Node)) :
    Option (OrderedMap String Node) :=
  (clauses.map onlyDependency).foldlM mergeDependencies dependencies

/-- The expression that is read from the items of the package and of each clause. -/
def ofClauses (first : List Item) (others : List (List Item)) : Option Spec :=
  (Node.ofItems first).toOption.bind fun node =>
    (others.mapM readClause).bind fun clauses => (mergeClauses .empty clauses).map (⟨node, ·⟩)

private theorem mergeClauses_cons (dependencies : OrderedMap String Node) (clause : String × Node)
    (rest : List (String × Node)) :
    mergeClauses dependencies (clause :: rest) =
      (narrowDependency dependencies clause.1 clause.2).toOption.bind (mergeClauses · rest) := by
  rw [mergeClauses, List.map_cons, List.foldlM_cons, mergeDependencies_only]
  rfl

theorem toOption_addDependency (spec : Spec) (name : String) (node : Node) :
    (spec.addDependency name node).toOption =
      (narrowDependency spec.dependencies name node).toOption.map fun dependencies => { spec with dependencies } := by
  unfold addDependency narrowDependency
  cases spec.dependencies.find? name with
  | none => rfl
  | some existing =>
    dsimp only
    cases existing.narrow node <;> rfl

theorem toOption_addClause (expression : String) (spec : Spec) (items : List Item) :
    (addClause expression spec items).toOption = (readClause items).bind fun clause =>
      (narrowDependency spec.dependencies clause.1 clause.2).toOption.map fun dependencies => { spec with dependencies } := by
  rw [addClause, toOption_bind, toOption_mapError, readClause, Option.bind_assoc]
  refine Option.bind_congr fun node _ => ?_
  cases node.name with
  | none => rfl
  | some name => exact toOption_addDependency spec name node

private theorem toOption_foldlM_addClause (expression : String) (spec : Spec) (others : List (List Item)) :
    (others.foldlM (addClause expression) spec).toOption = (others.mapM readClause).bind fun clauses =>
      (mergeClauses spec.dependencies clauses).map fun dependencies => { spec with dependencies } := by
  induction others generalizing spec with
  | nil => rfl
  | cons items rest ih =>
    rw [List.foldlM_cons, toOption_bind, toOption_addClause, List.mapM_cons]
    simp only [Option.bind_eq_bind, Option.bind_assoc, Option.map_eq_bind, Option.pure_def, Option.bind_some, ih,
      mergeClauses_cons, Function.comp_apply]
    refine Option.bind_congr fun clause _ => ?_
    -- Reading the other clauses and adding the first one do not depend on each other.
    cases (narrowDependency spec.dependencies clause.1 clause.2).toOption with
    | none => cases List.mapM readClause rest <;> rfl
    | some dependencies => rfl

theorem toOption_parse (expression : String) :
    (parse expression).toOption =
      ofClauses (Item.clauses (Item.scan expression.toList)).1 (Item.clauses (Item.scan expression.toList)).2 := by
  rw [parse, toOption_bind, toOption_mapError, ofClauses]
  exact Option.bind_congr fun node _ => toOption_foldlM_addClause expression (ofNode node) _

section Normal

theorem readClause_eq_some_iff {items : List Item} {clause : String × Node} :
    readClause items = some clause ↔ Node.ofItems items = .ok clause.2 ∧ clause.2.name = some clause.1 := by
  simp only [readClause, Option.bind_eq_some_iff, Option.map_eq_some_iff, toOption_eq_some]
  constructor
  · rintro ⟨node, read, name, named, rfl⟩
    exact ⟨read, named⟩
  · rintro ⟨read, named⟩
    exact ⟨clause.2, read, clause.1, named, rfl⟩

theorem normal_of_mapM_readClause {others : List (List Item)} {clauses : List (String × Node)}
    (read : ∀ items ∈ others, ∀ item ∈ items, item.IsRead) (found : others.mapM readClause = some clauses) :
    ∀ clause ∈ clauses, clause.2.Normal := by
  induction others generalizing clauses with
  | nil =>
    cases found
    exact nofun
  | cons items rest ih =>
    obtain ⟨first, later⟩ := List.forall_mem_cons.mp read
    rw [List.mapM_cons, Option.bind_eq_bind, Option.bind_eq_some_iff] at found
    obtain ⟨clause, head, found⟩ := found
    obtain ⟨others, tail, same⟩ := Option.bind_eq_some_iff.mp found
    cases same
    have normal := Node.ownerInvariant_normal.toReadInvariant.ofItems first (readClause_eq_some_iff.mp head).1
    exact List.forall_mem_cons.mpr ⟨normal, ih later tail⟩

private theorem normal_map_onlyDependency {clauses : List (String × Node)}
    (normal : ∀ clause ∈ clauses, clause.2.Normal) :
    ∀ dependencies ∈ clauses.map onlyDependency, NormalDependencies dependencies := by
  intro dependencies member
  obtain ⟨clause, present, rfl⟩ := List.mem_map.mp member
  exact normal_onlyDependency (normal clause present)

theorem mergeClauses_perm {clauses others : List (String × Node)} (perm : clauses.Perm others)
    {dependencies : OrderedMap String Node} (normal : NormalDependencies dependencies)
    (normalClauses : ∀ clause ∈ clauses, clause.2.Normal) :
    Option.Rel AlikeDependencies (mergeClauses dependencies clauses) (mergeClauses dependencies others) :=
  dependencyMapMerge.rel_foldlM_perm (perm.map onlyDependency) normal (normal_map_onlyDependency normalClauses)

theorem mergeClauses_assoc {clauses : List (String × Node)} {dependencies merged : OrderedMap String Node}
    (normal : NormalDependencies dependencies) (normalClauses : ∀ clause ∈ clauses, clause.2.Normal)
    (run : mergeClauses .empty clauses = some merged) :
    Option.Rel AlikeDependencies (mergeClauses dependencies clauses) (mergeDependencies dependencies merged) := by
  have unit : mergeDependencies dependencies .empty = some dependencies := rfl
  have together := dependencyMapMerge.rel_foldlM_assoc normal normal_empty (normal_map_onlyDependency normalClauses) run
  rwa [unit, Option.bind_some] at together

theorem rel_map_dependencies (node : Node) {first second : Option (OrderedMap String Node)}
    (like : Option.Rel AlikeDependencies first second) :
    Option.Rel (fun left right : Spec => (left == right) = true) (first.map (⟨node, ·⟩)) (second.map (⟨node, ·⟩)) := by
  cases like with
  | none => exact .none
  | some alike =>
    refine .some ?_
    rw [beq_eq, BEq.refl, beq_iff_alikeEntries.mpr alike]
    rfl

end Normal

section Conditions

theorem toOption_parse_trim (expression : String) :
    (parse (Text.trim expression)).toOption = (parse expression).toOption := by
  have trimmed : Item.scan (Text.trim expression).toList = Item.scan expression.toList := by
    rw [Text.trim, String.toList_ofList, Item.scan_trimList]
  rw [toOption_parse, toOption_parse, trimmed]

/-- White space around a condition does not matter, and nothing else is white space that
says nothing. -/
theorem toOption_anonymous (expression owner : String) :
    (anonymous expression owner).toOption =
      (parse expression).toOption.bind fun spec => (spec.anchor owner).toOption := by
  rw [anonymous, ← toOption_parse_trim]
  split
  next empty =>
    rw [String.isEmpty_iff.mp empty, toOption_parse, String.toList_empty, Item.scan_nil]
    rfl
  next => exact toOption_bind

theorem sameOutcome_anonymous {expression other : String} (same : SameOutcome (parse expression) (parse other))
    (owner : String) : SameOutcome (anonymous expression owner) (anonymous other owner) := by
  unfold SameOutcome
  rw [toOption_anonymous, toOption_anonymous]
  refine rel_bind same fun {spec again} read reread equal => rel_of_exists (fun anchored run => ?_) fun anchored run => ?_
  all_goals
    have normal := normal_of_parse (toOption_eq_some.mp read)
    have normal' := normal_of_parse (toOption_eq_some.mp reread)
    have run := toOption_eq_some.mp run
  · obtain ⟨key, found, like⟩ := anchor_congr equal normal normal' run
    exact ⟨key, toOption_eq_some.mpr found, like⟩
  · obtain ⟨key, found, _⟩ := anchor_congr (BEq.symm equal) normal' normal run
    exact ⟨key, toOption_eq_some.mpr found⟩

end Conditions

end Spec

end PackageRecipes
