import PackageRecipes.CommandLine.Run
import PackageRecipes.Proofs.SettledLayers

/-! One package can be built by itself, after the layers above it, or along with its
whole set, where a failure is reported and blocks its heirs alone. Both ways agree:
whatever else has been finished or has failed before, the layers are settled. -/

namespace PackageRecipes.RecipeSet
open Relation

variable {set : RecipeSet} {name : String} {done : List String} {finished : FinishedLayers} {recipe : Recipe}

theorem declares_of_build {package : Package} (run : set.build name = .ok package) : set.Declares name := by
  obtain ⟨_, finished, _, _, above, declared, _⟩ := build_eq_ok run
  exact (settled_finishBases above).1.declares_of_declare declared

theorem Declares.declare_succeeds (declares : set.Declares name)
    (present : ∀ base, set.Inherits name base → finished.contains base = true) :
    ∃ builder, set.declare finished name = .ok builder := by
  have own := declares name .refl
  obtain ⟨placed, found⟩ := exists_find? own
  exact RecipeSet.declare_succeeds found own fun base listed => present base ⟨placed, found, listed⟩

private theorem inherits_iff_of_get? {base : String} (found : set.get? name = some recipe) :
    set.Inherits name base ↔ base ∈ recipe.bases := by
  obtain ⟨placed, held, rfl⟩ := Option.map_eq_some_iff.mp found
  constructor
  · rintro ⟨other, here, listed⟩
    cases held.symm.trans here
    exact listed
  · exact fun listed => ⟨placed, held, listed⟩

/-- A report says what building the recipe by itself gives. Where a base has not declared
both fail, but the report names that base and the build its fault. -/
structure Agrees (set : RecipeSet) (recipe : Recipe) (report : BuildReport) : Prop where
  kind : report.isAbstract = recipe.isAbstract
  built : recipe.isAbstract = false →
    ∀ package, set.build report.name = .ok package ↔ report.result = .ok (some package)
  failed : recipe.isAbstract = false →
    (∀ base, TransGen set.Inherits report.name base → (set.ownDirectives base).isOk = true) →
    ∀ error, set.build report.name = .error error ↔ report.result = .error error
  layer : recipe.isAbstract = true → (report.result = .ok none ↔ set.Declares report.name)

/-- The layers finished once the recipes in `done` have been reported. -/
structure Progress (set : RecipeSet) (done : List String) (finished : FinishedLayers) : Prop where
  settled : set.Settled finished
  present : ∀ name, finished.contains name = true ↔ name ∈ done ∧ set.Declares name

theorem Progress.start (set : RecipeSet) : set.Progress [] .empty :=
  ⟨set.settled_empty, fun _ => ⟨nofun, fun both => nomatch both.1⟩⟩

theorem Progress.pass (progress : set.Progress done finished) (faulty : ¬ set.Declares name) :
    set.Progress (name :: done) finished := by
  refine ⟨progress.settled, fun other => ?_⟩
  rw [progress.present, List.mem_cons]
  constructor
  · exact fun both => ⟨.inr both.1, both.2⟩
  · rintro ⟨rfl | earlier, declares⟩
    · exact absurd declares faulty
    · exact ⟨earlier, declares⟩

theorem Progress.finish (progress : set.Progress done finished) (new : name ∉ done) {builder : Builder}
    (run : set.declare finished name = .ok builder) :
    set.Progress (name :: done) (finished.insert name builder.finish) := by
  have absent : ¬ finished.contains name = true := fun present => new ((progress.present name).mp present).1
  refine ⟨progress.settled.insert absent run, fun other => ?_⟩
  have written : (finished.insert name builder.finish).contains other = true ↔
      other = name ∨ finished.contains other = true :=
    finished.contains_upsert
  rw [written, progress.present, List.mem_cons]
  constructor
  · rintro (rfl | ⟨earlier, declares⟩)
    · exact ⟨.inl rfl, progress.settled.declares_of_declare run⟩
    · exact ⟨.inr earlier, declares⟩
  · rintro ⟨rfl | earlier, declares⟩
    · exact .inl rfl
    · exact .inr ⟨earlier, declares⟩

/-- A recipe that does not declare, though its bases have been reported, fails on both ways. -/
private theorem Progress.agrees_of_faulty (progress : set.Progress done finished) (faulty : ¬ set.Declares name)
    (reported : ∀ base, set.Inherits name base → base ∈ done) {base : String} (edge : set.Inherits name base)
    (absent : finished.contains base = false) (error : Error) :
    set.Agrees recipe ⟨name, recipe.isAbstract, .error error⟩ where
  kind := rfl
  built _ package := ⟨fun run => absurd (declares_of_build run) faulty, nofun⟩
  failed _ above := by
    have declares : set.Declares base := fun owner path => above owner (.head' edge path)
    have present := (progress.present base).mpr ⟨reported base edge, declares⟩
    rw [absent] at present
    cases present
  layer _ := ⟨nofun, fun declares => absurd declares faulty⟩

/-- Upon the layers of all its bases, a recipe builds as it does by itself. -/
private theorem agrees_of_declare (valid : set.Valid) (settled : set.Settled finished)
    (present : ∀ base, set.Inherits name base → finished.contains base = true) (found : set.get? name = some recipe) :
    set.Agrees recipe ⟨name, recipe.isAbstract, set.declare finished name >>= fun builder =>
      if recipe.isAbstract then .ok none else builder.build.map some⟩ := by
  have alone : recipe.isAbstract = false → set.build name = set.declare finished name >>= Builder.build := by
    intro concrete
    rw [build_eq found concrete]
    exact valid.bind_finishBases settled present Builder.build
  constructor
  case kind => rfl
  case built =>
    intro concrete package
    rw [alone concrete]
    simp [concrete, bind_eq_ok, map_eq_ok]
  case failed =>
    intro concrete _ error
    rw [alone concrete]
    cases set.declare finished name with
    | error fault => simp [bind, Except.bind]
    | ok builder =>
      simp only [bind, Except.bind, concrete, Bool.false_eq_true, if_false]
      cases builder.build <;> simp [Except.map]
  case layer =>
    intro abstract
    simp only [abstract, if_true, bind_eq_ok, and_true]
    constructor
    · rintro ⟨builder, run⟩
      exact settled.declares_of_declare run
    · intro declares
      obtain ⟨builder, run⟩ := declares.declare_succeeds present
      exact ⟨builder, run⟩

theorem Progress.report (valid : set.Valid) (progress : set.Progress done finished)
    (reported : ∀ base, set.Inherits name base → base ∈ done) (new : name ∉ done)
    (found : set.get? name = some recipe) :
    set.Progress (name :: done) (set.report finished name recipe).2 ∧
      set.Agrees recipe (set.report finished name recipe).1 := by
  rw [RecipeSet.report]
  split
  next base missing =>
    have edge := (inherits_iff_of_get? found).mpr (List.mem_of_find?_eq_some missing)
    have absent : finished.contains base = false := by simpa using List.find?_some missing
    have faulty : ¬ set.Declares name := by
      intro declares
      have present := (progress.present base).mpr ⟨reported base edge, declares.inherited edge⟩
      rw [absent] at present
      cases present
    exact ⟨progress.pass faulty, progress.agrees_of_faulty faulty reported edge absent _⟩
  next complete =>
    have present : ∀ base, set.Inherits name base → finished.contains base = true := by
      intro base edge
      simpa using List.find?_eq_none.mp complete base ((inherits_iff_of_get? found).mp edge)
    have agrees := agrees_of_declare valid progress.settled present found
    cases run : set.declare finished name with
    | error error =>
      rw [run] at agrees
      refine ⟨progress.pass fun declares => ?_, agrees⟩
      obtain ⟨builder, succeeded⟩ := declares.declare_succeeds present
      rw [run] at succeeded
      cases succeeded
    | ok builder =>
      rw [run] at agrees
      exact ⟨progress.finish new run, agrees⟩

theorem Progress.reports {graph : LayerGraph} {order : List String} (valid : set.Valid) (planned : set.graph = .ok graph)
    (progress : set.Progress done finished) (first : graph.BasesFirst done order) (distinct : order.Nodup)
    (new : ∀ name ∈ order, name ∉ done) (known : ∀ name ∈ order, set.recipes.contains name = true) :
    (set.reports order finished).map (·.name) = order ∧
      ∀ report ∈ set.reports order finished,
        ∃ recipe, set.get? report.name = some recipe ∧ set.Agrees recipe report := by
  induction order generalizing done finished with
  | nil => exact ⟨rfl, nofun⟩
  | cons name rest ih =>
    obtain ⟨placed, held⟩ := Option.isSome_iff_exists.mp (known name List.mem_cons_self)
    have found : set.get? name = some placed.recipe := congrArg (Option.map PlacedRecipe.recipe) held
    obtain ⟨fresh, distinct⟩ := List.nodup_cons.mp distinct
    have reported : ∀ base, set.Inherits name base → base ∈ done := by
      rw [← graph_inherits_eq planned]
      exact first.1
    obtain ⟨next, agrees⟩ := progress.report valid reported (new name List.mem_cons_self) found
    have later : ∀ other ∈ rest, other ∉ name :: done := by
      intro other member earlier
      rcases List.mem_cons.mp earlier with rfl | before
      · exact fresh member
      · exact new other (List.mem_cons_of_mem name member) before
    obtain ⟨names, others⟩ := ih next first.2 distinct later fun other member =>
      known other (List.mem_cons_of_mem name member)
    have unfolded : set.reports (name :: rest) finished =
        (set.report finished name placed.recipe).1 :: set.reports rest (set.report finished name placed.recipe).2 := by
      rw [RecipeSet.reports, found]
    have named := @name_report set name finished placed.recipe
    rw [unfolded]
    refine ⟨?_, List.forall_mem_cons.mpr ⟨⟨placed.recipe, ?_, agrees⟩, others⟩⟩
    · rw [List.map_cons, named, names]
    · rw [named, found]

/-- All bases of a recipe are reported before it. -/
def BasesReportedFirst (set : RecipeSet) (reports : List BuildReport) : Prop :=
  ∀ before report after, reports = before ++ report :: after →
    ∀ base, set.Inherits report.name base → base ∈ before.map (·.name)

theorem Valid.buildEach_succeeds (valid : set.Valid) :
    ∃ reports, set.buildEach = .ok reports ∧ (reports.map (·.name)).Perm set.names ∧
      set.BasesReportedFirst reports ∧
      ∀ report ∈ reports, ∃ recipe, set.get? report.name = some recipe ∧ set.Agrees recipe report := by
  obtain ⟨graph, planned, sorted⟩ := valid.sorted
  have listed := (LayerGraph.perm_of_sorted sorted).2
  have distinct := listed.nodup_iff.mpr graph.nodup_layers
  have known : ∀ name, name ∈ graph.finishOrder ↔ set.recipes.contains name = true := fun name =>
    listed.mem_iff.trans (mem_layers_iff planned)
  have whole : graph.finishOrder.Perm set.names := by
    refine (List.perm_ext_iff_of_nodup distinct set.recipes.nodup_keys).mpr fun name => ?_
    rw [known]
    exact set.recipes.mem_keys_iff.symm
  have first := graph.basesFirst_finishOrder
  obtain ⟨names, agrees⟩ := (Progress.start set).reports valid planned first distinct (fun _ _ => List.not_mem_nil)
    fun name member => (known name).mp member
  refine ⟨set.reports graph.finishOrder .empty, ?_, by rw [names]; exact whole, ?_, agrees⟩
  · exact bind_eq_ok.mpr ⟨graph, planned, bind_eq_ok.mpr ⟨_, sorted, rfl⟩⟩
  · intro before report after split base edge
    have order : graph.finishOrder = before.map (·.name) ++ report.name :: after.map (·.name) := by
      rw [← names, split, List.map_append, List.map_cons]
    rw [← graph_inherits_eq planned] at edge
    rcases first.mem_of_split order edge with none | before
    · cases none
    · exact before

theorem not_valid_fails (invalid : ¬ set.Valid) :
    set.buildEach.isOk = false ∧
      ∀ name recipe, set.get? name = some recipe → recipe.isAbstract = false → (set.build name).isOk = false := by
  constructor
  · refine Bool.eq_false_iff.mpr fun succeeds => invalid ?_
    obtain ⟨reports, run⟩ := isOk_iff.mp succeeds
    obtain ⟨graph, planned, run⟩ := bind_eq_ok.mp run
    obtain ⟨order, sorted, _⟩ := bind_eq_ok.mp run
    exact valid_of_sorted planned sorted
  · intro name recipe found concrete
    refine Bool.eq_false_iff.mpr fun succeeds => invalid ?_
    obtain ⟨package, run⟩ := isOk_iff.mp succeeds
    rw [build_eq found concrete] at run
    obtain ⟨finished, above, _⟩ := bind_eq_ok.mp run
    obtain ⟨graph, planned, run⟩ := bind_eq_ok.mp above
    obtain ⟨order, sorted, _⟩ := bind_eq_ok.mp run
    exact valid_of_sorted planned sorted

private theorem buildAll_isOk {reports : List BuildReport} (run : set.buildEach = .ok reports) :
    set.buildAll.isOk = true ↔ ∀ report ∈ reports, report.result.isOk = true := by
  rw [← mapM_isOk, isOk_iff, isOk_iff]
  constructor
  · rintro ⟨packages, built⟩
    obtain ⟨reports', same, built⟩ := bind_eq_ok.mp built
    cases run.symm.trans same
    obtain ⟨results, found, _⟩ := bind_eq_ok.mp built
    exact ⟨results, found⟩
  · rintro ⟨results, found⟩
    exact ⟨_, bind_eq_ok.mpr ⟨reports, run, bind_eq_ok.mpr ⟨results, found, rfl⟩⟩⟩

section Checking
open CommandLine

private theorem checkReports_fails_iff {reports : List BuildReport} :
    (checkReports reports).failure.isSome = true ↔ ∃ report ∈ reports, report.result.isOk = false := by
  have failed : (checkReports reports).failure.isSome = true ↔
      0 < (reports.filter fun report => !report.result.isOk).length := by
    rw [checkReports]
    split <;> simp_all
  rw [failed, List.length_pos_iff_exists_mem]
  simp

theorem checkSet_fails_iff {reports : List BuildReport} (run : set.buildEach = .ok reports) :
    (checkSet (.ok set)).failure.isSome = true ↔ ∃ report ∈ reports, report.result.isOk = false := by
  have checked : checkSet (.ok set) = checkReports reports := by
    simp only [checkSet, Except.bind, run]
  rw [checked]
  exact checkReports_fails_iff

private theorem warnAll_succeeds {found : List FoundFile}
    (read : ∀ file ∈ found, ∃ result, readRecipe file = .ok result) :
    (warnAll found).failure = none := by
  induction found with
  | nil => rfl
  | cons file rest ih =>
    obtain ⟨⟨recipe, warnings⟩, here⟩ := read file List.mem_cons_self
    simp only [warnAll, here]
    exact ih fun other member => read other (List.mem_cons_of_mem file member)

/-- The files of a set that has been loaded have been read, so collecting their warnings
does not fail. -/
private theorem warnings_succeed {files : Files} {directory : String} {config : Config}
    (loaded : RecipeSet.load files directory config = .ok set) : (warnings files directory).failure = none := by
  rw [RecipeSet.load] at loaded
  split at loaded
  next entries present =>
    simp only [warnings, present]
    apply warnAll_succeeds
    revert loaded
    generalize RecipeSet.empty config = start
    induction recipeFiles directory (.directory entries) generalizing start with
    | nil => exact fun _ _ => nofun
    | cons file rest ih =>
      intro run
      rw [List.foldlM_cons, bind_eq_ok] at run
      obtain ⟨next, added, run⟩ := run
      obtain ⟨result, read, _⟩ := bind_eq_ok.mp added
      exact List.forall_mem_cons.mpr ⟨⟨result, read⟩, ih next run⟩
  next => cases loaded

theorem check_fails_iff {files : Files} {directory : String} {config : Config} {withWarnings : Bool}
    {reports : List BuildReport} (loaded : RecipeSet.load files directory config = .ok set)
    (run : set.buildEach = .ok reports) :
    ((Command.check directory withWarnings).run files config).failure.isSome = true ↔
      ∃ report ∈ reports, report.result.isOk = false := by
  rw [← checkSet_fails_iff run, Command.run, loaded]
  cases withWarnings with
  | false => rfl
  | true => simp only [if_true, Outcome.andThen, warnings_succeed loaded]

end Checking

/-- A set with an unknown base or a cycle builds neither way. Of any other, every recipe
is reported once and behind its bases, and its report agrees with building it by itself.
The whole set builds, and is found to be in order, exactly if all reports are good. -/
theorem build_agrees_with_reports (set : RecipeSet) :
    (¬ set.Valid → set.buildEach.isOk = false ∧
      ∀ name recipe, set.get? name = some recipe → recipe.isAbstract = false → (set.build name).isOk = false) ∧
    (set.Valid → ∃ reports, set.buildEach = .ok reports ∧ (reports.map (·.name)).Perm set.names ∧
      set.BasesReportedFirst reports ∧
      (∀ report ∈ reports, ∃ recipe, set.get? report.name = some recipe ∧ set.Agrees recipe report) ∧
      (set.buildAll.isOk = true ↔ ∀ report ∈ reports, report.result.isOk = true) ∧
      ((CommandLine.checkSet (.ok set)).failure.isSome = true ↔ ∃ report ∈ reports, report.result.isOk = false) ∧
      ∀ files directory config withWarnings, RecipeSet.load files directory config = .ok set →
        (((CommandLine.Command.check directory withWarnings).run files config).failure.isSome = true ↔
          ∃ report ∈ reports, report.result.isOk = false)) := by
  constructor
  · exact not_valid_fails
  · intro valid
    obtain ⟨reports, run, once, ordered, agrees⟩ := valid.buildEach_succeeds
    exact ⟨reports, run, once, ordered, agrees, buildAll_isOk run, checkSet_fails_iff run,
      fun files directory config withWarnings loaded => check_fails_iff loaded run⟩

def concrete (recipe : Recipe) : Recipe :=
  { recipe with isAbstract := false }

/-- A package that requires itself cannot be built, but its heir can. Of the other two,
one cannot be declared and the other inherits from it. -/
def mixed : Except Error RecipeSet := do
  let itself : DependencyArguments := ⟨"broken", .always, none, []⟩
  let broken := { concrete (versionRecipe "broken" [] "1.0") with dependencies := [itself] }
  let set ← (RecipeSet.empty .standard).insert broken none
  let set ← set.insert (concrete (versionRecipe "heir" ["broken"] "2.0")) none
  let set ← set.insert (versionRecipe "faulty" [] "@") none
  set.insert (concrete (versionRecipe "blocked" ["faulty"] "3.0")) none

def dangling : Except Error RecipeSet :=
  (RecipeSet.empty .standard).insert (concrete (versionRecipe "app" ["missing"] "1.0")) none

theorem mixed_and_dangling_agree :
    (∃ set reports report package, mixed = .ok set ∧ set.buildEach = .ok reports ∧ report ∈ reports ∧
      report.name = "heir" ∧ set.build "heir" = .ok package ∧ report.result = .ok (some package)) ∧
    ∃ set, dangling = .ok set ∧ ¬ set.Valid ∧ set.buildEach.isOk = false ∧ (set.build "app").isOk = false := by
  constructor
  · have checked : (do
        let set ← mixed
        let graph ← set.graph
        let _ ← graph.sorted
        let reports ← set.buildEach
        return reports.any fun report => report.name = "heir" ∧ report.isAbstract = false ∧
          report.result.toOption.join.isSome : Except Error Bool).toOption = some true := by decide +kernel
    obtain ⟨set, made, run⟩ := bind_eq_ok.mp (toOption_eq_some.mp checked)
    obtain ⟨graph, planned, run⟩ := bind_eq_ok.mp run
    obtain ⟨order, sorted, run⟩ := bind_eq_ok.mp run
    obtain ⟨reports, reported, run⟩ := bind_eq_ok.mp run
    obtain ⟨report, member, holds⟩ := List.any_eq_true.mp (Except.ok.inj run)
    obtain ⟨named, kind, succeeds⟩ := of_decide_eq_true holds
    obtain ⟨package, built⟩ := Option.isSome_iff_exists.mp succeeds
    obtain ⟨same, reported', _, _, agrees, _⟩ := (build_agrees_with_reports set).2 (valid_of_sorted planned sorted)
    cases reported.symm.trans reported'
    obtain ⟨recipe, _, same⟩ := agrees report member
    have result := toOption_eq_some.mp (Option.join_eq_some_iff.mp built)
    have alone := (same.built (same.kind ▸ kind) package).mpr result
    exact ⟨set, reports, report, package, made, reported, member, named, named ▸ alone, result⟩
  · have checked : (do
        let set ← dangling
        return (set.get? "app").any (fun recipe => recipe.bases = ["missing"] ∧ recipe.isAbstract = false) ∧
          set.recipes.contains "missing" = false : Except Error Bool).toOption = some true := by decide +kernel
    obtain ⟨set, made, run⟩ := bind_eq_ok.mp (toOption_eq_some.mp checked)
    obtain ⟨held, missing⟩ := of_decide_eq_true (Except.ok.inj run)
    obtain ⟨recipe, found, same⟩ := (Option.any_eq_true _ _).mp held
    obtain ⟨bases, kind⟩ := of_decide_eq_true same
    have invalid : ¬ set.Valid := by
      intro valid
      have edge : set.Inherits "app" "missing" := (inherits_iff_of_get? found).mpr (by simp [bases])
      rw [valid.known _ _ edge] at missing
      cases missing
    obtain ⟨each, alone⟩ := (build_agrees_with_reports set).1 invalid
    exact ⟨set, made, invalid, each, alone "app" recipe found kind⟩

end PackageRecipes.RecipeSet
