import PackageRecipes.Proofs.Outcome
import PackageRecipes.RecipeSet

/-! What a recipe declares of its own does not depend on the layers it inherits from:
declaring only adds to the directives recorded so far. -/

namespace PackageRecipes

variable {builder declared : Builder} {bases : List Layer}

namespace Builder

theorem declare_eq_ok_iff {kind : DirectiveKind} {read : Except Error Declaration} :
    builder.declare kind read = .ok declared ↔ ∃ declaration, read = .ok declaration ∧
      declared = builder.record (.declared declaration) := by
  cases read with
  | error error => simp [declare]
  | ok declaration => simp [declare, eq_comm]

def withBases (builder : Builder) (bases : List Layer) : Builder :=
  { builder with bases }

private theorem declare_withBases (kind : DirectiveKind) (read : Except Error Declaration) :
    (builder.withBases bases).declare kind read = (builder.declare kind read).map (·.withBases bases) := by
  cases read <;> rfl

private theorem declareWhen_withBases (condition : Condition) (kind : DirectiveKind) (read : Except Error Declaration) :
    (builder.withBases bases).declareWhen condition kind read =
      (builder.declareWhen condition kind read).map (·.withBases bases) := by
  unfold declareWhen
  split
  next => rfl
  next => exact declare_withBases kind read

end Builder

private theorem Entry.declare_withBases (entry : Entry) :
    entry.declare (builder.withBases bases) = (entry.declare builder).map (·.withBases bases) := by
  cases entry with
  | version arguments => exact Builder.declare_withBases _ _
  | variant arguments => exact Builder.declare_withBases _ _
  | dependsOn arguments => exact Builder.declareWhen_withBases _ _ _
  | extending arguments => exact Builder.declareWhen_withBases _ _ _
  | provides arguments => exact Builder.declareWhen_withBases _ _ _
  | conflicts arguments => exact Builder.declareWhen_withBases _ _ _
  | patch arguments => exact Builder.declareWhen_withBases _ _ _
  | resource arguments => exact Builder.declareWhen_withBases _ _ _

namespace Recipe

private theorem declareEntries_withBases (entries : List Entry) (builder : Builder) :
    declareEntries entries (builder.withBases bases) =
      ((declareEntries entries builder).1, (declareEntries entries builder).2.withBases bases) := by
  induction entries generalizing builder with
  | nil => rfl
  | cons entry rest ih =>
    rw [declareEntries, declareEntries, entry.declare_withBases]
    cases entry.declare builder with
    | error error => rfl
    | ok declared => exact ih declared

private theorem declare_withBases (recipe : Recipe) (builder : Builder) :
    recipe.declare (builder.withBases bases) = (recipe.declare builder).map (·.withBases bases) := by
  rw [declare, declare, declareEntries_withBases]
  obtain ⟨outcome, declared⟩ := declareEntries recipe.entries builder
  cases outcome <;> rfl

end Recipe

namespace RecipeSet

variable {set : RecipeSet} {name : String}

def start (set : RecipeSet) (name : String) (placed : PlacedRecipe) : Builder :=
  { Builder.new name set.config with directory := placed.directory }

def ownDirectives (set : RecipeSet) (name : String) : Except Error (List Directive) :=
  match set.recipes.find? name with
  | none => .error (.recipeMissing (.recipe name))
  | some placed => (placed.recipe.declare (set.start name placed)).map (·.pending)

theorem ownDirectives_of_find? {placed : PlacedRecipe} (found : set.recipes.find? name = some placed) :
    set.ownDirectives name = (placed.recipe.declare (set.start name placed)).map (·.pending) := by
  rw [ownDirectives, found]

theorem exists_find? (declares : (set.ownDirectives name).isOk = true) :
    ∃ placed, set.recipes.find? name = some placed := by
  cases found : set.recipes.find? name with
  | none =>
    rw [ownDirectives, found] at declares
    cases declares
  | some placed => exact ⟨placed, rfl⟩

theorem inheritAll_eq_ok_iff {finished : FinishedLayers} {names : List String} {after : Builder} :
    inheritAll finished names builder = .ok after ↔
      ∃ layers, names.map finished.find? = layers.map some ∧ after = builder.withBases (builder.bases ++ layers) := by
  induction names generalizing builder with
  | nil =>
    constructor
    · intro run
      cases run
      exact ⟨[], rfl, by simp [Builder.withBases]⟩
    · rintro ⟨layers, none, rfl⟩
      cases layers with
      | nil => simp [inheritAll, Builder.withBases, pure, Except.pure]
      | cons => cases none
  | cons first rest ih =>
    rw [inheritAll, List.foldlM_cons, bind_eq_ok]
    cases found : finished.find? first with
    | none =>
      constructor
      · rintro ⟨_, impossible, _⟩
        cases impossible
      · rintro ⟨layers, all, _⟩
        cases layers with
        | nil => cases all
        | cons layer others => simp [found] at all
    | some layer =>
      constructor
      · rintro ⟨next, same, run⟩
        cases same
        obtain ⟨layers, all, rfl⟩ := ih.mp run
        exact ⟨layer :: layers, by simp [found, all], by simp [Builder.withBases, Builder.inherit]⟩
      · rintro ⟨layers, all, rfl⟩
        cases layers with
        | nil => cases all
        | cons head others =>
          simp only [List.map_cons, found, List.cons.injEq, Option.some.injEq] at all
          obtain ⟨rfl, others⟩ := all
          exact ⟨builder.inherit layer, rfl, ih.mpr ⟨_, others, by simp [Builder.withBases, Builder.inherit]⟩⟩

/-- A declared recipe holds the finished layers of its bases and its own directives. -/
theorem declare_eq_ok {finished : FinishedLayers} (run : set.declare finished name = .ok declared) :
    ∃ placed own, set.recipes.find? name = some placed ∧ set.ownDirectives name = .ok own ∧
      placed.recipe.bases.map finished.find? = declared.bases.map some ∧ declared.pending = own := by
  rw [declare] at run
  split at run
  next => cases run
  next placed found =>
    obtain ⟨builder, inherited, run⟩ := bind_eq_ok.mp run
    obtain ⟨layers, all, rfl⟩ := inheritAll_eq_ok_iff.mp inherited
    change placed.recipe.declare ((set.start name placed).withBases layers) = _ at run
    rw [Recipe.declare_withBases, map_eq_ok] at run
    obtain ⟨alone, own, rfl⟩ := run
    exact ⟨placed, alone.pending, found, by rw [ownDirectives_of_find? found, own]; rfl, all, rfl⟩

private theorem exists_layers {finished : FinishedLayers} {names : List String}
    (present : ∀ base ∈ names, finished.contains base = true) :
    ∃ layers : List Layer, names.map finished.find? = layers.map some := by
  induction names with
  | nil => exact ⟨[], rfl⟩
  | cons first rest ih =>
    obtain ⟨layer, here⟩ := Option.isSome_iff_exists.mp (present first List.mem_cons_self)
    obtain ⟨others, all⟩ := ih fun base listed => present base (List.mem_cons_of_mem first listed)
    exact ⟨layer :: others, by rw [List.map_cons, here, all]; rfl⟩

theorem declare_succeeds {finished : FinishedLayers} {placed : PlacedRecipe}
    (found : set.recipes.find? name = some placed) (declares : (set.ownDirectives name).isOk = true)
    (present : ∀ base ∈ placed.recipe.bases, finished.contains base = true) :
    ∃ declared, set.declare finished name = .ok declared := by
  obtain ⟨layers, all⟩ := exists_layers present
  obtain ⟨own, declared⟩ := isOk_iff.mp declares
  rw [ownDirectives_of_find? found] at declared
  obtain ⟨alone, declared, _⟩ := map_eq_ok.mp declared
  refine ⟨alone.withBases layers, ?_⟩
  rw [declare, found]
  refine bind_eq_ok.mpr ⟨(set.start name placed).withBases layers, inheritAll_eq_ok_iff.mpr ⟨layers, all, rfl⟩, ?_⟩
  rw [Recipe.declare_withBases, declared]
  rfl

end RecipeSet

end PackageRecipes
