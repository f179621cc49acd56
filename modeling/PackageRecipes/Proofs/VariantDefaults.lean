import PackageRecipes.Proofs.OwnDirectives
import PackageRecipes.Recipe.Format

/-! Whether the default of a variant is one of its own values. A domain that lists its values
counts the default among them, and one that is inferred from the default leaves room for it. A domain
of switches or one with a test may be given beside any default, which then is refused
as a value of the variant. Recipe files have no such domains. -/

namespace PackageRecipes

namespace Variant

/-- What the check of all values together makes of values that are in the domain. -/
def judge (variant : Variant) (values : List String) : Except Error Unit :=
  match variant.check with
  | some check => (check.check values).mapError (.variantValue variant.name values)
  | none => .ok ()

def HoldsDefault (variant : Variant) : Prop :=
  variant.domain.accepts variant.default variant.default.shown = true

private theorem validate_default {variant : Variant} (holds : variant.HoldsDefault) :
    variant.validate [variant.default.shown] = variant.judge [variant.default.shown] := by
  rw [HoldsDefault] at holds
  simp only [validate, List.filter_cons, holds, Bool.not_true, Bool.false_eq_true, if_false, List.filter_nil,
    List.length_singleton, bne_self_eq_false, Bool.and_false, List.isEmpty_nil]
  rfl

/-- A default outside the domain is refused before all values are checked together. -/
theorem validate_refused_default {variant : Variant} (refused : ¬ variant.HoldsDefault) :
    variant.validate [variant.default.shown] =
      .error (.variantValue variant.name [variant.default.shown] variant.domain.text) := by
  rw [HoldsDefault, Bool.not_eq_true] at refused
  simp only [validate, List.filter_cons, refused, Bool.not_false, if_true, List.filter_nil, List.length_singleton,
    bne_self_eq_false, Bool.and_false, Bool.false_eq_true, if_false, List.isEmpty_cons]

end Variant

private theorem VariantValue.spellsSwitch_shown (value : VariantValue) :
    spellsSwitch value.shown = value.isSwitchLike := by
  cases value with
  | switch on => cases on <;> decide
  | text => rfl

namespace VariantArguments

/-- The default that is given or implied is one that the given domain accepts. -/
def fits (arguments : VariantArguments) : Bool :=
  match arguments.domain with
  | some .switch => arguments.default.all (·.isSwitchLike)
  | some (.tested test) => test.accepts ((arguments.default.map (·.shown)).getD "")
  | some (.oneOf _) | some .any | none => true

def variant (arguments : VariantArguments) : Variant :=
  let domain := arguments.domain.getD (.infer arguments.default)
  ⟨arguments.name, arguments.default.getD domain.impliedDefault, arguments.description, domain, arguments.multi,
    arguments.check⟩

private theorem holdsDefault_of_inferred {arguments : VariantArguments} (inferred : arguments.domain = none) :
    arguments.variant.HoldsDefault := by
  rw [Variant.HoldsDefault, variant, inferred, Option.getD_none, VariantDomain.infer]
  cases arguments.default with
  | none => rfl
  | some value =>
    rw [Option.any_some, Option.getD_some]
    split
    next switch => exact value.spellsSwitch_shown.trans switch
    next => rfl

theorem holdsDefault_iff {arguments : VariantArguments} :
    arguments.variant.HoldsDefault ↔ arguments.fits = true := by
  cases given : arguments.domain with
  | none => exact iff_of_true (holdsDefault_of_inferred given) (by rw [fits, given])
  | some domain =>
    rw [Variant.HoldsDefault, variant, fits, given, Option.getD_some]
    cases domain with
    | switch =>
      cases arguments.default with
      | none => exact iff_of_true (VariantValue.switch false).spellsSwitch_shown rfl
      | some value => exact Bool.eq_iff_iff.mp value.spellsSwitch_shown
    | oneOf => exact iff_of_true (by simp [VariantDomain.accepts]) rfl
    | tested test => cases arguments.default <;> exact Iff.rfl
    | any => exact iff_of_true rfl rfl

end VariantArguments

namespace Builder

variable {builder declared : Builder}

theorem variant_eq_ok_iff {arguments : VariantArguments} :
    builder.variant arguments = .ok declared ↔
      builder.config.isReserved arguments.name = false ∧
        declared = builder.record (.declared (.variant arguments.variant)) := by
  rw [variant, declare_eq_ok_iff]
  cases builder.config.isReserved arguments.name with
  | true => simp
  | false =>
    constructor
    · rintro ⟨_, same, recorded⟩
      cases same
      exact ⟨rfl, recorded⟩
    · rintro ⟨_, recorded⟩
      exact ⟨_, rfl, recorded⟩

/-- A variant declared on a builder leaves its default to the check of all values exactly if the
domain it was declared with accepts the default. One that is left out, lists its values or has
all of them always does; otherwise the default is refused for the sake of the domain. -/
theorem declared_variant_validates_default {arguments : VariantArguments}
    (run : builder.variant arguments = .ok declared) :
    ∃ variant, declared = builder.record (.declared (.variant variant)) ∧ variant.name = arguments.name ∧
      (arguments.fits = true →
        variant.validate [variant.default.shown] = variant.judge [variant.default.shown]) ∧
      (arguments.fits = false →
        variant.validate [variant.default.shown] =
          .error (.variantValue variant.name [variant.default.shown] variant.domain.text)) := by
  obtain ⟨_, recorded⟩ := variant_eq_ok_iff.mp run
  refine ⟨arguments.variant, recorded, rfl, fun fits => ?_, fun misfit => ?_⟩
  · exact Variant.validate_default (VariantArguments.holdsDefault_iff.mpr fits)
  · refine Variant.validate_refused_default fun holds => ?_
    rw [VariantArguments.holdsDefault_iff.mp holds] at misfit
    cases misfit

def undecided : VariantArguments :=
  ⟨"shared", some (.text "maybe"), "", some .switch, false, none⟩

theorem listed_default_is_value :
    let arguments : VariantArguments :=
      ⟨"fabrics", some (.text "auto"), "", some (.oneOf (OrderedSet.ofList ["psm", "verbs"])), true, none⟩
    ∃ declared variant, (Builder.new "app" .standard).variant arguments = .ok declared ∧
      declared.pending = [.declared (.variant variant)] ∧ variant.validate ["auto"] = .ok () := by
  intro arguments
  have run : (Builder.new "app" .standard).variant arguments = .ok _ := rfl
  obtain ⟨variant, recorded, _, validates, _⟩ := declared_variant_validates_default run
  refine ⟨_, variant, run, congrArg pending recorded, ?_⟩
  cases recorded
  exact validates rfl

theorem default_need_not_be_value :
    ¬ ∀ builder declared arguments variant, Builder.variant builder arguments = .ok declared →
      declared = builder.record (.declared (.variant variant)) →
      variant.validate [variant.default.shown] = variant.judge [variant.default.shown] := by
  intro validates
  have validated := validates (.new "app" .standard) _ undecided undecided.variant rfl rfl
  rw [Variant.validate_refused_default fun holds => ?_] at validated
  · cases validated
  · exact absurd (VariantArguments.holdsDefault_iff.mp holds) (by decide)

end Builder

section Recipes

open Toml

variable {builder after : Builder} {variant : Variant}

private theorem VariantArguments.fits_of_decode {value : Value} {arguments : VariantArguments}
    (read : decodeVariant value = some arguments) : arguments.fits = true := by
  obtain ⟨fields, _, read⟩ := Option.bind_eq_some_iff.mp read
  split at read
  next name default description values multi =>
    obtain ⟨_, _, read⟩ := Option.bind_eq_some_iff.mp read
    obtain ⟨_, _, read⟩ := Option.bind_eq_some_iff.mp read
    obtain ⟨_, _, read⟩ := Option.bind_eq_some_iff.mp read
    obtain ⟨listed, _, read⟩ := Option.bind_eq_some_iff.mp read
    obtain ⟨_, _, read⟩ := Option.bind_eq_some_iff.mp read
    cases read
    cases listed <;> rfl
  next => cases read

private theorem exists_of_mem_mapM {α β : Type} {read : α → Option β} {items : List α} {results : List β}
    (run : items.mapM read = some results) : ∀ result ∈ results, ∃ item ∈ items, read item = some result := by
  induction items generalizing results with
  | nil =>
    cases run
    exact nofun
  | cons item rest ih =>
    rw [List.mapM_cons] at run
    obtain ⟨result, found, run⟩ := Option.bind_eq_some_iff.mp run
    obtain ⟨others, remaining, same⟩ := Option.bind_eq_some_iff.mp run
    cases same
    refine List.forall_mem_cons.mpr ⟨⟨item, List.mem_cons_self, found⟩, fun other member => ?_⟩
    obtain ⟨source, present, found⟩ := ih remaining other member
    exact ⟨source, List.mem_cons_of_mem _ present, found⟩

/-- Whatever is in a list that may be left out has been read. -/
private theorem exists_of_mem_withDefault {α : Type} {decode : Decoder α} {field : Option Value} {results : List α}
    (read : withDefault [] (Value.list? decode) field = some results) :
    ∀ result ∈ results, ∃ value, decode value = some result := by
  unfold withDefault at read
  split at read
  next =>
    cases read
    exact nofun
  next =>
    unfold Value.list? at read
    split at read
    next =>
      intro result member
      obtain ⟨item, _, found⟩ := exists_of_mem_mapM read result member
      exact ⟨item, found⟩
    next => cases read

private theorem variants_of_decodeRecipe {document : List (String × Value)} {recipe : Recipe}
    (read : decodeRecipe document = some recipe) :
    ∃ field, withDefault [] (Value.list? decodeVariant) field = some recipe.variants := by
  obtain ⟨fields, _, read⟩ := Option.bind_eq_some_iff.mp read
  split at read
  next =>
    obtain ⟨_, _, read⟩ := Option.bind_eq_some_iff.mp read
    obtain ⟨_, _, read⟩ := Option.bind_eq_some_iff.mp read
    obtain ⟨_, _, read⟩ := Option.bind_eq_some_iff.mp read
    obtain ⟨_, _, read⟩ := Option.bind_eq_some_iff.mp read
    obtain ⟨_, _, read⟩ := Option.bind_eq_some_iff.mp read
    obtain ⟨_, _, read⟩ := Option.bind_eq_some_iff.mp read
    obtain ⟨_, _, read⟩ := Option.bind_eq_some_iff.mp read
    obtain ⟨variants, listed, read⟩ := Option.bind_eq_some_iff.mp read
    obtain ⟨_, _, read⟩ := Option.bind_eq_some_iff.mp read
    cases read
    exact ⟨_, listed⟩
  next => cases read

private theorem Recipe.fits_of_read {text : String} {recipe : Recipe} (read : ofText text = .ok recipe) :
    ∀ arguments ∈ recipe.variants, arguments.fits = true := by
  intro arguments member
  unfold ofText at read
  split at read
  next decoded =>
    cases read
    obtain ⟨document, _, decoded⟩ := Option.bind_eq_some_iff.mp decoded
    obtain ⟨_, listed⟩ := variants_of_decodeRecipe decoded
    obtain ⟨_, decoded⟩ := exists_of_mem_withDefault listed arguments member
    exact VariantArguments.fits_of_decode decoded
  next => cases read

private theorem Builder.variants_of_declare {kind : DirectiveKind} {read : Except Error Declaration}
    (run : builder.declare kind read = .ok after) (member : .declared (.variant variant) ∈ after.pending) :
    .declared (.variant variant) ∈ builder.pending ∨ read = .ok (.variant variant) := by
  obtain ⟨declaration, found, rfl⟩ := declare_eq_ok_iff.mp run
  refine (List.mem_append.mp member).imp_right fun last => ?_
  cases List.mem_singleton.mp last
  exact found

private theorem Builder.variants_of_declareWhen {condition : Condition} {kind : DirectiveKind}
    {read : Except Error Declaration} (run : builder.declareWhen condition kind read = .ok after)
    (member : .declared (.variant variant) ∈ after.pending) :
    .declared (.variant variant) ∈ builder.pending ∨ read = .ok (.variant variant) := by
  unfold declareWhen at run
  split at run
  next =>
    cases run
    exact .inl member
  next => exact variants_of_declare run member

/-- An entry that is not about a variant declares none. -/
theorem Entry.variants_declared {entry : Entry} (run : entry.declare builder = .ok after)
    (member : .declared (.variant variant) ∈ after.pending) :
    .declared (.variant variant) ∈ builder.pending ∨
      ∃ arguments, entry = .variant arguments ∧ variant = arguments.variant := by
  cases entry with
  | variant arguments =>
    obtain ⟨_, rfl⟩ := Builder.variant_eq_ok_iff.mp run
    refine (List.mem_append.mp member).imp_right fun last => ?_
    cases List.mem_singleton.mp last
    exact ⟨arguments, rfl, rfl⟩
  | version =>
    refine (Builder.variants_of_declare run member).imp_right fun read => ?_
    obtain ⟨_, _, other⟩ := bind_eq_ok.mp read
    cases other
  | patch =>
    refine (Builder.variants_of_declareWhen run member).imp_right fun read => ?_
    obtain ⟨_, _, other⟩ := bind_eq_ok.mp read
    cases other
  | conflicts | provides | resource =>
    refine (Builder.variants_of_declareWhen run member).imp_right fun read => ?_
    obtain ⟨_, _, read⟩ := bind_eq_ok.mp read
    obtain ⟨_, _, other⟩ := bind_eq_ok.mp read
    cases other
  | extending =>
    refine (Builder.variants_of_declareWhen run member).imp_right fun read => ?_
    obtain ⟨_, _, read⟩ := bind_eq_ok.mp read
    obtain ⟨_, _, read⟩ := bind_eq_ok.mp read
    obtain ⟨_, _, other⟩ := bind_eq_ok.mp read
    cases other
  | dependsOn =>
    refine (Builder.variants_of_declareWhen run member).imp_right fun read => ?_
    obtain ⟨_, _, read⟩ := bind_eq_ok.mp read
    obtain ⟨_, _, read⟩ := bind_eq_ok.mp read
    obtain ⟨_, _, read⟩ := bind_eq_ok.mp read
    obtain ⟨_, _, other⟩ := bind_eq_ok.mp read
    cases other

private theorem Recipe.variants_declared {recipe : Recipe} (run : recipe.declare builder = .ok after)
    (member : .declared (.variant variant) ∈ after.pending) :
    .declared (.variant variant) ∈ builder.pending ∨ ∃ arguments ∈ recipe.variants, variant = arguments.variant := by
  have listed (arguments : VariantArguments) : .variant arguments ∈ recipe.entries ↔ arguments ∈ recipe.variants := by
    simp [entries]
  simp only [← listed]
  unfold declare at run
  generalize recipe.entries = entries at run
  induction entries generalizing builder with
  | nil =>
    cases run
    exact .inl member
  | cons entry rest ih =>
    rw [declareEntries] at run
    cases first : entry.declare builder with
    | error error =>
      rw [first] at run
      cases run
    | ok next =>
      rw [first] at run
      rcases ih run with earlier | ⟨arguments, present, same⟩
      · rcases Entry.variants_declared first earlier with before | ⟨arguments, rfl, same⟩
        · exact .inl before
        · exact .inr ⟨arguments, List.mem_cons_self, same⟩
      · exact .inr ⟨arguments, List.mem_cons_of_mem _ present, same⟩

/-- The variants that a recipe file declares have their defaults among their values. -/
theorem Recipe.defaults_are_values {text : String} {recipe : Recipe} (read : ofText text = .ok recipe)
    (run : recipe.declare builder = .ok after)
    (before : ∀ variant, .declared (.variant variant) ∈ builder.pending → variant.HoldsDefault) :
    ∀ variant, .declared (.variant variant) ∈ after.pending → variant.HoldsDefault := by
  intro variant member
  rcases variants_declared run member with earlier | ⟨arguments, listed, rfl⟩
  · exact before variant earlier
  · exact VariantArguments.holdsDefault_iff.mpr (fits_of_read read arguments listed)

end Recipes

end PackageRecipes
