import PackageRecipes.Proofs.ReadEntries
import PackageRecipes.Proofs.SpecMerge
import PackageRecipes.Proofs.WrittenParts

/-! The normal text of an expression reads as an equal expression, unless the text of a
valued variant does not read as its values. -/

namespace PackageRecipes
open Std

namespace Node

/-- What holds of all nodes that are read, as far as it matters to their texts. -/
structure Written (node : Node) : Prop where
  name : ∀ name, node.name = some name → IsWord name
  normal : node.Normal
  variants : node.variants.All fun name setting => IsWord name ∧ setting.Written
  compiler : ∀ compiler, node.compiler = some compiler → IsWord compiler.name

private theorem narrowName_cases {left right both : Option String} (named : narrowName left right = .ok both) :
    both = left ∨ both = right := by
  unfold narrowName at named
  split at named
  · split at named
    · cases named
    · cases named
      exact .inl rfl
  · cases named
    exact .inl rfl
  · cases named
    exact .inr rfl

theorem all_of_narrowVariants {holds : String → VariantSetting → Prop} {left both : OrderedMap String VariantSetting}
    {entries : List (String × VariantSetting)} (first : left.All holds) (second : ∀ entry ∈ entries, holds entry.1 entry.2)
    (run : entries.foldlM (fun variants (name, setting) => narrowVariant variants name setting) left = .ok both) :
    both.All holds := by
  refine foldlM_preserves (·.All holds) ?_ first run
  intro variants entry after member before run
  simp only [narrowVariant] at run
  split at run
  next =>
    split at run
    · cases run
      exact before
    · cases run
  next =>
    cases run
    refine before.upsert (second entry member) fun other _ same _ => ?_
    rw [← LawfulEqOrd.eq_of_compare same]
    exact second entry member

theorem readInvariant_written : ReadInvariant Written where
  unconstrained := ⟨nofun, ownerInvariant_normal.unconstrained, OrderedMap.all_empty _, nofun⟩
  versions before listed := { before with normal := ownerInvariant_normal.versions before.normal listed }
  variant before word read := { before with
    normal := ownerInvariant_normal.variant before.normal word read
    variants := before.variants.upsert ⟨word, read.written⟩ fun _ _ _ both => ⟨both.1, read.written⟩ }
  compiler before word listed := { before with
    normal := ownerInvariant_normal.compiler before.normal word listed
    compiler := fun _ same => by cases same; exact word }
  named before word := { before with
    normal := ownerInvariant_normal.named before.normal word
    name := fun _ same => by cases same; exact word }
  narrow := by
    intro left right both first second run
    have normal := ownerInvariant_normal.narrow first.normal second.normal run
    obtain ⟨named, _, merged, compiled⟩ := narrow_eq_ok_iff.mp run
    refine ⟨fun name present => ?_, normal, all_of_narrowVariants first.variants second.variants merged,
      fun compiler present => ?_⟩
    · rcases narrowName_cases named with same | same
      · exact first.name name (same ▸ present)
      · exact second.name name (same ▸ present)
    · rcases narrowCompiler_cases compiled with same | same | ⟨one, other, narrowed, inLeft, _, run, same⟩
      · exact first.compiler compiler (same ▸ present)
      · exact second.compiler compiler (same ▸ present)
      · cases same.symm.trans present
        rw [(CompilerSpec.narrow_eq_ok_iff.mp run).2.1]
        exact first.compiler one inLeft

def versionItems (list : VersionList) : List Item :=
  if list.isAny then [] else [.versions (Item.readVersions list.text.toList)]

def variantItem (entry : String × VariantSetting) : Item :=
  .variant ((entry.2.reread entry.1).map (entry.1, ·))

def compilerItem (compiler : CompilerSpec) : Item :=
  .compiler (Item.readCompiler compiler.name.toList
    (if compiler.versions.isAny then none else some compiler.versions.text.toList))

def isSwitch : String × VariantSetting → Bool
  | (_, .enabled _) => true
  | (_, .values _) => false

/-- The variants as they are written: switches come first. -/
def writtenVariants (node : Node) : List (String × VariantSetting) :=
  node.variants.entries.filter isSwitch ++ node.variants.entries.filter (!isSwitch ·)

def items (node : Node) : List Item :=
  (node.name.map .word).toList ++ versionItems node.versions ++ node.writtenVariants.map variantItem ++
    (node.compiler.map compilerItem).toList

open Item

private theorem scansAs_versionItems {list : VersionList} (normal : list.Normal) :
    ScansAs signs (if list.isAny then "" else "@" ++ list.text).toList ((versionItems list).map some) := by
  unfold versionItems
  split
  · exact .nil signs
  · rw [String.toList_append]
    exact scansAs_versions (list.text_ne_nil normal.nonempty) list.characters_of_text

/-- The items of some of the entries are those of all entries when the others have none. -/
private theorem map_filter_eq_flatMap {chosen : String × VariantSetting → Bool}
    (entries : List (String × VariantSetting)) :
    ((entries.filter chosen).map variantItem).map some =
      entries.flatMap fun entry => if chosen entry then [some (variantItem entry)] else [] := by
  induction entries with
  | nil => rfl
  | cons first rest ih =>
    rw [List.flatMap_cons, ← ih, List.filter_cons]
    split <;> rfl

section Variants

variable {name : String} {setting : VariantSetting}

theorem switchText_toList (name : String) (on : Bool) :
    (switchText (name, .enabled on)).toList = (if on then '+' else '~') :: name.toList := by
  rw [switchText, String.toList_append]
  cases on <;> rfl

theorem valuesText_toList (name : String) (list : List String) :
    (valuesText (name, .values list)).toList = ' ' :: (name.toList ++ '=' :: (",".intercalate list).toList) := by
  simp [valuesText]

private theorem scansAs_switchText (word : IsWord name) :
    ScansAs signs (switchText (name, setting)).toList
      (if isSwitch (name, setting) then [some (variantItem (name, setting))] else []) := by
  cases setting with
  | values => exact .nil signs
  | enabled on =>
    rw [switchText_toList, isSwitch, if_pos rfl, variantItem, ← VariantSetting.readSwitch_eq word]
    exact scansAs_switch on word

private theorem scansAs_valuesText (word : IsWord name) (written : setting.Written) :
    ScansAs signs (valuesText (name, setting)).toList
      (if !isSwitch (name, setting) then [some (variantItem (name, setting))] else []) := by
  cases setting with
  | enabled => exact .nil signs
  | values list =>
    rw [valuesText_toList, isSwitch, Bool.not_false, if_pos rfl, variantItem, ← VariantSetting.readValue_eq]
    exact scansAs_value word (VariantSetting.characters_of_words written)

private theorem beginsWith_switchText (entry : String × VariantSetting) :
    BeginsWith signs (switchText entry).toList := by
  obtain ⟨name, setting⟩ := entry
  cases setting with
  | values => exact beginsWith_nil signs
  | enabled on =>
    rw [switchText_toList]
    rintro _ ⟨⟩
    cases on <;> decide

private theorem beginsWith_valuesText (entry : String × VariantSetting) :
    BeginsWith signs (valuesText entry).toList := by
  obtain ⟨name, setting⟩ := entry
  cases setting with
  | enabled => exact beginsWith_nil signs
  | values =>
    rw [valuesText_toList]
    rintro _ ⟨⟩
    decide

end Variants

private theorem scansAs_compilerItem {compiler : CompilerSpec} (word : IsWord compiler.name)
    (normal : compiler.versions.Normal) :
    ScansAs [' '] compiler.text.toList [some (compilerItem compiler)] := by
  unfold CompilerSpec.text compilerItem
  split
  next => simpa using scansAs_compiler word
  next =>
    have scans := scansAs_compiler_versions word (compiler.versions.text_ne_nil normal.nonempty)
      compiler.versions.characters_of_text
    simpa using scans.mono (List.cons_subset.mpr ⟨List.mem_cons_self, List.nil_subset _⟩)

private theorem scansAs_text {node : Node} (written : node.Written) :
    ScansAs [' '] node.text.toList (node.items.map some) := by
  have name : ScansAs signs (node.name.getD "").toList ((node.name.map .word).toList.map some) := by
    cases named : node.name with
    | none => exact .nil signs
    | some name => exact scansAs_word (written.name name named)
  have compiler : ScansAs [' '] ((node.compiler.map (·.text)).getD "").toList
      ((node.compiler.map compilerItem).toList.map some) := by
    cases present : node.compiler with
    | none => exact .nil [' ']
    | some compiler =>
      exact scansAs_compilerItem (written.compiler compiler present) (written.normal.compiler compiler present)
  have versions := scansAs_versionItems written.normal.versions
  have switches : ScansAs signs (String.join (node.variants.entries.map switchText)).toList
      (node.variants.entries.flatMap fun entry => if isSwitch entry then [some (variantItem entry)] else []) :=
    .join (fun entry member => scansAs_switchText (written.variants entry member).1)
      fun entry _ => beginsWith_switchText entry
  have values : ScansAs signs (String.join (node.variants.entries.map valuesText)).toList
      (node.variants.entries.flatMap fun entry => if !isSwitch entry then [some (variantItem entry)] else []) :=
    .join (fun entry member => scansAs_valuesText (written.variants entry member).1 (written.variants entry member).2)
      fun entry _ => beginsWith_valuesText entry
  have beginsVersions : BeginsWith signs (if node.versions.isAny then "" else "@" ++ node.versions.text).toList := by
    split
    · exact beginsWith_nil signs
    · rw [String.toList_append]
      rintro _ ⟨⟩
      decide
  have beginsCompiler : BeginsWith signs ((node.compiler.map (·.text)).getD "").toList := by
    cases node.compiler with
    | none => exact beginsWith_nil signs
    | some compiler =>
      rw [Option.map_some, Option.getD_some, CompilerSpec.text, String.toList_append, String.toList_append]
      rintro _ ⟨⟩
      decide
  have same := List.Subset.refl signs
  have whole := (((name.append versions beginsVersions same).append switches
    (beginsWith_join fun entry _ => beginsWith_switchText entry) same).append values
    (beginsWith_join fun entry _ => beginsWith_valuesText entry) same).append compiler beginsCompiler (by decide)
  rw [text, items, writtenVariants]
  simpa only [String.toList_append, List.map_append, map_filter_eq_flatMap, List.append_assoc] using whole

section Rereading

variable {node : Node}

theorem readVersions_text {list : VersionList} (normal : list.Normal) (bounded : list.isAny = false) :
    ∃ again, readVersions list.text.toList = .ok again ∧ (again == list) = true := by
  obtain ⟨again, parsed, same⟩ := VersionList.parse_text normal bounded
  refine ⟨again, ?_, same⟩
  rw [readVersions, if_neg (by simpa using list.text_ne_nil normal.nonempty), String.ofList_toList]
  exact mapError_eq_ok.mpr parsed

/-- Versions are read back; those that admit all need not be read. -/
private theorem exists_foldlM_versionItems {list : VersionList} (normal : list.Normal) (node : Node) (isFresh : Bool)
    (unread : node.versions = .any) :
    ∃ versions read fresh, (versions == list) = true ∧
      (versionItems list).foldlM Draft.addItem ⟨node, false, isFresh⟩ = .ok ⟨{ node with versions }, read, fresh⟩ := by
  unfold versionItems
  split
  next whole =>
    refine ⟨.any, false, isFresh, ?_, ?_⟩
    · rw [normal.unbounded whole]
      exact BEq.refl _
    · rw [← unread]
      rfl
  next bounded =>
    obtain ⟨again, read, same⟩ := readVersions_text normal (Bool.eq_false_iff.mpr bounded)
    refine ⟨again, true, false, same, ?_⟩
    rw [read]
    rfl

theorem readCompiler_text {compiler : CompilerSpec} (word : IsWord compiler.name) (normal : compiler.versions.Normal) :
    ∃ again, compilerItem compiler = .compiler (.ok again) ∧ (again == compiler) = true := by
  have name : readName .compiler compiler.name.toList = .ok compiler.name := by
    rw [readName, if_neg (by simpa using word.nonempty), String.ofList_toList]
  unfold compilerItem
  split
  next whole =>
    refine ⟨⟨compiler.name, .any⟩, congrArg Item.compiler (bind_eq_ok.mpr ⟨_, name, rfl⟩), ?_⟩
    rw [CompilerSpec.beq_eq, normal.unbounded whole]
    simp
  next bounded =>
    obtain ⟨again, read, same⟩ := readVersions_text normal (Bool.eq_false_iff.mpr bounded)
    have found : readCompiler compiler.name.toList (some compiler.versions.text.toList) = .ok ⟨compiler.name, again⟩ :=
      bind_eq_ok.mpr ⟨_, name, bind_eq_ok.mpr ⟨again, read, rfl⟩⟩
    refine ⟨⟨compiler.name, again⟩, congrArg Item.compiler found, ?_⟩
    rw [CompilerSpec.beq_eq, BEq.refl]
    exact same

/-- A compiler is read back, whatever has been read before it. -/
private theorem exists_foldlM_compilerItem {compiler : Option CompilerSpec}
    (words : ∀ present, compiler = some present → IsWord present.name)
    (normal : ∀ present, compiler = some present → present.versions.Normal) :
    ∃ again, (again == compiler) = true ∧ ∀ (draft : Draft), draft.node.compiler = none → ∃ fresh,
      (compiler.map compilerItem).toList.foldlM Draft.addItem draft =
        .ok ⟨{ draft.node with compiler := again }, draft.hasVersions, fresh⟩ := by
  cases compiler with
  | none =>
    refine ⟨none, rfl, ?_⟩
    rintro ⟨⟨name, versions, variants, _⟩, read, fresh⟩ unread
    cases unread
    exact ⟨fresh, rfl⟩
  | some compiler =>
    obtain ⟨again, read, same⟩ := readCompiler_text (words compiler rfl) (normal compiler rfl)
    refine ⟨some again, same, ?_⟩
    rintro ⟨⟨name, versions, variants, _⟩, hasVersions, fresh⟩ unread
    cases unread
    refine ⟨false, ?_⟩
    rw [Option.map_some, read]
    rfl

/-- Variants are read into a map, as their names are different. -/
private theorem foldlM_variantItems (node : Node) (hasVersions isFresh : Bool) (unread : node.variants = .empty)
    {entries : List (String × VariantSetting)} (different : DifferentKeys entries) :
    (entries.map variantItem).foldlM Draft.addItem ⟨node, hasVersions, isFresh⟩ =
      (entries.foldlM (readInto fun entry => entry.2.reread entry.1) .empty).map fun variants =>
        ⟨{ node with variants }, hasVersions, isFresh && variants.isEmpty⟩ := by
  obtain ⟨name, versions, _, compiler⟩ := node
  subst unread
  rw [List.foldlM_map]
  let place (variants : OrderedMap String VariantSetting) : Draft :=
    ⟨⟨name, versions, variants, compiler⟩, hasVersions, isFresh && variants.isEmpty⟩
  have start : place .empty = ⟨⟨name, versions, .empty, compiler⟩, hasVersions, isFresh⟩ :=
    congrArg (Draft.mk _ _) (Bool.and_true isFresh)
  rw [← start]
  refine foldlM_eq_readInto place different ?_ fun _ _ => rfl
  · intro entry _ variants new
    have absent : ¬variants.contains entry.1 = true := by simp [OrderedMap.contains, new]
    rw [variantItem, Draft.addItem, readInto]
    cases entry.2.reread entry.1 with
    | error fault => rfl
    | ok setting =>
      have filled : (variants.insert entry.1 setting).isEmpty = false :=
        List.isEmpty_eq_false_iff.mpr (variants.upsert_ne_empty entry.1 fun _ => setting)
      change (if variants.contains entry.1 then _ else _) = Except.ok (Draft.mk _ _ (isFresh && _))
      rw [if_neg absent, filled, Bool.and_false]
      rfl

private theorem writtenVariants_perm (node : Node) : node.variants.entries.Perm node.writtenVariants :=
  (List.filter_append_perm isSwitch node.variants.entries).symm

/-- All that a node is written as is read back, but for the variants as they are written. -/
theorem exists_ofItems_eq (written : node.Written) :
    ∃ versions compiler, (versions == node.versions) = true ∧ (compiler == node.compiler) = true ∧
      ofItems node.items =
        (node.writtenVariants.foldlM (readInto fun entry => entry.2.reread entry.1) .empty).map fun variants =>
          ⟨node.name, versions, variants, compiler⟩ := by
  have named : (node.name.map Item.word).toList.foldlM Draft.addItem .fresh =
      .ok ⟨⟨node.name, .any, .empty, none⟩, false, node.name.isNone⟩ := by
    cases node.name <;> rfl
  obtain ⟨versions, read, fresh, sameVersions, versioned⟩ := exists_foldlM_versionItems written.normal.versions
    ⟨node.name, .any, .empty, none⟩ node.name.isNone rfl
  obtain ⟨compiler, sameCompiler, compiled⟩ := exists_foldlM_compilerItem written.compiler written.normal.compiler
  have different := node.variants.differentKeys.perm node.writtenVariants_perm
  have varied := foldlM_variantItems ⟨node.name, versions, .empty, none⟩ read fresh rfl different
  refine ⟨versions, compiler, sameVersions, sameCompiler, ?_⟩
  rw [ofItems, items, List.append_assoc, List.append_assoc, foldlM_append_of_ok named, foldlM_append_of_ok versioned,
    List.foldlM_append, varied]
  cases node.writtenVariants.foldlM (readInto fun entry => entry.2.reread entry.1) OrderedMap.empty with
  | error fault => rfl
  | ok variants =>
    obtain ⟨last, run⟩ := compiled ⟨⟨node.name, versions, variants, none⟩, read, fresh && variants.isEmpty⟩ rfl
    exact congrArg (Except.map (·.node)) run

def isLegible (node : Node) : Bool :=
  node.variants.values.all (·.isLegible)

private theorem name_of_ofItems {again : Node} (written : node.Written) (run : ofItems node.items = .ok again) :
    again.name = node.name := by
  obtain ⟨versions, compiler, _, _, same⟩ := exists_ofItems_eq written
  rw [same] at run
  obtain ⟨variants, _, rfl⟩ := map_eq_ok.mp run
  rfl

/-- A node is read back as an equal one exactly if its text can be. -/
theorem exists_ofItems_iff (written : node.Written) :
    (∃ again, ofItems node.items = .ok again ∧ (again == node) = true) ↔ node.isLegible = true := by
  obtain ⟨versions, compiler, sameVersions, sameCompiler, same⟩ := exists_ofItems_eq written
  have each : (∀ entry ∈ node.variants.entries,
      ∃ setting, entry.2.reread entry.1 = .ok setting ∧ (setting == entry.2) = true) ↔ node.isLegible = true := by
    rw [isLegible, OrderedMap.values, List.all_map, List.all_eq_true]
    refine forall₂_congr fun entry member => ?_
    rw [Function.comp_apply, ← VariantSetting.reread_eq_ok_iff entry.1 (written.variants entry member).2]
    simp
  refine Iff.trans ?_ ((exists_alikeEntries_iff (fun entry => entry.2.reread entry.1)
    (fun left right => (left == right) = true) node.writtenVariants_perm).trans each)
  simp only [same, ← beq_iff_alikeEntries]
  constructor
  · rintro ⟨again, run, equal⟩
    obtain ⟨variants, found, rfl⟩ := map_eq_ok.mp run
    rw [beq_eq, Bool.and_eq_true, Bool.and_eq_true, Bool.and_eq_true] at equal
    exact ⟨variants, found, equal.2.2.1⟩
  · rintro ⟨variants, run, equal⟩
    refine ⟨_, map_eq_ok.mpr ⟨variants, run, rfl⟩, ?_⟩
    rw [beq_eq, Bool.and_eq_true, Bool.and_eq_true, Bool.and_eq_true]
    exact ⟨BEq.refl node.name, sameVersions, equal, sameCompiler⟩

end Rereading

end Node

namespace Spec

open Item

def items (spec : Spec) : List (Option Item) :=
  spec.node.items.map some ++ spec.dependencies.entries.flatMap fun entry => none :: entry.2.items.map some

def reread (expression : String) (node : Node) : Except Error Node :=
  (Node.ofItems node.items).mapError (.spec expression)

section Reading

variable {spec : Spec} (each : spec.Each Node.Written)
include each

theorem scan_text : scan spec.text.toList = spec.items := by
  have begins : ∀ entry ∈ spec.dependencies.entries, BeginsWith [' '] (" ^" ++ entry.2.text).toList := by
    intro entry _
    rw [String.toList_append]
    rintro _ ⟨⟩
    decide
  have scans : ∀ entry ∈ spec.dependencies.entries,
      ScansAs [' '] (" ^" ++ entry.2.text).toList (none :: entry.2.items.map some) := by
    intro entry member
    rw [String.toList_append]
    exact (Node.scansAs_text (each.dependencies entry member).2).clause
  have clauses := ScansAs.join scans begins
  have whole := (Node.scansAs_text each.node).append clauses (beginsWith_join begins) (List.Subset.refl [' ']) []
    (beginsWith_nil [' '])
  rw [scan_nil, List.append_nil, List.append_nil] at whole
  rw [text, String.toList_append, OrderedMap.values, List.map_map]
  exact whole

/-- Reading the text reads the package and then, by themselves, the dependencies. -/
theorem parse_text : parse spec.text = reread spec.text spec.node >>= fun node =>
    (spec.dependencies.entries.foldlM (readInto fun entry => reread spec.text entry.2) .empty).map
      fun dependencies => ⟨node, dependencies⟩ := by
  have cut : clauses (scan spec.text.toList) = (spec.node.items, spec.dependencies.entries.map (·.2.items)) := by
    have others := clauses_flatMap (spec.dependencies.entries.map (·.2.items))
    rw [List.flatMap_map] at others
    rw [scan_text each, items, clauses_append, others, List.append_nil]
  rw [parse, cut]
  refine bind_congr fun node => ?_
  rw [List.foldlM_map]
  refine foldlM_eq_readInto (fun dependencies => (⟨node, dependencies⟩ : Spec)) spec.dependencies.differentKeys
    (fun entry member dependencies new => ?_) fun _ _ => rfl
  obtain ⟨named, written⟩ := each.dependencies entry member
  rw [addClause, readInto]
  cases read : Node.ofItems entry.2.items with
  | error fault =>
    rw [reread, read]
    rfl
  | ok again =>
    have same := (Node.name_of_ofItems written read).trans named
    rw [reread, read]
    simp [same, addDependency, new, Except.mapError, Except.map, bind, Except.bind]

end Reading

def isLegible (spec : Spec) : Bool :=
  spec.node.isLegible && spec.dependencies.values.all (·.isLegible)

theorem exists_reread_iff (expression : String) {node : Node} (written : node.Written) :
    (∃ again, reread expression node = .ok again ∧ (again == node) = true) ↔ node.isLegible = true := by
  simp only [reread, mapError_eq_ok, Node.exists_ofItems_iff written]

/-- The normal text of an expression that has been read is read as an equal expression,
exactly if the text of each valued variant reads as its values. -/
theorem reads_normal_text_iff {expression : String} {spec : Spec} (read : parse expression = .ok spec) :
    (∃ again, parse spec.text = .ok again ∧ (again == spec) = true) ↔ spec.isLegible = true := by
  have each : spec.Each Node.Written := each_of_parse Node.readInvariant_written read
  have dependencies : (∀ entry ∈ spec.dependencies.entries,
      ∃ again, reread spec.text entry.2 = .ok again ∧ (again == entry.2) = true) ↔
        spec.dependencies.values.all (·.isLegible) = true := by
    rw [OrderedMap.values, List.all_map, List.all_eq_true]
    exact forall₂_congr fun entry member => exists_reread_iff spec.text (each.dependencies entry member).2
  rw [isLegible, Bool.and_eq_true, ← exists_reread_iff spec.text each.node, ← dependencies,
    ← exists_alikeEntries_iff (fun entry => reread spec.text entry.2) (fun left right => (left == right) = true) (.refl _)]
  simp only [parse_text each, bind_eq_ok, map_eq_ok, ← beq_iff_alikeEntries]
  constructor
  · rintro ⟨_, ⟨node, root, others, run, rfl⟩, same⟩
    obtain ⟨sameNode, same⟩ := Bool.and_eq_true_iff.mp (beq_eq _ spec ▸ same)
    exact ⟨⟨node, root, sameNode⟩, others, run, same⟩
  · rintro ⟨⟨node, root, sameNode⟩, others, run, same⟩
    refine ⟨_, ⟨node, root, others, run, rfl⟩, ?_⟩
    rw [beq_eq, Bool.and_eq_true]
    exact ⟨sameNode, same⟩

/-- An expression with parts of every kind, some of them not as they are written, and two
clauses on one dependency. -/
def mixedExpression : String :=
  "hdf5 fabrics=,verbs +mpi @1.10:1-10 ~szip lang=True %gcc@4.9: ^zlib@1.2,: ^mpich@3: +slurm ^mpich@:3.4 pmi=hydra"

theorem mixedExpression_reads_again :
    ∃ spec, parse mixedExpression = .ok spec ∧ ∃ again, parse spec.text = .ok again ∧ (again == spec) = true := by
  have readable : ((parse mixedExpression).toOption.map isLegible) = some true := by decide +kernel
  obtain ⟨spec, found, legible⟩ := Option.map_eq_some_iff.mp readable
  have read := toOption_eq_some.mp found
  exact ⟨spec, read, (reads_normal_text_iff read).mpr legible⟩

/-- Commas in the text of a value leave lists of values that no text reads as: the lone
word of a switch, and no value at all. -/
theorem stray_commas_are_not_read_again :
    (∃ spec, parse "f=true," = .ok spec ∧ ∃ again, parse spec.text = .ok again ∧ (again == spec) = false) ∧
      ∃ spec, parse "f=," = .ok spec ∧ (parse spec.text).isOk = false := by
  have lone : ((parse "f=true,").toOption.bind fun spec => (parse spec.text).toOption.map (· == spec)) = some false := by
    decide +kernel
  have missing : ((parse "f=,").toOption.map fun spec => (parse spec.text).isOk) = some false := by decide +kernel
  obtain ⟨spec, found, again⟩ := Option.bind_eq_some_iff.mp lone
  obtain ⟨again, reads, different⟩ := Option.map_eq_some_iff.mp again
  obtain ⟨other, foundOther, fails⟩ := Option.map_eq_some_iff.mp missing
  exact ⟨⟨spec, toOption_eq_some.mp found, again, toOption_eq_some.mp reads, different⟩,
    other, toOption_eq_some.mp foundOther, fails⟩

end Spec

end PackageRecipes
