import PackageRecipes.Proofs.OrderedMapEntries
import PackageRecipes.Proofs.SpecMeet
import PackageRecipes.Spec.Reader

/-! What reading an expression can put into it. Whatever holds of an unconstrained node
and is kept by each kind of item and by narrowing holds of all nodes that are read. -/

namespace PackageRecipes

/-- A name as the reader takes it from a text. -/
structure IsWord (name : String) : Prop where
  nonempty : name.toList ≠ []
  characters : ∀ c ∈ name.toList, Item.isNameCharacter c = true

def VersionList.IsRead (list : VersionList) : Prop :=
  list = any ∨ ∃ text, parse text = .ok list

def VariantSetting.IsRead (setting : VariantSetting) : Prop :=
  (∃ on, setting = enabled on) ∨
    ∃ text : String, (∀ c ∈ text.toList, Item.isValueCharacter c = true) ∧ setting = ofText text

namespace Item

def IsRead : Item → Prop
  | versions list => ∀ read, list = .ok read → read.IsRead
  | variant setting => ∀ name read, setting = .ok (name, read) → IsWord name ∧ read.IsRead
  | compiler constraint => ∀ read, constraint = .ok read → IsWord read.name ∧ read.versions.IsRead
  | word name => IsWord name
  | stray _ => True

private theorem isWord_readName {role : NameRole} {characters : List Char} {name : String}
    (named : ∀ c ∈ characters, isNameCharacter c = true) (read : readName role characters = .ok name) : IsWord name := by
  unfold readName at read
  split at read
  · cases read
  next nonempty =>
    cases read
    exact ⟨by simpa using nonempty, by simpa using named⟩

private theorem isRead_readVersions {characters : List Char} {list : VersionList}
    (read : readVersions characters = .ok list) : list.IsRead := by
  unfold readVersions at read
  split at read
  · cases read
  · exact .inr ⟨_, mapError_eq_ok.mp read⟩

private theorem isRead_readSwitch {on : Bool} {characters : List Char}
    (named : ∀ c ∈ characters, isNameCharacter c = true) :
    (variant (readSwitch on characters)).IsRead := by
  intro name setting read
  obtain ⟨name, found, same⟩ := map_eq_ok.mp read
  cases same
  exact ⟨isWord_readName named found, .inl ⟨on, rfl⟩⟩

private theorem isRead_readValue {name : String} {characters : List Char} (word : IsWord name)
    (valued : ∀ c ∈ characters, isValueCharacter c = true) : (variant (readValue name characters)).IsRead := by
  intro found setting read
  unfold readValue at read
  split at read
  · cases read
  · cases read
    exact ⟨word, .inr ⟨_, by simpa using valued, rfl⟩⟩

private theorem isRead_readCompiler {name : List Char} {versions : Option (List Char)}
    (named : ∀ c ∈ name, isNameCharacter c = true) : (compiler (readCompiler name versions)).IsRead := by
  intro compiler read
  rw [readCompiler, bind_eq_ok] at read
  obtain ⟨word, found, read⟩ := read
  have word := isWord_readName named found
  cases versions with
  | none =>
    cases read
    exact ⟨word, .inl rfl⟩
  | some characters =>
    obtain ⟨list, listed, same⟩ := bind_eq_ok.mp read
    cases same
    exact ⟨word, isRead_readVersions listed⟩

theorem of_mem_takeWhile {inRun : Char → Bool} {text : List Char} : ∀ c ∈ text.takeWhile inRun, inRun c = true :=
  List.all_eq_true.mp List.all_takeWhile

private theorem isWord_cons {c : Char} {rest : List Char} (first : isNameCharacter c = true) :
    IsWord (String.ofList (c :: rest.takeWhile isNameCharacter)) where
  nonempty := by simp
  characters d member := by
    rw [String.toList_ofList] at member
    rcases List.mem_cons.mp member with rfl | later
    · exact first
    · exact of_mem_takeWhile d later

private theorem isRead_of_mem_scan (text : List Char) : ∀ item, some item ∈ scan text → item.IsRead := by
  fun_induction scan text
  all_goals
    intro item member
    simp only [List.mem_cons, List.not_mem_nil, Option.some.injEq, reduceCtorEq, false_or] at member
  case case2 ih => exact ih item member
  case case3 ih =>
    rcases member with rfl | later
    · exact fun _ read => isRead_readVersions read
    · exact ih item later
  case case4 ih | case5 ih =>
    rcases member with rfl | later
    · exact isRead_readSwitch of_mem_takeWhile
    · exact ih item later
  case case6 ih | case7 ih =>
    rcases member with rfl | later
    · exact isRead_readCompiler of_mem_takeWhile
    · exact ih item later
  case case8 first _ _ _ ih =>
    rcases member with rfl | later
    · exact isRead_readValue (isWord_cons ‹_›) of_mem_takeWhile
    · exact ih item later
  case case9 ih =>
    rcases member with rfl | later
    · exact isWord_cons ‹_›
    · exact ih item later
  case case10 ih =>
    rcases member with rfl | later
    · trivial
    · exact ih item later

private theorem mem_of_mem_clauses {item : Item} {items : List (Option Item)} {clause : List Item}
    (chosen : clause = (clauses items).1 ∨ clause ∈ (clauses items).2) (member : item ∈ clause) :
    some item ∈ items := by
  induction items generalizing clause with
  | nil => simp_all [clauses]
  | cons first rest ih =>
    cases first with
    | none =>
      simp only [clauses, List.mem_cons] at chosen
      rcases chosen with rfl | chosen
      · cases member
      · exact List.mem_cons_of_mem none (ih chosen member)
    | some head =>
      simp only [clauses] at chosen
      rcases chosen with rfl | chosen
      · rcases List.mem_cons.mp member with rfl | later
        · exact List.mem_cons_self
        · exact List.mem_cons_of_mem _ (ih (.inl rfl) later)
      · exact List.mem_cons_of_mem _ (ih (.inr chosen) member)

theorem isRead_of_mem_clauses {text : List Char} {clause : List Item}
    (chosen : clause = (clauses (scan text)).1 ∨ clause ∈ (clauses (scan text)).2) : ∀ item ∈ clause, item.IsRead :=
  fun item member => isRead_of_mem_scan text item (mem_of_mem_clauses chosen member)

end Item

namespace Node.Draft

variable {draft after : Draft}

/-! What each kind of item adds to a draft that takes it in. -/

theorem addItem_versions_eq_ok {list : Except SpecFault VersionList} :
    draft.addItem (.versions list) = .ok after ↔
      draft.hasVersions = false ∧
        ∃ versions, list = .ok versions ∧ ⟨{ draft.node with versions }, true, false⟩ = after := by
  simp only [addItem]
  split
  next repeated => simp [repeated]
  next first =>
    rw [bind_eq_ok, Bool.eq_false_iff]
    exact ⟨fun ⟨versions, found, same⟩ => ⟨first, versions, found, Except.ok.inj same⟩,
      fun ⟨_, versions, found, same⟩ => ⟨versions, found, congrArg _ same⟩⟩

theorem addItem_variant_eq_ok {setting : Except SpecFault (String × VariantSetting)} :
    draft.addItem (.variant setting) = .ok after ↔
      ∃ name value, setting = .ok (name, value) ∧ draft.node.variants.contains name = false ∧
        ⟨{ draft.node with variants := draft.node.variants.insert name value }, draft.hasVersions, false⟩ = after := by
  simp only [addItem, bind_eq_ok, Prod.exists]
  refine exists_congr fun name => exists_congr fun value => and_congr_right fun _ => ?_
  split
  next repeated => simp [repeated]
  next first =>
    rw [Bool.eq_false_iff]
    exact ⟨fun same => ⟨first, Except.ok.inj same⟩, fun both => congrArg _ both.2⟩

theorem addItem_compiler_eq_ok {constraint : Except SpecFault CompilerSpec} :
    draft.addItem (.compiler constraint) = .ok after ↔
      draft.node.compiler = none ∧
        ∃ compiler, constraint = .ok compiler ∧
          ⟨{ draft.node with compiler := some compiler }, draft.hasVersions, false⟩ = after := by
  simp only [addItem]
  split
  next repeated =>
    have other : draft.node.compiler ≠ none := Option.isSome_iff_ne_none.mp repeated
    simp [other]
  next first =>
    rw [bind_eq_ok]
    have none : draft.node.compiler = none := by simpa using first
    exact ⟨fun ⟨compiler, found, same⟩ => ⟨none, compiler, found, Except.ok.inj same⟩,
      fun ⟨_, compiler, found, same⟩ => ⟨compiler, found, congrArg _ same⟩⟩

theorem addItem_word_eq_ok {name : String} :
    draft.addItem (.word name) = .ok after ↔
      draft.isFresh = true ∧ ⟨{ draft.node with name := some name }, draft.hasVersions, false⟩ = after := by
  simp only [addItem]
  split
  next fresh => simp [fresh]
  next used => simp [used]

end Node.Draft

/-- A property of nodes that each item keeps, and narrowing too. -/
structure Node.ReadInvariant (holds : Node → Prop) : Prop where
  unconstrained : holds .unconstrained
  versions : ∀ {node versions}, holds node → versions.IsRead → holds { node with versions }
  variant : ∀ {node name setting}, holds node → IsWord name → setting.IsRead →
    holds { node with variants := node.variants.insert name setting }
  compiler : ∀ {node compiler}, holds node → IsWord compiler.name → compiler.versions.IsRead →
    holds { node with compiler := some compiler }
  named : ∀ {node name}, holds node → IsWord name → holds { node with name := some name }
  narrow : ∀ {left right both}, holds left → holds right → left.narrow right = .ok both → holds both

namespace Node.ReadInvariant

variable {holds : Node → Prop} (invariant : ReadInvariant holds)
include invariant

theorem addItem {draft after : Draft} {item : Item} (before : holds draft.node) (read : item.IsRead)
    (run : draft.addItem item = .ok after) : holds after.node := by
  cases item with
  | versions list =>
    obtain ⟨_, versions, found, rfl⟩ := Draft.addItem_versions_eq_ok.mp run
    exact invariant.versions before (read versions found)
  | variant setting =>
    obtain ⟨name, value, found, _, rfl⟩ := Draft.addItem_variant_eq_ok.mp run
    obtain ⟨word, value⟩ := read name value found
    exact invariant.variant before word value
  | compiler constraint =>
    obtain ⟨_, compiler, found, rfl⟩ := Draft.addItem_compiler_eq_ok.mp run
    obtain ⟨word, versions⟩ := read compiler found
    exact invariant.compiler before word versions
  | word name =>
    obtain ⟨_, rfl⟩ := Draft.addItem_word_eq_ok.mp run
    exact invariant.named before read
  | stray => cases run

theorem ofItems {items : List Item} {node : Node} (read : ∀ item ∈ items, item.IsRead)
    (run : ofItems items = .ok node) : holds node := by
  rw [Node.ofItems, map_eq_ok] at run
  obtain ⟨draft, run, rfl⟩ := run
  refine foldlM_preserves (fun draft : Draft => holds draft.node) ?_ invariant.unconstrained run
  intro state item after member before run
  exact invariant.addItem before (read item member) run

end Node.ReadInvariant

namespace Spec

/-- All nodes of the expression have a property, and those of dependencies also have the
name that they are kept under. -/
structure Each (holds : Node → Prop) (spec : Spec) : Prop where
  node : holds spec.node
  dependencies : spec.dependencies.All fun name node => node.name = some name ∧ holds node

theorem Each.dependency {holds : Node → Prop} {spec : Spec} {name : String} {node : Node} (each : spec.Each holds)
    (found : spec.dependencies.find? name = some node) : node.name = some name ∧ holds node := by
  obtain ⟨other, same, both⟩ := each.dependencies.find? found
  rwa [← Std.LawfulEqOrd.eq_of_compare same] at both

section Reading

variable {holds : Node → Prop} (invariant : Node.ReadInvariant holds)
include invariant

private theorem all_narrowDependency {dependencies after : OrderedMap String Node} {name : String} {node : Node}
    (all : dependencies.All fun name node => node.name = some name ∧ holds node) (named : node.name = some name)
    (added : holds node) (run : narrowDependency dependencies name node = .ok after) :
    after.All fun name node => node.name = some name ∧ holds node := by
  have inserted : ∀ node : Node, node.name = some name → holds node →
      (dependencies.insert name node).All fun name node => node.name = some name ∧ holds node := by
    intro node named added
    refine all.upsert ⟨named, added⟩ fun other _ same _ => ⟨?_, added⟩
    rw [named, Std.LawfulEqOrd.eq_of_compare same]
  unfold narrowDependency at run
  split at run
  next existing present =>
    obtain ⟨narrowed, found, rfl⟩ := map_eq_ok.mp run
    obtain ⟨other, same, namedAlike, before⟩ := all.find? present
    rw [← Std.LawfulEqOrd.eq_of_compare same] at namedAlike
    exact inserted narrowed (Node.name_of_narrow namedAlike found) (invariant.narrow before added found)
  next =>
    cases run
    exact inserted node named added

theorem Each.addDependency {spec after : Spec} {name : String} {node : Node} (each : spec.Each holds)
    (named : node.name = some name) (added : holds node) (run : spec.addDependency name node = .ok after) :
    after.Each holds := by
  obtain ⟨dependencies, narrowed, rfl⟩ := addDependency_eq_ok_iff.mp run
  exact ⟨each.node, all_narrowDependency invariant each.dependencies named added narrowed⟩

theorem Each.narrow {left right both : Spec} (first : left.Each holds) (second : right.Each holds)
    (run : left.narrow right = .ok both) : both.Each holds := by
  obtain ⟨node, run⟩ := narrow_eq_ok_iff.mp run
  refine ⟨invariant.narrow first.node second.node node, ?_⟩
  refine foldlM_preserves (fun dependencies => dependencies.All fun name node => node.name = some name ∧ holds node)
    (fun dependencies entry after member all step => ?_) first.dependencies run
  obtain ⟨named, added⟩ := second.dependencies entry member
  exact all_narrowDependency invariant all named added step

/-- What every way of reading keeps holds of an expression that has been read. -/
theorem each_of_parse {expression : String} {spec : Spec} (read : parse expression = .ok spec) : spec.Each holds := by
  rw [parse, bind_eq_ok] at read
  obtain ⟨node, found, run⟩ := read
  have root := invariant.ofItems (Item.isRead_of_mem_clauses (.inl rfl)) (mapError_eq_ok.mp found)
  refine foldlM_preserves (Each holds) ?_ ⟨root, OrderedMap.all_empty _⟩ run
  intro state clause after member each run
  obtain ⟨dependency, found, run⟩ := bind_eq_ok.mp run
  have added := invariant.ofItems (Item.isRead_of_mem_clauses (.inr member)) (mapError_eq_ok.mp found)
  split at run
  next name named => exact each.addDependency invariant named added run
  next => cases run

end Reading

end Spec

/-- A property of version lists that reading and intersecting keep is one of all lists in
an expression. -/
theorem Node.readInvariant_of_lists {holds : VersionList → Prop}
    (read : ∀ {list : VersionList}, list.IsRead → holds list)
    (intersected : ∀ {left right both}, holds left → holds right → left.intersect right = some both → holds both) :
    ReadInvariant fun node => holds node.versions ∧ ∀ compiler, node.compiler = some compiler → holds compiler.versions where
  unconstrained := ⟨read (.inl rfl), nofun⟩
  versions before listed := ⟨read listed, before.2⟩
  variant before _ _ := before
  compiler before _ listed := ⟨before.1, fun _ same => by cases same; exact read listed⟩
  named before _ := before
  narrow {left right both} first second run := by
    obtain ⟨_, listed, _, compiled⟩ := narrow_eq_ok_iff.mp run
    refine ⟨intersected first.1 second.1 listed, fun compiler present => ?_⟩
    rcases narrowCompiler_cases compiled with same | same | ⟨one, other, narrowed, inLeft, inRight, run, same⟩
    · exact first.2 compiler (same ▸ present)
    · exact second.2 compiler (same ▸ present)
    · cases same.symm.trans present
      obtain ⟨_, _, versions⟩ := CompilerSpec.narrow_eq_ok_iff.mp run
      exact intersected (first.2 one inLeft) (second.2 other inRight) versions

end PackageRecipes
