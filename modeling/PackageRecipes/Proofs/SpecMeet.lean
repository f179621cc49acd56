import PackageRecipes.Proofs.VersionUnions
import PackageRecipes.Spec.Narrowing

/-! The meets of nodes and of whole expressions, put together from those of their
names, version lists, variant settings, compilers and dependencies. -/

namespace PackageRecipes

namespace CompilerSpec

def Proper (compiler : CompilerSpec) : Prop :=
  compiler.versions.Proper

theorem narrow_eq_ok_iff {left right both : CompilerSpec} :
    left.narrow right = .ok both ↔
      left.name = right.name ∧ both.name = left.name ∧ left.versions.intersect right.versions = some both.versions := by
  unfold narrow
  by_cases same : left.name = right.name
  · cases found : left.versions.intersect right.versions with
    | none => simp [same]
    | some versions =>
      obtain ⟨name, list⟩ := both
      simp [same, eq_comm]
  · simp [same]

theorem satisfies_iff {left right : CompilerSpec} :
    left.satisfies right = true ↔ left.name = right.name ∧ left.versions.within right.versions = true := by
  rw [satisfies, Bool.and_eq_true, beq_iff_eq]

theorem compilerMeet : PartialMeet satisfies Proper fun left right => (left.narrow right).toOption where
  refl compiler := satisfies_iff.mpr ⟨rfl, VersionList.listMeet.refl _⟩
  trans early late := by
    rw [satisfies_iff] at early late ⊢
    exact ⟨early.1.trans late.1, VersionList.listMeet.trans early.2 late.2⟩
  below {left right both} narrowed := by
    obtain ⟨same, named, versions⟩ := narrow_eq_ok_iff.mp (toOption_eq_some.mp narrowed)
    have inside := VersionList.listMeet.below versions
    exact ⟨satisfies_iff.mpr ⟨named, inside.1⟩, satisfies_iff.mpr ⟨named.trans same, inside.2⟩⟩
  greatest {value left right} proper first second := by
    rw [satisfies_iff] at first second
    obtain ⟨versions, found, least⟩ := VersionList.listMeet.greatest proper first.2 second.2
    have same := first.1.symm.trans second.1
    exact ⟨⟨left.name, versions⟩, toOption_eq_some.mpr (narrow_eq_ok_iff.mpr ⟨same, rfl, found⟩),
      satisfies_iff.mpr ⟨first.1, least⟩⟩

end CompilerSpec

namespace Node

/-- The version lists of a node and of its compiler admit some version. -/
structure Proper (node : Node) : Prop where
  versions : node.versions.Proper
  compiler : ∀ compiler, node.compiler = some compiler → compiler.Proper

theorem narrowName_eq_ok_iff {left right both : Option String} :
    narrowName left right = .ok both ↔
      narrowOptional (fun left right => if left == right then some left else none) left right = some both := by
  cases left with
  | none => simp [narrowName, narrowOptional]
  | some first =>
    cases right with
    | none => simp [narrowName, narrowOptional]
    | some second => by_cases same : first = second <;> simp [narrowName, narrowOptional, same]

theorem narrowCompiler_eq_ok_iff {left right both : Option CompilerSpec} :
    narrowCompiler left right = .ok both ↔
      narrowOptional (fun left right => (left.narrow right).toOption) left right = some both := by
  cases left with
  | none => simp [narrowCompiler, narrowOptional]
  | some first =>
    cases right with
    | none => simp [narrowCompiler, narrowOptional]
    | some second =>
      simp only [narrowCompiler, narrowOptional, map_eq_ok, Option.map_eq_some_iff, toOption_eq_some]

/-- A compiler comes from one of the sides, or both of them constrain it. -/
theorem narrowCompiler_cases {left right both : Option CompilerSpec} (run : narrowCompiler left right = .ok both) :
    both = left ∨ both = right ∨ ∃ one other narrowed, left = some one ∧ right = some other ∧
      one.narrow other = .ok narrowed ∧ both = some narrowed := by
  unfold narrowCompiler at run
  split at run
  next one other =>
    obtain ⟨narrowed, both, rfl⟩ := map_eq_ok.mp run
    exact .inr (.inr ⟨one, other, narrowed, rfl, rfl, both, rfl⟩)
  next =>
    cases run
    exact .inl rfl
  next =>
    cases run
    exact .inr (.inl rfl)

theorem narrowVariant_narrows :
    NarrowsEntry (fun left right => if left == right then some left else none)
      fun variants (entry : String × VariantSetting) => narrowVariant variants entry.1 entry.2 := by
  intro variants entry
  simp only [narrowVariant]
  cases found : variants.find? entry.1 with
  | none => rfl
  | some existing =>
    by_cases same : existing = entry.2
    · have kept := variants.insert_of_find? found
      simp [← same, kept, Except.toOption]
    · simp [same, Except.toOption]

theorem narrow_eq_ok_iff {left right both : Node} :
    left.narrow right = .ok both ↔
      narrowName left.name right.name = .ok both.name ∧
        left.versions.intersect right.versions = some both.versions ∧
        right.variants.entries.foldlM (fun variants (name, setting) => narrowVariant variants name setting)
          left.variants = .ok both.variants ∧
        narrowCompiler left.compiler right.compiler = .ok both.compiler := by
  obtain ⟨name, versions, variants, compiler⟩ := both
  unfold narrow
  cases listed : left.versions.intersect right.versions with
  | none => simp [bind_eq_ok]
  | some overlap =>
    simp only [bind_eq_ok]
    constructor
    · rintro ⟨_, named, _, same, _, set, _, compiled, result⟩
      cases same
      cases result
      exact ⟨named, rfl, set, compiled⟩
    · rintro ⟨named, same, set, compiled⟩
      cases same
      exact ⟨name, named, versions, rfl, variants, set, compiler, compiled, rfl⟩

/-- Narrowing keeps the name of a node that has one. -/
theorem name_of_narrow {left right both : Node} {name : String} (named : left.name = some name)
    (run : left.narrow right = .ok both) : both.name = some name := by
  obtain ⟨same, _⟩ := narrow_eq_ok_iff.mp run
  rw [named] at same
  cases found : right.name with
  | none =>
    rw [found] at same
    exact (Except.ok.inj same).symm
  | some other =>
    rw [found, narrowName] at same
    split at same
    next => cases same
    next => exact (Except.ok.inj same).symm

theorem satisfies_iff {left right : Node} :
    left.satisfies right = true ↔
      meetsOptional (· == ·) left.name right.name = true ∧
        meetsOptional CompilerSpec.satisfies left.compiler right.compiler = true ∧
        left.versions.within right.versions = true ∧
        meetsEntries (· == ·) left.variants right.variants = true := by
  have setting : ∀ entry : String × VariantSetting,
      (left.variants.find? entry.1 == some entry.2) =
        meetsOptional (· == ·) (left.variants.find? entry.1) (some entry.2) := by
    intro entry
    cases left.variants.find? entry.1 <;> rfl
  simp only [satisfies, meetsEntries, setting, Bool.and_eq_true, and_assoc]

theorem nodeMeet : PartialMeet satisfies Proper fun left right => (left.narrow right).toOption := by
  have nameMeet := (PartialMeet.equality (α := String) fun _ => True).optional
  have variantsMeet := (PartialMeet.equality fun _ => True).entries narrowVariant_narrows
  have compilerMeet := CompilerSpec.compilerMeet.optional
  constructor
  case refl =>
    exact fun node => satisfies_iff.mpr
      ⟨nameMeet.refl _, compilerMeet.refl _, VersionList.listMeet.refl _, variantsMeet.refl _⟩
  case trans =>
    intro first second third early late
    rw [satisfies_iff] at early late ⊢
    obtain ⟨name, compiler, versions, variants⟩ := early
    exact ⟨nameMeet.trans name late.1, compilerMeet.trans compiler late.2.1,
      VersionList.listMeet.trans versions late.2.2.1, variantsMeet.trans variants late.2.2.2⟩
  case below =>
    intro left right both narrowed
    obtain ⟨named, listed, set, compiled⟩ := narrow_eq_ok_iff.mp (toOption_eq_some.mp narrowed)
    have name := nameMeet.below (narrowName_eq_ok_iff.mp named)
    have versions := VersionList.listMeet.below listed
    have variants := variantsMeet.below (toOption_eq_some.mpr set)
    have compiler := compilerMeet.below (narrowCompiler_eq_ok_iff.mp compiled)
    exact ⟨satisfies_iff.mpr ⟨name.1, compiler.1, versions.1, variants.1⟩,
      satisfies_iff.mpr ⟨name.2, compiler.2, versions.2, variants.2⟩⟩
  case greatest =>
    intro value left right proper first second
    rw [satisfies_iff] at first second
    obtain ⟨name, named, leastName⟩ := nameMeet.greatest (fun _ _ => trivial) first.1 second.1
    obtain ⟨compiler, compiled, leastCompiler⟩ := compilerMeet.greatest proper.compiler first.2.1 second.2.1
    obtain ⟨versions, listed, leastVersions⟩ := VersionList.listMeet.greatest proper.versions first.2.2.1 second.2.2.1
    obtain ⟨variants, set, leastVariants⟩ := variantsMeet.greatest (fun _ _ _ => trivial) first.2.2.2 second.2.2.2
    refine ⟨⟨name, versions, variants, compiler⟩, toOption_eq_some.mpr (narrow_eq_ok_iff.mpr ?_), satisfies_iff.mpr ?_⟩
    · exact ⟨narrowName_eq_ok_iff.mpr named, listed, toOption_eq_some.mp set, narrowCompiler_eq_ok_iff.mpr compiled⟩
    · exact ⟨leastName, leastCompiler, leastVersions, leastVariants⟩

end Node

namespace Spec

structure Proper (spec : Spec) : Prop where
  node : spec.node.Proper
  dependencies : ∀ name node, spec.dependencies.find? name = some node → node.Proper

theorem narrowDependency_narrows :
    NarrowsEntry (fun left right => (Node.narrow left right).toOption)
      fun dependencies (entry : String × Node) => narrowDependency dependencies entry.1 entry.2 := by
  intro dependencies entry
  simp only [narrowDependency]
  cases found : dependencies.find? entry.1 with
  | none => rfl
  | some existing => cases narrowed : existing.narrow entry.2 <;> simp [narrowed, Except.map, Except.toOption]

theorem addDependency_eq_ok_iff {spec after : Spec} {name : String} {node : Node} :
    spec.addDependency name node = .ok after ↔
      ∃ dependencies, narrowDependency spec.dependencies name node = .ok dependencies ∧
        { spec with dependencies } = after := by
  unfold addDependency narrowDependency
  cases spec.dependencies.find? name with
  | none => simp
  | some existing => cases narrowed : existing.narrow node <;> simp [narrowed, Except.map]

theorem narrow_eq_ok_iff {left right both : Spec} :
    left.narrow right = .ok both ↔
      left.node.narrow right.node = .ok both.node ∧
        right.dependencies.entries.foldlM
          (fun dependencies (name, dependency) => narrowDependency dependencies name dependency)
          left.dependencies = .ok both.dependencies := by
  obtain ⟨node, dependencies⟩ := both
  simp only [narrow, bind_eq_ok]
  constructor
  · rintro ⟨found, narrowed, merged, run, same⟩
    cases same
    exact ⟨narrowed, run⟩
  · rintro ⟨narrowed, run⟩
    exact ⟨node, narrowed, dependencies, run, rfl⟩

theorem satisfies_iff {left right : Spec} :
    left.satisfies right = true ↔
      left.node.satisfies right.node = true ∧
        meetsEntries Node.satisfies left.dependencies right.dependencies = true := by
  have dependency : ∀ entry : String × Node,
      (left.dependencies.find? entry.1).any (·.satisfies entry.2) =
        meetsOptional Node.satisfies (left.dependencies.find? entry.1) (some entry.2) := by
    intro entry
    cases left.dependencies.find? entry.1 <;> rfl
  simp only [satisfies, meetsEntries, dependency, Bool.and_eq_true]

/-- Narrowing an expression finds the weakest one that satisfies both sides. -/
theorem specMeet : PartialMeet satisfies Proper fun left right => (left.narrow right).toOption := by
  have dependenciesMeet := Node.nodeMeet.entries narrowDependency_narrows
  constructor
  case refl => exact fun spec => satisfies_iff.mpr ⟨Node.nodeMeet.refl _, dependenciesMeet.refl _⟩
  case trans =>
    intro first second third early late
    rw [satisfies_iff] at early late ⊢
    exact ⟨Node.nodeMeet.trans early.1 late.1, dependenciesMeet.trans early.2 late.2⟩
  case below =>
    intro left right both narrowed
    obtain ⟨node, run⟩ := narrow_eq_ok_iff.mp (toOption_eq_some.mp narrowed)
    have inside := Node.nodeMeet.below (toOption_eq_some.mpr node)
    have keywise := dependenciesMeet.below (toOption_eq_some.mpr run)
    exact ⟨satisfies_iff.mpr ⟨inside.1, keywise.1⟩, satisfies_iff.mpr ⟨inside.2, keywise.2⟩⟩
  case greatest =>
    intro value left right proper first second
    rw [satisfies_iff] at first second
    obtain ⟨node, narrowed, leastNode⟩ := Node.nodeMeet.greatest proper.node first.1 second.1
    obtain ⟨dependencies, run, least⟩ := dependenciesMeet.greatest proper.dependencies first.2 second.2
    refine ⟨⟨node, dependencies⟩, toOption_eq_some.mpr (narrow_eq_ok_iff.mpr ?_), satisfies_iff.mpr ⟨leastNode, least⟩⟩
    exact ⟨toOption_eq_some.mp narrowed, toOption_eq_some.mp run⟩

end Spec

end PackageRecipes
