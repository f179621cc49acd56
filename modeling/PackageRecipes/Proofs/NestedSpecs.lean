import PackageRecipes.Proofs.ObtainableSpecs

/-! Expressions without a bound on their depth. A constraint on a dependency may be an expression
of its own, with constraints on further dependencies, and anchoring and narrowing work their way
through all of them. What can be made in this way from texts and names never gets deeper than
one clause, so nothing is lost where the clauses are kept as nodes. -/

namespace PackageRecipes

theorem Spec.Obtainable.own {spec : Spec} (obtainable : spec.Obtainable) :
    spec.dependencies.All fun name node => node.name = some name :=
  fun entry member => ((obtainable.each Node.ownerInvariant_proper).dependencies entry member).1

theorem Spec.Obtainable.anonymous {expression owner : String} {spec : Spec}
    (run : Spec.anonymous expression owner = .ok spec) : spec.Obtainable := by
  unfold Spec.anonymous at run
  dsimp only at run
  split at run
  next =>
    cases run
    exact .named owner
  next =>
    obtain ⟨_, read, run⟩ := bind_eq_ok.mp run
    exact .anchored (.parsed read) run

/-- The constraints on a package and, under their names, expressions for packages it depends on. -/
inductive NestedSpec where
  | mk (node : Node) (dependencies : List (String × NestedSpec))

namespace NestedSpec

def node : NestedSpec → Node
  | mk node _ => node

def dependencies : NestedSpec → List (String × NestedSpec)
  | mk _ dependencies => dependencies

def leaf (node : Node) : NestedSpec :=
  mk node []

def named (name : String) : NestedSpec :=
  leaf { Node.unconstrained with name := some name }

def put (name : String) (dependency : NestedSpec) :
    List (String × NestedSpec) → List (String × NestedSpec) :=
  OrderedMap.upsertEntry name fun _ => dependency

mutual

def narrow (left : NestedSpec) : NestedSpec → Except Clash NestedSpec
  | mk node dependencies => do
    let node ← left.node.narrow node
    let dependencies ← narrowAll left.dependencies dependencies
    return mk node dependencies

def narrowAll (dependencies : List (String × NestedSpec)) :
    List (String × NestedSpec) → Except Clash (List (String × NestedSpec))
  | [] => .ok dependencies
  | (name, dependency) :: others =>
    match OrderedMap.lookup? name dependencies with
    | some existing => do
      let narrowed ← existing.narrow dependency
      narrowAll (put name narrowed dependencies) others
    | none => narrowAll (put name dependency dependencies) others

end

/-- What a constraint leaves: a clash leaves the expression as it was. -/
def constrained (left right : NestedSpec) : NestedSpec :=
  ((left.narrow right).toOption).getD left

/-- Adds an expression for a dependency under its own name, narrowing one already there. -/
def addDependency (spec dependency : NestedSpec) : Option NestedSpec := do
  let name ← dependency.node.name
  match OrderedMap.lookup? name spec.dependencies with
  | some existing =>
    let narrowed ← (existing.narrow dependency).toOption
    return mk spec.node (put name narrowed spec.dependencies)
  | none => return mk spec.node (put name dependency spec.dependencies)

/-- Anchors a condition on its owner. One on another package is hung below the owner, and so
are the expressions for its dependencies, with all that is below them. -/
def anchor (spec : NestedSpec) (owner : String) : Option NestedSpec :=
  match spec.node.name with
  | none => some (mk { spec.node with name := some owner } spec.dependencies)
  | some name =>
    if name == owner then some spec
    else do
      let anchored ← (named owner).addDependency (leaf spec.node)
      spec.dependencies.foldlM (fun anchored entry => anchored.addDependency entry.2) anchored

def addClause (spec : NestedSpec) (items : List Item) : Option NestedSpec := do
  let node ← (Node.ofItems items).toOption
  spec.addDependency (leaf node)

def parse (expression : String) : Option NestedSpec := do
  let (first, others) := Item.clauses (Item.scan expression.toList)
  let node ← (Node.ofItems first).toOption
  others.foldlM addClause (leaf node)

def anonymous (expression owner : String) : Option NestedSpec :=
  let trimmed := Text.trim expression
  if trimmed.isEmpty then some (named owner) else (parse trimmed).bind (·.anchor owner)

/-- The expressions that any sequence of operations makes, whether its constraints clash or not. -/
inductive Obtainable : NestedSpec → Prop where
  | parsed {expression : String} {spec : NestedSpec} (read : parse expression = some spec) : Obtainable spec
  | named (name : String) : Obtainable (named name)
  | anonymous {expression owner : String} {spec : NestedSpec} (read : anonymous expression owner = some spec) :
    Obtainable spec
  | anchored {spec anchored : NestedSpec} {owner : String} (obtained : Obtainable spec)
    (run : spec.anchor owner = some anchored) : Obtainable anchored
  | constrained {left right : NestedSpec} (first : Obtainable left) (second : Obtainable right) :
    Obtainable (left.constrained right)

section Flat

def leaves (entries : List (String × Node)) : List (String × NestedSpec) :=
  entries.map fun entry => (entry.1, leaf entry.2)

def ofSpec (spec : Spec) : NestedSpec :=
  mk spec.node (leaves spec.dependencies.entries)

private theorem leaves_cons (entry : String × Node) (rest : List (String × Node)) :
    leaves (entry :: rest) = (entry.1, leaf entry.2) :: leaves rest :=
  rfl

private theorem lookup?_leaves (name : String) (entries : List (String × Node)) :
    OrderedMap.lookup? name (leaves entries) = (OrderedMap.lookup? name entries).map leaf := by
  induction entries with
  | nil => rfl
  | cons entry rest ih =>
    rw [leaves_cons, OrderedMap.lookup?, OrderedMap.lookup?]
    split
    next => rfl
    next => exact ih

private theorem put_leaves (name : String) (node : Node) (dependencies : OrderedMap String Node) :
    put name (leaf node) (leaves dependencies.entries) = leaves (dependencies.insert name node).entries := by
  change OrderedMap.upsertEntry name (fun _ => leaf node) (leaves dependencies.entries) =
    leaves (OrderedMap.upsertEntry name (fun _ => node) dependencies.entries)
  induction dependencies.entries with
  | nil => rfl
  | cons entry rest ih =>
    rw [leaves_cons, OrderedMap.upsertEntry, OrderedMap.upsertEntry]
    split
    next => rfl
    next => rfl
    next => exact congrArg _ ih

private theorem narrow_leaf (left right : Node) : (leaf left).narrow (leaf right) = (left.narrow right).map leaf := by
  rw [leaf, leaf, narrow, node]
  cases left.narrow right <;> rfl

private theorem narrowAll_leaves (dependencies : OrderedMap String Node) (others : List (String × Node)) :
    narrowAll (leaves dependencies.entries) (leaves others) =
      (others.foldlM (fun dependencies (name, node) => Spec.narrowDependency dependencies name node) dependencies).map
        fun narrowed : OrderedMap String Node => leaves narrowed.entries := by
  induction others generalizing dependencies with
  | nil => rfl
  | cons entry rest ih =>
    obtain ⟨name, node⟩ := entry
    rw [leaves_cons, narrowAll, List.foldlM_cons, lookup?_leaves]
    dsimp only [Spec.narrowDependency, OrderedMap.find?]
    cases OrderedMap.lookup? name dependencies.entries with
    | none =>
      dsimp only [Option.map_none]
      rw [put_leaves, ih]
      rfl
    | some existing =>
      dsimp only [Option.map_some]
      rw [narrow_leaf]
      cases existing.narrow node with
      | error => rfl
      | ok narrowed =>
        -- a node narrowed by a node has nothing below it, so the entries stay leaves
        change narrowAll (put name (leaf narrowed) (leaves dependencies.entries)) _ = _
        rw [put_leaves, ih]
        rfl

theorem narrow_ofSpec (left right : Spec) : (ofSpec left).narrow (ofSpec right) = (left.narrow right).map ofSpec := by
  rw [ofSpec, ofSpec, narrow, Spec.narrow, node, dependencies, narrowAll_leaves]
  generalize left.node.narrow right.node = node
  generalize (right.dependencies.entries.foldlM _ left.dependencies : Except Clash _) = dependencies
  cases node <;> cases dependencies <;> rfl

theorem addDependency_ofSpec (spec : Spec) {name : String} {node : Node} (named : node.name = some name) :
    (ofSpec spec).addDependency (leaf node) = (spec.addDependency name node).toOption.map ofSpec := by
  change node.name >>= _ = _
  rw [named]
  dsimp only [Option.bind_eq_bind, Option.bind_some, ofSpec, dependencies]
  rw [lookup?_leaves, Spec.addDependency, OrderedMap.find?]
  cases OrderedMap.lookup? name spec.dependencies.entries with
  | none =>
    dsimp only [Option.map_none]
    rw [put_leaves]
    rfl
  | some existing =>
    dsimp only [Option.map_some]
    rw [narrow_leaf]
    cases existing.narrow node with
    | error => rfl
    | ok narrowed =>
      change some (mk _ (put name (leaf narrowed) (leaves spec.dependencies.entries))) = _
      rw [put_leaves]
      rfl

private theorem foldlM_ofSpec {ι : Type} {nested : NestedSpec → ι → Option NestedSpec}
    {step : Spec → ι → Except Error Spec}
    {items : List ι} (agree : ∀ item ∈ items, ∀ spec, nested (ofSpec spec) item = (step spec item).toOption.map ofSpec)
    (spec : Spec) : items.foldlM nested (ofSpec spec) = (items.foldlM step spec).toOption.map ofSpec := by
  induction items generalizing spec with
  | nil => rfl
  | cons item rest ih =>
    rw [List.foldlM_cons, List.foldlM_cons, agree item List.mem_cons_self]
    cases step spec item with
    | error => rfl
    | ok after => exact ih (fun other member => agree other (List.mem_cons_of_mem _ member)) after

private theorem addClause_ofSpec (expression : String) (spec : Spec) (items : List Item) :
    (ofSpec spec).addClause items = (spec.addClause expression items).toOption.map ofSpec := by
  unfold addClause Spec.addClause
  cases Node.ofItems items with
  | error => rfl
  | ok node =>
    dsimp only [Except.mapError, Except.toOption, bind, Except.bind, Option.bind]
    cases named : node.name with
    | none =>
      change node.name >>= _ = _
      rw [named]
      rfl
    | some name => exact addDependency_ofSpec spec named

theorem parse_eq (expression : String) : parse expression = (Spec.parse expression).toOption.map ofSpec := by
  unfold parse Spec.parse
  obtain ⟨first, others⟩ := Item.clauses (Item.scan expression.toList)
  dsimp only
  cases Node.ofItems first with
  | error => rfl
  | ok node => exact foldlM_ofSpec (fun items _ spec => addClause_ofSpec expression spec items) (.ofNode node)

/-- The clauses of an expression go by the names of their nodes, so it makes no difference
that the tree looks at these. -/
theorem anchor_ofSpec {spec : Spec} (own : spec.dependencies.All fun name node => node.name = some name)
    (owner : String) : (ofSpec spec).anchor owner = (spec.anchor owner).toOption.map ofSpec := by
  unfold anchor Spec.anchor
  change (match spec.node.name with
    | none => _
    | some name => _) = _
  cases named : spec.node.name with
  | none => rfl
  | some name =>
    dsimp only
    split
    next => rfl
    next =>
      have rehung (anchored : Spec) :
          spec.dependencies.entries.foldlM (fun tree entry => addDependency tree (leaf entry.2)) (ofSpec anchored) =
            (spec.dependencies.entries.foldlM (fun anchored (name, node) => Spec.addDependency anchored name node)
              anchored).toOption.map ofSpec :=
        foldlM_ofSpec (fun entry member anchored => addDependency_ofSpec anchored (own entry member)) anchored
      change (ofSpec (.named owner)).addDependency (leaf spec.node) >>= _ = _
      rw [addDependency_ofSpec _ named]
      cases (Spec.named owner).addDependency name spec.node with
      | error => rfl
      | ok anchored =>
        change (leaves spec.dependencies.entries).foldlM _ (ofSpec anchored) = _
        rw [leaves, List.foldlM_map]
        exact rehung anchored

theorem anonymous_eq (expression owner : String) :
    anonymous expression owner = (Spec.anonymous expression owner).toOption.map ofSpec := by
  unfold anonymous Spec.anonymous
  dsimp only
  split
  next => rfl
  next =>
    rw [parse_eq]
    cases read : Spec.parse (Text.trim expression) with
    | error => rfl
    | ok spec => exact anchor_ofSpec (Spec.Obtainable.parsed read).own owner

theorem constrained_ofSpec (left right : Spec) :
    (ofSpec left).constrained (ofSpec right) = ofSpec ((left.constrain right).toOption.getD left) := by
  rw [constrained, narrow_ofSpec, Spec.constrain]
  cases left.narrow right <;> rfl

/-- The trees that can be made are those of the expressions that can be made. -/
theorem obtainable_iff {spec : NestedSpec} : spec.Obtainable ↔ ∃ flat : Spec, flat.Obtainable ∧ ofSpec flat = spec := by
  constructor
  · intro obtainable
    induction obtainable with
    | parsed read =>
      rw [parse_eq, Option.map_eq_some_iff] at read
      obtain ⟨flat, read, same⟩ := read
      exact ⟨flat, .parsed (toOption_eq_some.mp read), same⟩
    | named name => exact ⟨.named name, .named name, rfl⟩
    | anonymous read =>
      rw [anonymous_eq, Option.map_eq_some_iff] at read
      obtain ⟨flat, read, same⟩ := read
      exact ⟨flat, .anonymous (toOption_eq_some.mp read), same⟩
    | anchored _ run ih =>
      -- only what was made keeps its clauses under their own names, which re-hanging them goes by
      obtain ⟨flat, obtained, rfl⟩ := ih
      rw [anchor_ofSpec obtained.own, Option.map_eq_some_iff] at run
      obtain ⟨anchored, run, same⟩ := run
      exact ⟨anchored, .anchored obtained (toOption_eq_some.mp run), same⟩
    | constrained _ _ first second =>
      obtain ⟨left, leftObtained, rfl⟩ := first
      obtain ⟨right, rightObtained, rfl⟩ := second
      refine ⟨(left.constrain right).toOption.getD left, ?_, (constrained_ofSpec left right).symm⟩
      cases run : left.constrain right with
      | error => exact leftObtained
      | ok both => exact .constrained leftObtained rightObtained run
  · rintro ⟨flat, obtainable, rfl⟩
    induction obtainable with
    | parsed read => exact .parsed (by rw [parse_eq, read]; rfl)
    | named name => exact .named name
    | anchored obtained run ih => exact .anchored ih (by rw [anchor_ofSpec obtained.own, run]; rfl)
    | @constrained left right both _ _ run first second =>
      have made := Obtainable.constrained first second
      rwa [constrained_ofSpec, run] at made

end Flat

end NestedSpec

end PackageRecipes
