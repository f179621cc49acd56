import PackageRecipes.Error
import PackageRecipes.OrderedMap

/-! The inheritance graph of layers: which bases each layer has, the order in which
layers can be finished, and the cycles that make this impossible. -/

namespace PackageRecipes

/-- The bases and the heirs of every layer that is mentioned. -/
structure LayerGraph where
  bases : OrderedMap String (OrderedSet String)
  heirs : OrderedMap String (OrderedSet String)

/-- How many of the names have not been seen; the walks below end because it falls. -/
def unseenCount (names seen : List String) : Nat :=
  (names.filter fun name => !seen.contains name).length

theorem unseenCount_le {names before after : List String}
    (kept : ∀ name, name ∈ before → name ∈ after) :
    unseenCount names after ≤ unseenCount names before := by
  unfold unseenCount
  induction names with
  | nil => simp
  | cons name rest ih =>
    by_cases old : name ∈ before
    · simp [old, kept name old] at ih ⊢
      exact ih
    · by_cases new : name ∈ after
      · simp [old, new] at ih ⊢
        omega
      · simp [old, new] at ih ⊢
        exact ih

theorem unseenCount_lt {names before after : List String} {name : String}
    (kept : ∀ name, name ∈ before → name ∈ after)
    (known : name ∈ names) (new : name ∉ before) (seen : name ∈ after) :
    unseenCount names after < unseenCount names before := by
  induction names with
  | nil => simp at known
  | cons first rest ih =>
    have fewer := @unseenCount_le rest before after kept
    unfold unseenCount at ih fewer ⊢
    by_cases same : first = name
    · subst same
      simp [new, seen] at fewer ⊢
      omega
    · have inRest : name ∈ rest := by
        rcases List.mem_cons.mp known with here | there
        · exact absurd here.symm same
        · exact there
      have less := ih inRest
      by_cases old : first ∈ before
      · simp [old, kept first old] at less ⊢
        exact less
      · by_cases later : first ∈ after
        · simp [old, later] at less ⊢
          omega
        · simp [old, later] at less ⊢
          exact less

namespace LayerGraph

def empty : LayerGraph := ⟨.empty, .empty⟩

/-- The layer is mentioned, with whatever neighbours it has by now. -/
def mention (neighbours : OrderedMap String (OrderedSet String)) (name : String) :
    OrderedMap String (OrderedSet String) :=
  neighbours.upsert name fun existing => existing.getD .empty

def link (neighbours : OrderedMap String (OrderedSet String)) (source target : String) :
    OrderedMap String (OrderedSet String) :=
  neighbours.upsert source fun existing => OrderedSet.add (existing.getD .empty) target

def addBase (graph : LayerGraph) (name base : String) : LayerGraph :=
  ⟨mention (link graph.bases name base) base, link graph.heirs base name⟩

/-- Adds a layer with its bases; a layer already there gets more of them. -/
def add (graph : LayerGraph) (name : String) (bases : List String) : LayerGraph :=
  bases.foldl (fun graph base => graph.addBase name base)
    ⟨mention graph.bases name, mention graph.heirs name⟩

def layers (graph : LayerGraph) : List String :=
  graph.bases.keys

def size (graph : LayerGraph) : Nat :=
  graph.bases.size

def contains (graph : LayerGraph) (name : String) : Bool :=
  graph.bases.contains name

def bases? (graph : LayerGraph) (name : String) : Option (List String) :=
  (graph.bases.find? name).map (·.toList)

def heirs? (graph : LayerGraph) (name : String) : Option (List String) :=
  (graph.heirs.find? name).map (·.toList)

def basesOf (graph : LayerGraph) (name : String) : List String :=
  (graph.bases? name).getD []

/-- The waiting layers once `layer` is finished and no base to wait for any more. -/
def withoutBase (layer : String) (waiting : List (String × List String)) :
    List (String × List String) :=
  waiting.map fun (name, bases) => (name, bases.filter (· != layer))

def freed (layer : String) (waiting : List (String × List String)) : List String :=
  ((withoutBase layer waiting).filter fun entry => entry.2.isEmpty).map (·.1)

def blocked (layer : String) (waiting : List (String × List String)) :
    List (String × List String) :=
  (withoutBase layer waiting).filter fun entry => !entry.2.isEmpty

theorem length_freed_add_length_blocked (layer : String) (waiting : List (String × List String)) :
    (freed layer waiting).length + (blocked layer waiting).length = waiting.length := by
  have whole : (withoutBase layer waiting).length = waiting.length := by simp [withoutBase]
  rw [← whole]
  simp only [freed, blocked, List.length_map]
  induction withoutBase layer waiting with
  | nil => rfl
  | cons entry rest ih =>
    cases free : entry.2.isEmpty <;> simp [free] at ih ⊢ <;> omega

/-- Finishes the layers of a queue one by one. A waiting layer whose last base is
thereby finished joins the queue; layers that become free together join it in
the order of their names. -/
def finishAll (queue : List String) (waiting : List (String × List String)) : List String :=
  match queue with
  | [] => []
  | layer :: rest => layer :: finishAll (rest ++ freed layer waiting) (blocked layer waiting)
termination_by queue.length + waiting.length
decreasing_by
  have parts := length_freed_add_length_blocked layer waiting
  simp only [List.length_append, List.length_cons]
  omega

/-- The layers in an order in which bases come first, as far as there is one. -/
def finishOrder (graph : LayerGraph) : List String :=
  let pending := graph.bases.entries.map fun (name, bases) => (name, bases.toList)
  finishAll ((pending.filter fun entry => entry.2.isEmpty).map (·.1))
    (pending.filter fun entry => !entry.2.isEmpty)

/-- A layer that is not mentioned has no bases. -/
theorem basesOf_eq_nil {graph : LayerGraph} {name : String} (unknown : name ∉ graph.layers) :
    graph.basesOf name = [] := by
  have missing : graph.bases.find? name = none := by
    apply OrderedMap.lookup?_eq_none
    intro entry member same
    exact unknown (List.mem_map.mpr ⟨entry, member, (Std.LawfulEqOrd.eq_of_compare same).symm⟩)
  simp [basesOf, bases?, missing]

def walkLayers (walk : List (String × List String)) : List String :=
  walk.map (·.1)

/-- The number of bases that have still to be followed from the layers on a walk. -/
def openBases : List (String × List String) → Nat
  | [] => 0
  | (_, bases) :: below => bases.length + openBases below

/-- Follows bases in depth from the last layer of a walk. The layers in `done` lead to
no cycle. Gives the first cycle, from a layer back to itself, and all layers
then done. -/
def followBases (graph : LayerGraph) (done : List String) (walk : List (String × List String)) :
    List String × Option (List String) :=
  match walk with
  | [] => (done, none)
  | (layer, []) :: below => followBases graph (layer :: done) below
  | (layer, base :: rest) :: below =>
    let path := layer :: walkLayers below
    if path.contains base then
      (done, some (base :: (path.takeWhile (· != base)).reverse ++ [base]))
    else if done.contains base then followBases graph done ((layer, rest) :: below)
    else followBases graph done ((base, graph.basesOf base) :: (layer, rest) :: below)
termination_by (unseenCount graph.layers (done ++ walkLayers walk), openBases walk, walk.length)
decreasing_by
  · apply Prod.Lex.right'
    · exact unseenCount_le fun name => by simp [walkLayers]; grind
    · exact Prod.Lex.right' _ (by simp [openBases]) (by simp)
  · apply Prod.Lex.right'
    · exact Nat.le_of_eq (by simp [walkLayers])
    · exact Prod.Lex.left _ _ (by simp [openBases])
  · next notOnPath notDone =>
    by_cases known : base ∈ graph.layers
    · apply Prod.Lex.left
      refine @unseenCount_lt _ _ _ base ?_ known ?_ ?_
      · intro name
        simp [walkLayers]
        grind
      · have offPath : base ∉ layer :: walkLayers below := by simpa [path] using notOnPath
        simp [walkLayers] at offPath notDone ⊢
        grind
      · simp [walkLayers]
    · apply Prod.Lex.right'
      · exact unseenCount_le fun name => by simp [walkLayers]; grind
      · exact Prod.Lex.left _ _ (by simp [openBases, basesOf_eq_nil known])

def firstCycle (graph : LayerGraph) (done : List String) : List String → Option (List String)
  | [] => none
  | layer :: rest =>
    if done.contains layer then firstCycle graph done rest
    else match followBases graph done [(layer, graph.basesOf layer)] with
      | (_, some cycle) => some cycle
      | (done, none) => firstCycle graph done rest

/-- A layer that inherits from itself, with the layers on the way back to it. -/
def cycle? (graph : LayerGraph) : Option (List String) :=
  firstCycle graph [] graph.layers

/-- All layers, each behind its bases. Fails with a cycle if there is one. -/
def sorted (graph : LayerGraph) : Except Error (List String) :=
  let order := graph.finishOrder
  if order.length = graph.size then .ok order
  else .error (.inheritance (.cycle (graph.cycle?.getD [])))

/-- Adds to the layers reached all that can be reached from a queue. -/
def reach (graph : LayerGraph) (reached queue : List String) : List String :=
  match queue with
  | [] => reached
  | layer :: rest =>
    if reached.contains layer then reach graph reached rest
    else reach graph (layer :: reached) (rest ++ graph.basesOf layer)
termination_by (unseenCount graph.layers reached, queue.length)
decreasing_by
  · exact Prod.Lex.right' _ (Nat.le_refl _) (by simp)
  · next new =>
    by_cases known : layer ∈ graph.layers
    · exact Prod.Lex.left _ _ (unseenCount_lt (fun name => List.mem_cons_of_mem layer) known
        (by simpa using new) List.mem_cons_self)
    · refine Prod.Lex.right' _ (unseenCount_le fun name => List.mem_cons_of_mem layer) ?_
      simp [basesOf_eq_nil known]

/-- The layers that one inherits from, directly or through others. -/
def ancestors (graph : LayerGraph) (name : String) : OrderedSet String :=
  OrderedSet.ofList (reach graph [] (graph.basesOf name))

end LayerGraph

end PackageRecipes
