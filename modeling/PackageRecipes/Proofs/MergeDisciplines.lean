import PackageRecipes.Error
import PackageRecipes.Proofs.OrderedMapLookup
import PackageRecipes.Proofs.Outcome

/-! Two ways in which items fill a map: the last item under a key holds, or the values
of all items under a key are gathered in order. What a map then holds is said by
lookup alone, without the order of its entries. -/

namespace PackageRecipes

variable {ι κ α : Type} [Ord κ]

/-- The map holds, under each key, the value of the last item with that key. -/
def Overwritten (key : ι → κ) (value : ι → α) (items : List ι) (map : OrderedMap κ α) : Prop :=
  ∀ sought, map.find? sought = (items.findRev? fun item => compare sought (key item) == .eq).map value

/-- The values gathered under a key; a key without any is not in the map. -/
def listed (values : List α) : Option (List α) :=
  if values.isEmpty then none else some values

def isUnder (key : ι → Except Error κ) (sought : κ) (item : ι) : Bool :=
  (key item).toOption.any (compare sought · == .eq)

/-- The map holds, under each key, what `gather` makes of the values of all items with
that key, and each of these items has a value. -/
def Gathered (gather : List α → List α) (key : ι → Except Error κ) (value : ι → Except Error α)
    (items : List ι) (map : OrderedMap κ (List α)) : Prop :=
  ∀ sought, ∃ values, (items.filter (isUnder key sought)).mapM value = .ok values ∧
    map.find? sought = listed (gather values)

abbrev Appended (key : ι → Except Error κ) (value : ι → Except Error α) (items : List ι)
    (map : OrderedMap κ (List α)) : Prop :=
  Gathered id key value items map

private theorem listed_of_ne_nil {values : List α} (nonempty : values ≠ []) : listed values = some values := by
  simp [listed, nonempty]

@[simp] theorem getD_listed (values : List α) : (listed values).getD [] = values := by
  cases values <;> rfl

theorem isUnder_of_key (key : ι → Except Error κ) {item : ι} {found : κ} (keyed : key item = .ok found)
    (sought : κ) : isUnder key sought item = (compare sought found == .eq) := by
  simp [isUnder, keyed, Except.toOption]

theorem Overwritten.empty (key : ι → κ) (value : ι → α) : Overwritten key value [] .empty :=
  fun _ => rfl

theorem Gathered.empty {gather : List α → List α} (none : gather [] = []) (key : ι → Except Error κ)
    (value : ι → Except Error α) : Gathered gather key value [] .empty := by
  intro sought
  refine ⟨[], rfl, ?_⟩
  rw [none]
  rfl

variable [Std.TransOrd κ]

theorem Overwritten.insert {key : ι → κ} {value : ι → α} {items : List ι} {map : OrderedMap κ α}
    (overwritten : Overwritten key value items map) (item : ι) :
    Overwritten key value (items ++ [item]) (map.insert (key item) (value item)) := by
  intro sought
  rw [map.find?_insert, List.findRev?_eq_find?_reverse, List.reverse_concat, List.find?_cons]
  split
  next same => simp [same]
  next apart =>
    have other : (compare sought (key item) == .eq) = false := by simpa using apart
    rw [overwritten sought, List.findRev?_eq_find?_reverse, other]

/-- Adding one value under its key, where `update` does to the gathered values what
`gather` does with one value more. -/
theorem Gathered.upsert {gather : List α → List α} {key : ι → Except Error κ} {value : ι → Except Error α}
    {items : List ι} {map : OrderedMap κ (List α)} (gathered : Gathered gather key value items map)
    (item : ι) {found : κ} {added : α} (keyed : key item = .ok found) (valued : value item = .ok added)
    {update : Option (List α) → List α}
    (gathers : ∀ values, update (listed (gather values)) = gather (values ++ [added]))
    (nonempty : ∀ values, gather (values ++ [added]) ≠ []) :
    Gathered gather key value (items ++ [item]) (map.upsert found update) := by
  intro sought
  rw [map.find?_upsert, List.filter_append, List.filter_cons, isUnder_of_key key keyed, List.filter_nil]
  obtain ⟨values, run, held⟩ := gathered sought
  by_cases same : compare sought found = .eq
  · refine ⟨values ++ [added], ?_, ?_⟩
    · simp [same, run, valued]
      rfl
    · rw [if_pos same, ← map.find?_congr same, held, gathers, listed_of_ne_nil (nonempty values)]
  · exact ⟨values, by simp [same, run], by rw [if_neg same, held]⟩

theorem Appended.push {key : ι → Except Error κ} {value : ι → Except Error α} {items : List ι}
    {map : OrderedMap κ (List α)} (appended : Appended key value items map) (item : ι) {found : κ} {added : α}
    (keyed : key item = .ok found) (valued : value item = .ok added) :
    Appended key value (items ++ [item]) (map.push found added) := by
  apply Gathered.upsert appended item keyed valued
  case gathers =>
    intro values
    simp
  case nonempty =>
    intro values
    simp

/-- The entries of one map written over those of another. -/
theorem find?_insertEntries {map : OrderedMap κ α} {entries : List (κ × α)}
    (sorted : entries.Pairwise fun first second => compare first.1 second.1 = .lt) (sought : κ) :
    (entries.foldl (fun map (key, value) => map.insert key value) map).find? sought =
      (OrderedMap.lookup? sought entries).or (map.find? sought) := by
  induction entries generalizing map with
  | nil => rfl
  | cons entry rest ih =>
    obtain ⟨key, value⟩ := entry
    rw [List.foldl_cons, ih (List.Pairwise.of_cons sorted), map.find?_insert, OrderedMap.lookup?]
    by_cases same : compare sought key = .eq
    · rw [OrderedMap.lookup?_eq_none_of_eq sorted same]
      simp only [same, if_true, Option.none_or, Option.some_or]
    · simp only [same, if_false]

theorem find?_appendEntries {map : OrderedMap κ (List α)} {entries : List (κ × List α)}
    (sorted : entries.Pairwise fun first second => compare first.1 second.1 = .lt) (sought : κ) :
    (entries.foldl (fun map (key, more) => map.upsert key fun existing => existing.getD [] ++ more) map).find? sought =
      match OrderedMap.lookup? sought entries with
      | some more => some ((map.find? sought).getD [] ++ more)
      | none => map.find? sought := by
  induction entries generalizing map with
  | nil => rfl
  | cons entry rest ih =>
    obtain ⟨key, more⟩ := entry
    rw [List.foldl_cons, ih (List.Pairwise.of_cons sorted), map.find?_upsert, OrderedMap.lookup?]
    by_cases same : compare sought key = .eq
    · rw [OrderedMap.lookup?_eq_none_of_eq sorted same, map.find?_congr same]
      simp only [same, if_true]
    · simp only [same, if_false]

theorem Appended.append {key : ι → Except Error κ} {value : ι → Except Error α} {items others : List ι}
    {map more : OrderedMap κ (List α)} (appended : Appended key value items map)
    (behind : Appended key value others more) :
    Appended key value (items ++ others)
      (more.entries.foldl (fun map (key, more) => map.upsert key fun existing => existing.getD [] ++ more) map) := by
  intro sought
  obtain ⟨values, run, held⟩ := appended sought
  obtain ⟨added, later, found⟩ := behind sought
  refine ⟨values ++ added, ?_, ?_⟩
  · rw [List.filter_append, List.mapM_append, run, later]
    rfl
  · rw [OrderedMap.find?, id] at found
    rw [find?_appendEntries more.increasing, found, held]
    cases added with
    | nil => simp [listed]
    | cons first rest =>
      have nonempty : values ++ first :: rest ≠ [] := by simp
      simp only [id, listed_of_ne_nil (List.cons_ne_nil first rest), listed_of_ne_nil nonempty, getD_listed]

end PackageRecipes
