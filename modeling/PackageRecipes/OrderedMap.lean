/-! Finite maps and sets kept in the order of their keys. A key already present
keeps its first spelling: writing under an equal key replaces the value alone. -/

namespace PackageRecipes

/-- Entries strictly increasing by key. -/
structure OrderedMap (κ : Type) (α : Type) [Ord κ] where
  entries : List (κ × α)
  increasing : entries.Pairwise fun first second => compare first.1 second.1 = .lt

namespace OrderedMap

variable {κ α β : Type} [Ord κ]

def empty : OrderedMap κ α :=
  ⟨[], .nil⟩

instance : Inhabited (OrderedMap κ α) := ⟨empty⟩

instance [BEq κ] [BEq α] : BEq (OrderedMap κ α) := ⟨fun left right => left.entries == right.entries⟩

/-- Maps compare entry by entry, each entry by its key first. -/
instance [Ord α] : Ord (OrderedMap κ α) :=
  ⟨fun left right =>
    List.compareLex (compareLex (compareOn Prod.fst) (compareOn Prod.snd)) left.entries right.entries⟩

instance [Ord α] [Std.TransOrd κ] [Std.TransOrd α] : Std.TransOrd (OrderedMap κ α) where
  eq_swap :=
    (inferInstance : Std.TransCmp (List.compareLex
      (compareLex (compareOn (Prod.fst : κ × α → κ)) (compareOn Prod.snd)))).eq_swap
  isLE_trans :=
    (inferInstance : Std.TransCmp (List.compareLex
      (compareLex (compareOn (Prod.fst : κ × α → κ)) (compareOn Prod.snd)))).isLE_trans

def keys (map : OrderedMap κ α) : List κ :=
  map.entries.map (·.1)

def values (map : OrderedMap κ α) : List α :=
  map.entries.map (·.2)

def size (map : OrderedMap κ α) : Nat :=
  map.entries.length

def isEmpty (map : OrderedMap κ α) : Bool :=
  map.entries.isEmpty

/-- The value in a list of entries under a key that compares equal. -/
def lookup? (key : κ) : List (κ × α) → Option α
  | [] => none
  | (other, value) :: rest => if compare key other = .eq then some value else lookup? key rest

def find? (map : OrderedMap κ α) (key : κ) : Option α :=
  lookup? key map.entries

def contains (map : OrderedMap κ α) (key : κ) : Bool :=
  (map.find? key).isSome

/-- A key that compares equal to none of the keys is not found. -/
theorem lookup?_eq_none {key : κ} {entries : List (κ × α)}
    (different : ∀ entry ∈ entries, compare key entry.1 ≠ .eq) : lookup? key entries = none := by
  induction entries with
  | nil => rfl
  | cons head rest ih =>
    simp only [lookup?, different head List.mem_cons_self, if_false]
    exact ih fun entry member => different entry (List.mem_cons_of_mem head member)

/-- One pass over the entries: the value under an equal key becomes what `update`
makes of it, and a key not yet present gets its entry in front of the first
greater one. -/
def upsertEntry (key : κ) (update : Option α → α) : List (κ × α) → List (κ × α)
  | [] => [(key, update none)]
  | (other, value) :: rest =>
    match compare key other with
    | .lt => (key, update none) :: (other, value) :: rest
    | .eq => (other, update (some value)) :: rest
    | .gt => (other, value) :: upsertEntry key update rest

theorem mem_upsertEntry {key : κ} {update : Option α → α} {entries : List (κ × α)} {entry : κ × α}
    (member : entry ∈ upsertEntry key update entries) :
    entry.1 = key ∨ ∃ old ∈ entries, old.1 = entry.1 := by
  induction entries with
  | nil => simp_all [upsertEntry]
  | cons head rest ih =>
    obtain ⟨other, value⟩ := head
    unfold upsertEntry at member
    split at member
    · rcases List.mem_cons.mp member with same | old
      · exact .inl (by rw [same])
      · exact .inr ⟨entry, old, rfl⟩
    · rcases List.mem_cons.mp member with same | old
      · exact .inr ⟨(other, value), by simp, by rw [same]⟩
      · exact .inr ⟨entry, List.mem_cons_of_mem _ old, rfl⟩
    · rcases List.mem_cons.mp member with same | old
      · exact .inr ⟨entry, by simp [same], rfl⟩
      · rcases ih old with new | ⟨before, present, same⟩
        · exact .inl new
        · exact .inr ⟨before, List.mem_cons_of_mem _ present, same⟩

theorem increasing_upsertEntry [Std.TransOrd κ] (key : κ) (update : Option α → α)
    {entries : List (κ × α)}
    (sorted : entries.Pairwise fun first second => compare first.1 second.1 = .lt) :
    (upsertEntry key update entries).Pairwise fun first second => compare first.1 second.1 = .lt := by
  induction entries with
  | nil => simp [upsertEntry]
  | cons head rest ih =>
    obtain ⟨other, value⟩ := head
    obtain ⟨below, sorted⟩ := List.pairwise_cons.mp sorted
    unfold upsertEntry
    split
    · next less =>
      refine List.pairwise_cons.mpr ⟨?_, List.pairwise_cons.mpr ⟨below, sorted⟩⟩
      intro entry member
      rcases List.mem_cons.mp member with same | later
      · rw [same]; exact less
      · exact Std.TransCmp.lt_trans less (below entry later)
    · exact List.pairwise_cons.mpr ⟨below, sorted⟩
    · next greater =>
      refine List.pairwise_cons.mpr ⟨?_, ih sorted⟩
      intro entry member
      rcases mem_upsertEntry member with new | ⟨old, present, same⟩
      · rw [new]; exact Std.OrientedCmp.lt_of_gt greater
      · rw [← same]; exact below old present

/-- The value under `key` becomes what `update` makes of it. -/
def upsert [Std.TransOrd κ] (map : OrderedMap κ α) (key : κ) (update : Option α → α) :
    OrderedMap κ α :=
  ⟨upsertEntry key update map.entries, increasing_upsertEntry key update map.increasing⟩

def insert [Std.TransOrd κ] (map : OrderedMap κ α) (key : κ) (value : α) : OrderedMap κ α :=
  map.upsert key fun _ => value

/-- Adds `value` at the end of the list under `key`. -/
def push [Std.TransOrd κ] (map : OrderedMap κ (List α)) (key : κ) (value : α) :
    OrderedMap κ (List α) :=
  map.upsert key fun old => old.getD [] ++ [value]

def ofList [Std.TransOrd κ] (entries : List (κ × α)) : OrderedMap κ α :=
  entries.foldl (fun map (key, value) => map.insert key value) empty

def mapValues (f : α → β) (map : OrderedMap κ α) : OrderedMap κ β :=
  ⟨map.entries.map fun (key, value) => (key, f value), by
    simpa [List.pairwise_map] using map.increasing⟩

end OrderedMap

/-- A set kept in order. A member already present stays when an equal one is added. -/
abbrev OrderedSet (κ : Type) [Ord κ] := OrderedMap κ Unit

namespace OrderedSet

variable {κ : Type} [Ord κ]

def toList (members : OrderedSet κ) : List κ :=
  OrderedMap.keys members

def add [Std.TransOrd κ] (members : OrderedSet κ) (member : κ) : OrderedSet κ :=
  OrderedMap.insert members member ()

/-- The members of a list; of equal ones the last stays. -/
def ofList [Std.TransOrd κ] (members : List κ) : OrderedSet κ :=
  members.foldr (fun member set => add set member) OrderedMap.empty

end OrderedSet

end PackageRecipes
