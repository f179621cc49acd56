import Mathlib.Data.List.DropRight
import PackageRecipes.Proofs.ReadExpressions

/-! Scanning the text of an item in front of others. An item ends where its run of
characters does, so a sign, white space or the end of the text has to follow it. Pieces
of which this holds can be put together. White space in front of an item, behind its sign
or at the end of the text adds nothing. -/

namespace PackageRecipes

section Runs

variable {inRun : Char → Bool} {run rest : List Char}

theorem takeWhile_run (inside : ∀ c ∈ run, inRun c = true) (ends : ∀ c ∈ rest.head?, inRun c = false) :
    (run ++ rest).takeWhile inRun = run := by
  rw [List.takeWhile_append_of_pos inside]
  cases rest with
  | nil => rw [List.takeWhile_nil, List.append_nil]
  | cons c others => rw [List.takeWhile_cons_of_neg (by simp [ends c rfl]), List.append_nil]

theorem dropWhile_run (inside : ∀ c ∈ run, inRun c = true) (ends : ∀ c ∈ rest.head?, inRun c = false) :
    (run ++ rest).dropWhile inRun = rest := by
  rw [List.dropWhile_append_of_pos inside]
  cases rest with
  | nil => rfl
  | cons c others => exact List.dropWhile_cons_of_neg (by simp [ends c rfl])

end Runs

namespace Item
open Text

section Characters

variable {c : Char}

/-- The printable characters of ASCII other than the space are no white space. -/
private theorem isBlank_of_printable (above : 0x20 < c.val.toNat) (below : c.val.toNat < 0x7F) : isBlank c = false := by
  simp only [isBlank, Bool.or_eq_false_iff, Bool.and_eq_false_iff, decide_eq_false_iff_not, beq_eq_false_iff_ne, ne_eq,
    UInt32.le_iff_toNat_le, ← UInt32.toNat_inj, UInt32.toNat_ofNat]
  omega

theorem isBlank_of_isNameCharacter (named : isNameCharacter c = true) : isBlank c = false := by
  simp only [isNameCharacter, isAlphanumeric, isLetter, isDigit, Bool.or_eq_true, Bool.and_eq_true, decide_eq_true_eq,
    beq_iff_eq, Char.le_def, UInt32.le_iff_toNat_le] at named
  rcases named with ((((⟨low, high⟩ | ⟨low, high⟩) | ⟨low, high⟩) | rfl) | rfl)
  case inr | inl.inr => rfl
  all_goals exact isBlank_of_printable (Nat.lt_of_lt_of_le (by decide) low) (Nat.lt_of_le_of_lt high (by decide))

theorem isBlank_of_isVersionCharacter (versioned : isVersionCharacter c = true) : isBlank c = false := by
  simp only [isVersionCharacter, Bool.or_eq_true, beq_iff_eq] at versioned
  rcases versioned with ((named | rfl) | rfl) | rfl
  · exact isBlank_of_isNameCharacter named
  all_goals rfl

theorem isBlank_of_isValueCharacter (valued : isValueCharacter c = true) : isBlank c = false := by
  simp only [isValueCharacter, Bool.or_eq_true, beq_iff_eq] at valued
  rcases valued with ((named | rfl) | rfl) | rfl
  · exact isBlank_of_isNameCharacter named
  all_goals rfl

def IsGap (text : List Char) : Prop :=
  ∀ c ∈ text, isBlank c = true

theorem isGap_nil : IsGap [] :=
  nofun

private theorem dropWhile_gap_run {inRun : Char → Bool} {gap run : List Char} (blank : IsGap gap) (nonempty : run ≠ [])
    (inside : ∀ c ∈ run, inRun c = true) (visible : ∀ {c}, inRun c = true → isBlank c = false) (rest : List Char) :
    (gap ++ (run ++ rest)).dropWhile isBlank = run ++ rest := by
  rw [List.dropWhile_append_of_pos blank]
  cases run with
  | nil => exact absurd rfl nonempty
  | cons c others => exact List.dropWhile_cons_of_neg (by simp [visible (inside c List.mem_cons_self)])

end Characters

section Equations

variable {c : Char} {rest after value : List Char}

theorem scan_nil : scan [] = [] := by
  rw [scan.eq_def]
  rfl

private theorem scan_dropWhile_blank (text : List Char) : scan (text.dropWhile isBlank) = scan text := by
  rw [scan.eq_def, scan.eq_def text, List.dropWhile_idempotent]

theorem scan_gap {gap : List Char} (blank : IsGap gap) (rest : List Char) : scan (gap ++ rest) = scan rest := by
  rw [← scan_dropWhile_blank, List.dropWhile_append_of_pos blank, scan_dropWhile_blank]

theorem scan_blank (rest : List Char) : scan (' ' :: rest) = scan rest :=
  @scan_gap [' '] (List.forall_mem_singleton.mpr rfl) rest

theorem scan_clause (rest : List Char) : scan ('^' :: rest) = none :: scan rest := by
  rw [scan.eq_def]
  rfl

private theorem scan_versions (rest : List Char) :
    scan ('@' :: rest) = some (versions (readVersions ((rest.dropWhile isBlank).takeWhile isVersionCharacter))) ::
      scan ((rest.dropWhile isBlank).dropWhile isVersionCharacter) := by
  rw [scan.eq_def]
  rfl

private theorem scan_switch (on : Bool) (rest : List Char) :
    scan ((if on then '+' else '~') :: rest) =
      some (variant (readSwitch on ((rest.dropWhile isBlank).takeWhile isNameCharacter))) ::
        scan ((rest.dropWhile isBlank).dropWhile isNameCharacter) := by
  rw [scan.eq_def]
  cases on <;> rfl

private theorem scan_compiler (next : ((rest.dropWhile isBlank).dropWhile isNameCharacter).head? ≠ some '@') :
    scan ('%' :: rest) = some (compiler (readCompiler ((rest.dropWhile isBlank).takeWhile isNameCharacter) none)) ::
      scan ((rest.dropWhile isBlank).dropWhile isNameCharacter) := by
  rw [scan.eq_def, List.dropWhile_cons_of_neg (by decide)]
  split
  case h_6 same =>
    cases same
    dsimp only
    split
    next found => exact absurd (by rw [found]; rfl) next
    next => rfl
  case h_7 other same =>
    cases same
    exact absurd rfl other
  all_goals
    next same => cases same

private theorem scan_compiler_versions (next : (rest.dropWhile isBlank).dropWhile isNameCharacter = '@' :: after) :
    scan ('%' :: rest) = some (compiler (readCompiler ((rest.dropWhile isBlank).takeWhile isNameCharacter)
        (some ((after.dropWhile isBlank).takeWhile isVersionCharacter)))) ::
      scan ((after.dropWhile isBlank).dropWhile isVersionCharacter) := by
  rw [scan.eq_def, List.dropWhile_cons_of_neg (by decide)]
  split
  case h_6 same =>
    cases same
    dsimp only
    split
    next found =>
      cases next.symm.trans found
      rfl
    next other => exact absurd next (other after)
  case h_7 other same =>
    cases same
    exact absurd rfl other
  all_goals
    next same => cases same

private theorem scan_word (named : isNameCharacter c = true)
    (next : (rest.dropWhile isNameCharacter).head? ≠ some '=') :
    scan (c :: rest) = some (word (String.ofList (c :: rest.takeWhile isNameCharacter))) ::
      scan (rest.dropWhile isNameCharacter) := by
  rw [scan.eq_def, List.dropWhile_cons_of_neg (by simp [isBlank_of_isNameCharacter named])]
  split
  case h_7 same =>
    cases same
    rw [if_pos named]
    dsimp only
    split
    next found => exact absurd (by rw [found]; rfl) next
    next => rfl
  case h_1 same => cases same
  all_goals
    next same =>
      cases same
      cases named

private theorem scan_value (named : isNameCharacter c = true) (next : rest.dropWhile isNameCharacter = '=' :: value) :
    scan (c :: rest) = some (variant (readValue (String.ofList (c :: rest.takeWhile isNameCharacter))
        (value.takeWhile isValueCharacter))) ::
      scan (value.dropWhile isValueCharacter) := by
  rw [scan.eq_def, List.dropWhile_cons_of_neg (by simp [isBlank_of_isNameCharacter named])]
  split
  case h_7 same =>
    cases same
    rw [if_pos named]
    dsimp only
    split
    next found =>
      cases next.symm.trans found
      rfl
    next other => exact absurd next (other value)
  case h_1 same => cases same
  all_goals
    next same =>
      cases same
      cases named

private theorem scan_stray (visible : isBlank c = false) (other : c ∉ ['^', '@', '+', '~', '%'])
    (unnamed : ¬isNameCharacter c = true) : scan (c :: rest) = some (stray c) :: scan rest := by
  rw [scan.eq_def, List.dropWhile_cons_of_neg (by simp [visible])]
  split
  case h_7 same =>
    cases same
    exact if_neg unnamed
  case h_1 same => cases same
  all_goals
    next same =>
      cases same
      exact absurd (by decide) other

end Equations

section Runs

variable {name : String} {gap between run rest : List Char}

def Ends (inRun : Char → Bool) (rest : List Char) : Prop :=
  ∀ c ∈ rest.head?, inRun c = false

theorem scan_word_run (word : IsWord name) (ends : Ends (fun c => isNameCharacter c || c == '=') rest) :
    scan (name.toList ++ rest) = some (.word name) :: scan rest := by
  obtain ⟨c, others, same⟩ := List.exists_cons_of_ne_nil word.nonempty
  have named := word.characters
  rw [same] at named
  obtain ⟨first, later⟩ := List.forall_mem_cons.mp named
  have ends : Ends isNameCharacter rest ∧ rest.head? ≠ some '=' := by
    refine ⟨fun c member => (Bool.or_eq_false_iff.mp (ends c member)).1, fun equal => ?_⟩
    cases ends '=' equal
  have next : ((others ++ rest).dropWhile isNameCharacter).head? ≠ some '=' := by
    rw [dropWhile_run later ends.1]
    exact ends.2
  rw [same, List.cons_append, scan_word first next, takeWhile_run later ends.1, dropWhile_run later ends.1, ← same,
    String.ofList_toList]

theorem scan_versions_run (blank : IsGap gap) (nonempty : run ≠ []) (inside : ∀ c ∈ run, isVersionCharacter c = true)
    (ends : Ends isVersionCharacter rest) :
    scan ('@' :: (gap ++ (run ++ rest))) = some (versions (readVersions run)) :: scan rest := by
  rw [scan_versions, dropWhile_gap_run blank nonempty inside isBlank_of_isVersionCharacter, takeWhile_run inside ends,
    dropWhile_run inside ends]

theorem scan_switch_run (on : Bool) (blank : IsGap gap) (word : IsWord name) (ends : Ends isNameCharacter rest) :
    scan ((if on then '+' else '~') :: (gap ++ (name.toList ++ rest))) =
      some (variant (readSwitch on name.toList)) :: scan rest := by
  rw [scan_switch, dropWhile_gap_run blank word.nonempty word.characters isBlank_of_isNameCharacter,
    takeWhile_run word.characters ends, dropWhile_run word.characters ends]

theorem scan_value_run (word : IsWord name) (inside : ∀ c ∈ run, isValueCharacter c = true)
    (ends : Ends isValueCharacter rest) :
    scan (name.toList ++ '=' :: (run ++ rest)) = some (variant (readValue name run)) :: scan rest := by
  obtain ⟨c, others, same⟩ := List.exists_cons_of_ne_nil word.nonempty
  have named := word.characters
  rw [same] at named
  obtain ⟨first, later⟩ := List.forall_mem_cons.mp named
  have sign : Ends isNameCharacter ('=' :: (run ++ rest)) := by
    rintro _ ⟨⟩
    rfl
  rw [same, List.cons_append, scan_value first (dropWhile_run later sign), takeWhile_run later sign,
    takeWhile_run inside ends, dropWhile_run inside ends, ← same, String.ofList_toList]

/-- A sign for versions right behind a compiler would be its own. -/
theorem scan_compiler_run (blank : IsGap gap) (word : IsWord name)
    (ends : Ends (fun c => isNameCharacter c || c == '@') rest) :
    scan ('%' :: (gap ++ (name.toList ++ rest))) = some (compiler (readCompiler name.toList none)) :: scan rest := by
  have ends : Ends isNameCharacter rest ∧ rest.head? ≠ some '@' := by
    refine ⟨fun c member => (Bool.or_eq_false_iff.mp (ends c member)).1, fun equal => ?_⟩
    cases ends '@' equal
  have skip := dropWhile_gap_run blank word.nonempty word.characters isBlank_of_isNameCharacter rest
  have next : (((gap ++ (name.toList ++ rest)).dropWhile isBlank).dropWhile isNameCharacter).head? ≠ some '@' := by
    rw [skip, dropWhile_run word.characters ends.1]
    exact ends.2
  rw [scan_compiler next, skip, takeWhile_run word.characters ends.1, dropWhile_run word.characters ends.1]

theorem scan_compiler_versions_run (blank : IsGap gap) (word : IsWord name) (blankBetween : IsGap between)
    (nonempty : run ≠ []) (inside : ∀ c ∈ run, isVersionCharacter c = true) (ends : Ends isVersionCharacter rest) :
    scan ('%' :: (gap ++ (name.toList ++ '@' :: (between ++ (run ++ rest))))) =
      some (compiler (readCompiler name.toList (some run))) :: scan rest := by
  have sign : Ends isNameCharacter ('@' :: (between ++ (run ++ rest))) := by
    rintro _ ⟨⟩
    rfl
  have skip := dropWhile_gap_run blank word.nonempty word.characters isBlank_of_isNameCharacter
    ('@' :: (between ++ (run ++ rest)))
  have next : ((gap ++ (name.toList ++ '@' :: (between ++ (run ++ rest)))).dropWhile isBlank).dropWhile isNameCharacter =
      '@' :: (between ++ (run ++ rest)) := by
    rw [skip, dropWhile_run word.characters sign]
  rw [scan_compiler_versions next, skip, takeWhile_run word.characters sign,
    dropWhile_gap_run blankBetween nonempty inside isBlank_of_isVersionCharacter, takeWhile_run inside ends,
    dropWhile_run inside ends]

end Runs

section Trailing

variable {short long : List Char}

/-- The longer text is the shorter one and white space behind it. -/
def Trails (short long : List Char) : Prop :=
  ∃ gap, IsGap gap ∧ long = short ++ gap

private theorem isGap_dropWhile {gap : List Char} (blank : IsGap gap) : gap.dropWhile isBlank = [] :=
  List.dropWhile_eq_nil_iff.mpr blank

theorem Trails.skip (trails : Trails short long) : Trails (short.dropWhile isBlank) (long.dropWhile isBlank) := by
  obtain ⟨gap, blank, rfl⟩ := trails
  rw [List.dropWhile_append]
  split
  next empty =>
    rw [List.isEmpty_iff.mp empty, isGap_dropWhile blank]
    exact ⟨[], isGap_nil, rfl⟩
  next => exact ⟨gap, blank, rfl⟩

private theorem ends_dropWhile (inRun : Char → Bool) (text : List Char) : Ends inRun (text.dropWhile inRun) := by
  intro c member
  have head := List.head?_dropWhile_not inRun text
  rwa [Option.mem_def.mp member] at head

private theorem Ends.trails {inRun : Char → Bool} (visible : ∀ c, inRun c = true → isBlank c = false)
    (ends : Ends inRun short) (trails : Trails short long) : Ends inRun long := by
  obtain ⟨gap, blank, rfl⟩ := trails
  cases short with
  | nil =>
    intro c member
    refine Bool.eq_false_iff.mpr fun inside => ?_
    have hidden := visible c inside
    rw [blank c (List.mem_of_mem_head? member)] at hidden
    cases hidden
  | cons first rest => exact ends

theorem Trails.run {inRun : Char → Bool} (visible : ∀ c, inRun c = true → isBlank c = false)
    (trails : Trails short long) :
    long.takeWhile inRun = short.takeWhile inRun ∧ Trails (short.dropWhile inRun) (long.dropWhile inRun) := by
  obtain ⟨gap, blank, rfl⟩ := trails
  have later : Trails (short.dropWhile inRun) (short.dropWhile inRun ++ gap) := ⟨gap, blank, rfl⟩
  have ends := (ends_dropWhile inRun short).trails visible later
  have whole : short ++ gap = short.takeWhile inRun ++ (short.dropWhile inRun ++ gap) := by
    rw [← List.append_assoc, List.takeWhile_append_dropWhile]
  rw [whole, takeWhile_run of_mem_takeWhile ends, dropWhile_run of_mem_takeWhile ends]
  exact ⟨rfl, later⟩

theorem Trails.cons {c : Char} {rest : List Char} (trails : Trails (c :: rest) long) :
    ∃ later, long = c :: later ∧ Trails rest later := by
  obtain ⟨gap, blank, rfl⟩ := trails
  exact ⟨rest ++ gap, rfl, gap, blank, rfl⟩

theorem Trails.scan_eq {c : Char} {rest : List Char} (trails : Trails short long)
    (found : short.dropWhile isBlank = c :: rest) : ∃ later, scan long = scan (c :: later) ∧ Trails rest later := by
  obtain ⟨later, same, trails⟩ := (found ▸ trails.skip).cons
  exact ⟨later, by rw [← scan_dropWhile_blank, same], trails⟩

private theorem Trails.head_ne {c : Char} (visible : isBlank c = false) (trails : Trails short long)
    (other : ∀ rest, short = c :: rest → False) : long.head? ≠ some c := by
  obtain ⟨gap, blank, rfl⟩ := trails
  cases short with
  | nil =>
    intro head
    rw [blank c (List.mem_of_mem_head? head)] at visible
    cases visible
  | cons first rest =>
    intro head
    cases head
    exact other rest rfl

private theorem scan_trails (trails : Trails short long) : scan long = scan short := by
  fun_induction scan short generalizing long
  case case1 found =>
    have none := trails.skip
    rw [found] at none
    obtain ⟨gap, blank, same⟩ := none
    rw [← scan_dropWhile_blank, same, List.nil_append, ← List.append_nil gap, scan_gap blank, scan_nil]
  case case2 found ih =>
    obtain ⟨later, same, trails⟩ := trails.scan_eq found
    rw [same, scan_clause, ih trails]
  case case3 found _ ih =>
    obtain ⟨later, same, trails⟩ := trails.scan_eq found
    obtain ⟨run, trails⟩ := trails.skip.run fun _ => isBlank_of_isVersionCharacter
    rw [same, scan_versions, run, ih trails]
  case case4 found _ ih =>
    obtain ⟨later, same, trails⟩ := trails.scan_eq found
    obtain ⟨run, trails⟩ := trails.skip.run fun _ => isBlank_of_isNameCharacter
    rw [same.trans (scan_switch true later), run, ih trails]
  case case5 found _ ih =>
    obtain ⟨later, same, trails⟩ := trails.scan_eq found
    obtain ⟨run, trails⟩ := trails.skip.run fun _ => isBlank_of_isNameCharacter
    rw [same.trans (scan_switch false later), run, ih trails]
  case case6 found _ after next _ ih =>
    obtain ⟨later, same, trails⟩ := trails.scan_eq found
    obtain ⟨run, trails⟩ := trails.skip.run fun _ => isBlank_of_isNameCharacter
    obtain ⟨list, again, trails⟩ := (next ▸ trails).cons
    obtain ⟨listed, trails⟩ := trails.skip.run fun _ => isBlank_of_isVersionCharacter
    rw [same, scan_compiler_versions again, run, listed, ih trails]
  case case7 found _ other ih =>
    obtain ⟨later, same, trails⟩ := trails.scan_eq found
    obtain ⟨run, trails⟩ := trails.skip.run fun _ => isBlank_of_isNameCharacter
    rw [same, scan_compiler (trails.head_ne rfl other), run, ih trails]
  case case8 found named _ value next ih =>
    obtain ⟨later, same, trails⟩ := trails.scan_eq found
    obtain ⟨run, trails⟩ := trails.run fun _ => isBlank_of_isNameCharacter
    obtain ⟨text, again, trails⟩ := (next ▸ trails).cons
    obtain ⟨valued, trails⟩ := trails.run fun _ => isBlank_of_isValueCharacter
    rw [same, scan_value named again, run, valued, ih trails]
  case case9 found named _ other ih =>
    obtain ⟨later, same, trails⟩ := trails.scan_eq found
    obtain ⟨run, trails⟩ := trails.run fun _ => isBlank_of_isNameCharacter
    rw [same, scan_word named (trails.head_ne rfl other), run, ih trails]
  case case10 clause versions on off compiler found unnamed ih =>
    have visible := ends_dropWhile isBlank _ _ (congrArg List.head? found)
    obtain ⟨later, same, trails⟩ := trails.scan_eq found
    rw [same, scan_stray visible (by simpa using ⟨clause, versions, on, off, compiler⟩) unnamed, ih trails]

theorem scan_trimList (text : List Char) : scan (trimList text) = scan text := by
  have trails : Trails (trimList text) (text.dropWhile isBlank) := by
    refine ⟨((text.dropWhile isBlank).reverse.takeWhile isBlank).reverse, ?_, ?_⟩
    · exact fun c member => of_mem_takeWhile c (List.mem_reverse.mp member)
    · rw [trimList, ← List.reverse_append, List.takeWhile_append_dropWhile, List.reverse_reverse]
  rw [← scan_trails trails, scan_dropWhile_blank]

end Trailing

def BeginsWith (signs text : List Char) : Prop :=
  ∀ c ∈ text.head?, c ∈ signs

/-- In front of any text that begins with one of the signs, the piece is scanned as these
items. -/
def ScansAs (signs piece : List Char) (items : List (Option Item)) : Prop :=
  ∀ rest, BeginsWith signs rest → scan (piece ++ rest) = items ++ scan rest

/-- What an item of a normal text can be followed by. -/
def signs : List Char := [' ', '+', '~', '@', '%']

theorem beginsWith_nil (signs : List Char) : BeginsWith signs [] :=
  nofun

theorem BeginsWith.mono {fewer more text : List Char} (begins : BeginsWith fewer text) (subset : fewer ⊆ more) :
    BeginsWith more text :=
  fun c member => subset (begins c member)

theorem beginsWith_append {signs first second : List Char} (one : BeginsWith signs first)
    (other : BeginsWith signs second) : BeginsWith signs (first ++ second) := by
  cases first with
  | nil => exact other
  | cons c rest => exact one

section Pieces

variable {ends piece : List Char} {items : List (Option Item)}

theorem ScansAs.nil (ends : List Char) : ScansAs ends [] [] :=
  fun _ _ => rfl

theorem ScansAs.mono {more : List Char} (scans : ScansAs more piece items) (fewer : ends ⊆ more) :
    ScansAs ends piece items :=
  fun rest begins => scans rest (begins.mono fewer)

theorem ScansAs.append {more next : List Char} {others : List (Option Item)} (first : ScansAs more piece items)
    (second : ScansAs ends next others) (begins : BeginsWith more next) (fewer : ends ⊆ more) :
    ScansAs ends (piece ++ next) (items ++ others) := by
  intro rest follows
  have together := beginsWith_append begins (follows.mono fewer)
  rw [List.append_assoc, first (next ++ rest) together, second rest follows, List.append_assoc]

theorem beginsWith_join {α : Type} {entries : List α} {text : α → String}
    (begins : ∀ entry ∈ entries, BeginsWith ends (text entry).toList) :
    BeginsWith ends (String.join (entries.map text)).toList := by
  rw [String.toList_join, List.flatMap_map]
  induction entries with
  | nil => exact beginsWith_nil ends
  | cons first rest ih =>
    obtain ⟨one, others⟩ := List.forall_mem_cons.mp begins
    exact beginsWith_append one (ih others)

theorem ScansAs.join {α : Type} {entries : List α} {text : α → String} {items : α → List (Option Item)}
    (scans : ∀ entry ∈ entries, ScansAs ends (text entry).toList (items entry))
    (begins : ∀ entry ∈ entries, BeginsWith ends (text entry).toList) :
    ScansAs ends (String.join (entries.map text)).toList (entries.flatMap items) := by
  induction entries with
  | nil => exact .nil ends
  | cons first rest ih =>
    obtain ⟨one, scans⟩ := List.forall_mem_cons.mp scans
    have others := (List.forall_mem_cons.mp begins).2
    have later := one.append (ih scans others) (beginsWith_join others) (List.Subset.refl ends)
    rw [String.toList_join, List.flatMap_map] at later ⊢
    exact later

/-- A clause begins after a space. -/
theorem ScansAs.clause (scans : ScansAs ends piece items) : ScansAs ends (' ' :: '^' :: piece) (none :: items) := by
  intro rest begins
  rw [List.cons_append, List.cons_append, scan_blank, scan_clause, scans rest begins]
  rfl

theorem ends_run (inRun : Char → Bool) {rest : List Char} (begins : BeginsWith ends rest)
    (outside : (ends.all fun c => !inRun c) = true) : Ends inRun rest := by
  intro c member
  simpa using List.all_eq_true.mp outside c (begins c member)

variable {name : String} {run : List Char}

theorem scansAs_word (word : IsWord name) : ScansAs signs name.toList [some (.word name)] :=
  fun _ begins => scan_word_run word (ends_run _ begins rfl)

theorem scansAs_versions (nonempty : run ≠ []) (inside : ∀ c ∈ run, isVersionCharacter c = true) :
    ScansAs signs ('@' :: run) [some (versions (readVersions run))] :=
  fun _ begins => scan_versions_run isGap_nil nonempty inside (ends_run _ begins rfl)

theorem scansAs_switch (on : Bool) (word : IsWord name) :
    ScansAs signs ((if on then '+' else '~') :: name.toList) [some (variant (readSwitch on name.toList))] :=
  fun _ begins => scan_switch_run on isGap_nil word (ends_run _ begins rfl)

theorem scansAs_value (word : IsWord name) (inside : ∀ c ∈ run, isValueCharacter c = true) :
    ScansAs signs (' ' :: (name.toList ++ '=' :: run)) [some (variant (readValue name run))] := by
  intro rest begins
  rw [List.cons_append, scan_blank, List.append_assoc, List.cons_append]
  exact scan_value_run word inside (ends_run _ begins rfl)

theorem scansAs_compiler (word : IsWord name) :
    ScansAs [' '] ('%' :: name.toList) [some (compiler (readCompiler name.toList none))] :=
  fun _ begins => scan_compiler_run isGap_nil word (ends_run _ begins rfl)

theorem scansAs_compiler_versions (word : IsWord name) (nonempty : run ≠ [])
    (inside : ∀ c ∈ run, isVersionCharacter c = true) :
    ScansAs signs ('%' :: (name.toList ++ '@' :: run)) [some (compiler (readCompiler name.toList (some run)))] := by
  intro rest begins
  rw [List.cons_append, List.append_assoc, List.cons_append]
  exact scan_compiler_versions_run isGap_nil word isGap_nil nonempty inside (ends_run _ begins rfl)

end Pieces

section Clauses

theorem clauses_append (first : List Item) (rest : List (Option Item)) :
    clauses (first.map some ++ rest) = (first ++ (clauses rest).1, (clauses rest).2) := by
  induction first with
  | nil => rfl
  | cons item others ih =>
    rw [List.map_cons, List.cons_append, clauses, ih]
    rfl

theorem clauses_flatMap (others : List (List Item)) :
    clauses (others.flatMap fun items => none :: items.map some) = ([], others) := by
  induction others with
  | nil => rfl
  | cons items rest ih =>
    rw [List.flatMap_cons, List.cons_append, clauses, clauses_append, ih, List.append_nil]

end Clauses

end Item

end PackageRecipes
