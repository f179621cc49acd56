import Mathlib.Data.List.SplitBy
import PackageRecipes.Version

/-! A version read character by character is its text cut into runs of characters of one kind.
While it is read, the run that may go on is one of digits or of letters, and what has been
read and that run together make up what is in front of the next character. -/

namespace PackageRecipes.Version

inductive CharacterKind where
  | digit
  | letter
  | separator
  | other
  deriving DecidableEq

def kind (c : Char) : CharacterKind :=
  if Text.isDigit c then .digit
  else if Text.isLetter c then .letter
  else if isSeparator c then .separator
  else .other

/-- What a run of characters of one kind is read as; separators are nothing in themselves. -/
def readRun (run : List Char) : Option (List Segment) :=
  match run.head?.map kind with
  | some .digit =>
    let value := Text.digitsValue 10 run
    if value < numberLimit then some [.number value] else none
  | some .letter => some [.word (String.ofList run)]
  | some .separator | none => some []
  | some .other => none

def readRuns (text : List Char) : Option (List Segment) :=
  ((text.splitBy fun left right => kind left = kind right).mapM readRun).map List.flatten

variable {c d : Char} {first second rest run text : List Char} {segments : List Segment}

section Kinds

private theorem kind_eq_digit_iff : kind c = .digit ↔ Text.isDigit c = true := by
  unfold kind
  split
  next digit => simp [digit]
  next other =>
    rw [iff_false_right other]
    split
    · nofun
    · split <;> nofun

theorem kind_of_isSeparator (separator : isSeparator c = true) : kind c = .separator := by
  simp only [isSeparator, Bool.or_eq_true, beq_iff_eq] at separator
  rcases separator with (rfl | rfl) | rfl <;> rfl

private theorem kind_of_isLetter (letter : Text.isAlphanumeric c = true)
    (other : Text.isDigit c = false) : kind c = .letter := by
  have letter : Text.isLetter c = true := by simpa [Text.isAlphanumeric, other] using letter
  simp [kind, other, letter]

private theorem kind_of_not_isAlphanumeric (separator : isSeparator c = false) (other : Text.isAlphanumeric c = false) :
    kind c = .other := by
  obtain ⟨letter, digit⟩ := Bool.or_eq_false_iff.mp other
  simp [kind, letter, digit, separator]

end Kinds

section Cuts

theorem readRuns_append (differ : ∀ c ∈ first.getLast?, ∀ d ∈ second.head?, kind c ≠ kind d) :
    readRuns (first ++ second) = (readRuns first).bind fun front => (readRuns second).map (front ++ ·) := by
  unfold readRuns
  rw [List.splitBy_append (by simpa using differ), List.mapM_append]
  cases (first.splitBy fun left right => kind left = kind right).mapM readRun with
  | none => rfl
  | some runs =>
    cases (second.splitBy fun left right => kind left = kind right).mapM readRun with
    | none => rfl
    | some others => simp

theorem readRuns_alike {of : CharacterKind} (nonempty : run ≠ []) (alike : ∀ c ∈ run, kind c = of) :
    readRuns run = readRun run := by
  have chain : run.IsChain fun left right => decide (kind left = kind right) = true := by
    refine List.Pairwise.isChain (List.pairwise_of_forall_mem_list fun left inside right member => ?_)
    exact decide_eq_true ((alike left inside).trans (alike right member).symm)
  rw [readRuns, List.splitBy_of_isChain nonempty chain]
  cases found : readRun run <;> simp [found]

/-- The first run of a text goes as far as its characters are of the kind of the first. -/
private theorem readRuns_cons (c : Char) (rest : List Char) :
    readRuns (c :: rest) =
      (readRun (c :: rest.takeWhile (kind c = kind ·))).bind fun front =>
        (readRuns (rest.dropWhile (kind c = kind ·))).map (front ++ ·) := by
  have alike : ∀ d ∈ c :: rest.takeWhile (kind c = kind ·), kind d = kind c := by
    refine List.forall_mem_cons.mpr ⟨rfl, fun d member => ?_⟩
    have same := List.all_eq_true.mp List.all_takeWhile d member
    exact (of_decide_eq_true same).symm
  rw [← readRuns_alike (List.cons_ne_nil _ _) alike, ← readRuns_append, List.cons_append, List.takeWhile_append_dropWhile]
  intro last inside d next
  rw [alike last (List.mem_of_mem_getLast? inside)]
  have stopped := List.head?_dropWhile_not (kind c = kind ·) rest
  rw [Option.mem_def.mp next] at stopped
  simpa using stopped

private theorem readRuns_separator (separator : isSeparator c = true) : readRuns (c :: rest) = readRuns rest := by
  have gap : ∀ {d others}, kind d = .separator → readRun (d :: others) = some [] := by
    intro d others same
    rw [readRun, List.head?_cons, Option.map_some, same]
  have kinds := kind_of_isSeparator separator
  rw [readRuns_cons, gap kinds, kinds]
  cases rest with
  | nil => rfl
  | cons d others =>
    by_cases same : kind d = .separator
    · rw [readRuns_cons d, gap same, same, List.dropWhile_cons_of_pos (by simp [same])]
    · rw [List.dropWhile_cons_of_neg (by simpa using Ne.symm same)]
      simp

private theorem readRuns_other (other : kind c = .other) : readRuns (c :: rest) = none := by
  rw [readRuns_cons, readRun, List.head?_cons, Option.map_some, other]
  rfl

end Cuts

/-- A run that may go on, of digits only or of letters only. -/
structure Growing (run : List Char) : Prop where
  alphanumeric : ∀ c ∈ run, Text.isAlphanumeric c = true
  alike : ∀ c ∈ run, ∀ d ∈ run, Text.isDigit c = Text.isDigit d

namespace Growing

theorem nil : Growing [] :=
  ⟨nofun, nofun⟩

theorem singleton (alphanumeric : Text.isAlphanumeric c = true) : Growing [c] := by
  refine ⟨List.forall_mem_singleton.mpr alphanumeric, fun first member second inside => ?_⟩
  rw [List.mem_singleton.mp member, List.mem_singleton.mp inside]

private theorem concat (growing : Growing run) (alphanumeric : Text.isAlphanumeric c = true)
    (goesOn : (Reading.mk segments run).switches c = false) : Growing (run ++ [c]) := by
  refine ⟨List.forall_mem_append.mpr ⟨growing.alphanumeric, List.forall_mem_singleton.mpr alphanumeric⟩, ?_⟩
  have same : ∀ d ∈ run, Text.isDigit d = Text.isDigit c := by
    intro d member
    have nonempty := List.ne_nil_of_mem member
    have last := List.getLast_mem nonempty
    rw [growing.alike d member _ last]
    simpa [Reading.switches, List.getLast?_eq_some_getLast nonempty] using goesOn
  intro first member second inside
  rw [List.mem_append, List.mem_singleton] at member inside
  have all : ∀ d, d ∈ run ∨ d = c → Text.isDigit d = Text.isDigit c := by
    intro d either
    rcases either with member | rfl
    · exact same d member
    · rfl
  rw [all first member, all second inside]

private theorem kind_eq (growing : Growing run) (first : c ∈ run) (second : d ∈ run) : kind c = kind d := by
  have same := growing.alike c first d second
  cases digit : Text.isDigit d with
  | true => rw [kind_eq_digit_iff.mpr digit, kind_eq_digit_iff.mpr (same.trans digit)]
  | false =>
    rw [kind_of_isLetter (growing.alphanumeric d second) digit,
      kind_of_isLetter (growing.alphanumeric c first) (same.trans digit)]

private theorem readRuns_eq (growing : Growing run) : readRuns run = readRun run := by
  cases run with
  | nil => rfl
  | cons first rest => exact readRuns_alike (List.cons_ne_nil _ _) fun c member => growing.kind_eq member List.mem_cons_self

private theorem readRuns_cut (growing : Growing run) (differ : ∀ last ∈ run.getLast?, kind last ≠ kind c) :
    readRuns (run ++ c :: rest) = (readRun run).bind fun found => (readRuns (c :: rest)).map (found ++ ·) := by
  rw [readRuns_append, growing.readRuns_eq]
  rintro last member _ ⟨⟩
  exact differ last member

end Growing

private theorem Reading.flush_eq (segments : List Segment) (growing : Growing run) :
    (Reading.mk segments run).flush = (readRun run).map fun found => ⟨segments ++ found, []⟩ := by
  cases run with
  | nil => simp [flush, readRun]
  | cons first rest =>
    rw [flush, readRun, List.head?_cons, Option.map_some, List.isEmpty_cons]
    cases digit : Text.isDigit first with
    | true =>
      have all : (first :: rest).all Text.isDigit = true :=
        List.all_eq_true.mpr fun c member => (growing.alike c member first List.mem_cons_self).trans digit
      rw [kind_eq_digit_iff.mpr digit]
      simp only [Bool.false_eq_true, if_false, all, if_true]
      split
      next => rfl
      next => rfl
    | false =>
      rw [kind_of_isLetter (growing.alphanumeric first List.mem_cons_self) digit]
      simp [digit]

namespace Reading

/-- The segments that a text has if it is read on from a reading of what is in front of it. -/
def finish (text : List Char) (reading : Reading) : Option (List Segment) :=
  ((text.foldlM step reading).bind flush).map (·.segments)

private theorem finish_cons (reading : Reading) : finish (c :: rest) reading = (reading.step c).bind (finish rest) := by
  rw [finish, List.foldlM_cons]
  cases reading.step c <;> rfl

/-- The run ends in front of a character of another kind, and what comes of it is in front of
what comes of the rest. -/
private theorem bind_flush_eq {next : Reading → Option (List Segment)} (growing : Growing run)
    (differ : ∀ last ∈ run.getLast?, kind last ≠ kind c)
    (later : ∀ before, next ⟨before, []⟩ = (readRuns (c :: rest)).map (before ++ ·)) :
    ((Reading.mk segments run).flush).bind next = (readRuns (run ++ c :: rest)).map (segments ++ ·) := by
  rw [flush_eq segments growing, growing.readRuns_cut differ]
  cases readRun run with
  | none => rfl
  | some found =>
    rw [Option.map_some, Option.bind_some, Option.bind_some, later, Option.map_map]
    simp only [Function.comp_def, List.append_assoc]

private theorem kind_ne_of_switches (ends : (Reading.mk segments run).switches c = true) :
    ∀ last ∈ run.getLast?, kind last ≠ kind c := by
  intro last member same
  have apart : Text.isDigit last ≠ Text.isDigit c := by simpa [switches, Option.mem_def.mp member] using ends
  apply apart
  rw [Bool.eq_iff_iff, ← kind_eq_digit_iff, ← kind_eq_digit_iff, same]

private theorem kind_ne_of_growing (growing : Growing run) (digit : kind c ≠ .digit) (letter : kind c ≠ .letter) :
    ∀ last ∈ run.getLast?, kind last ≠ kind c := by
  intro last member same
  have alphanumeric := growing.alphanumeric last (List.mem_of_mem_getLast? member)
  cases number : Text.isDigit last with
  | true => exact digit (same ▸ kind_eq_digit_iff.mpr number)
  | false => exact letter (same ▸ kind_of_isLetter alphanumeric number)

/-- Reading a text on gives what its runs are read as, the first one with the run that was not
finished in front of it. -/
theorem finish_eq (text : List Char) (segments : List Segment) (growing : Growing run) :
    finish text ⟨segments, run⟩ = (readRuns (run ++ text)).map (segments ++ ·) := by
  induction text generalizing segments run with
  | nil =>
    rw [List.append_nil, growing.readRuns_eq, finish, List.foldlM_nil]
    change (flush _).map _ = _
    rw [flush_eq segments growing, Option.map_map]
    rfl
  | cons c rest ih =>
    rw [finish_cons, step]
    by_cases separator : isSeparator c = true
    · have kinds := kind_of_isSeparator separator
      rw [if_pos separator]
      apply bind_flush_eq growing
      · exact kind_ne_of_growing growing (by rw [kinds]; nofun) (by rw [kinds]; nofun)
      · intro before
        rw [readRuns_separator separator]
        exact ih before .nil
    rw [if_neg separator]
    by_cases alphanumeric : Text.isAlphanumeric c = true
    · rw [if_pos alphanumeric]
      by_cases ends : (Reading.mk segments run).switches c = true
      · rw [if_pos ends, Option.bind_eq_bind, Option.bind_assoc]
        apply bind_flush_eq growing (kind_ne_of_switches ends)
        intro before
        exact ih before (.singleton alphanumeric)
      · rw [if_neg ends]
        have goesOn := ih segments (growing.concat alphanumeric (Bool.not_eq_true _ ▸ ends))
        rwa [List.append_assoc] at goesOn
    · have kinds := kind_of_not_isAlphanumeric (Bool.not_eq_true _ ▸ separator) (Bool.not_eq_true _ ▸ alphanumeric)
      rw [if_neg alphanumeric, growing.readRuns_cut, readRuns_other kinds]
      · cases readRun run <;> rfl
      · exact kind_ne_of_growing growing (by rw [kinds]; nofun) (by rw [kinds]; nofun)

end Reading

theorem segments?_eq_finish (text : List Char) :
    segments? text = (Reading.finish text ⟨[], []⟩).bind fun segments => if segments.isEmpty then none else some segments := by
  rw [segments?, Reading.finish]
  cases text.foldlM Reading.step ⟨[], []⟩ with
  | none => rfl
  | some reading => cases finished : reading.flush <;> simp [finished]

/-- A version that is read character by character has the segments of the runs that its text
is cut into. -/
theorem segments?_eq_some_iff_readRuns : segments? text = some segments ↔ readRuns text = some segments ∧ segments ≠ [] := by
  rw [segments?_eq_finish, Reading.finish_eq text [] .nil, List.nil_append]
  cases readRuns text with
  | none => simp
  | some found =>
    rw [Option.map_some, List.nil_append, Option.bind_some, Option.some.injEq]
    by_cases empty : found = []
    · subst empty
      exact ⟨nofun, fun both => absurd both.1.symm both.2⟩
    · rw [if_neg (by simpa using empty), Option.some.injEq]
      exact ⟨fun same => ⟨same, same ▸ empty⟩, And.left⟩

end PackageRecipes.Version
