import PackageRecipes.Proofs.GrowingRuns
import PackageRecipes.Proofs.ListedVersions
import PackageRecipes.Proofs.MaximalRuns

/-! The segments of a version. Parsing reads a trimmed text as its maximal runs of digits
and of letters, and refuses it just if something else than digits, letters and separators
is in it, if there is no run, or if the number of a run is too large. So equal versions
are those with the same runs, and spellings that differ in separators or in zeros in front
of numbers only are equal or refused together. -/

namespace PackageRecipes

namespace Text

private theorem digitsValue_eq_ofDigitChars {run : List Char} (digits : ∀ c ∈ run, isDigit c = true) :
    digitsValue 10 run = Nat.ofDigitChars 10 run 0 := by
  rw [digitsValue, Nat.ofDigitChars]
  refine List.foldl_ext _ _ _ fun value c member => ?_
  rw [hexValue?, if_pos (digits c member), Option.getD_some, Nat.mul_comm]

private theorem ofDigitChars_zeros (count : Nat) (run : List Char) :
    Nat.ofDigitChars 10 (List.replicate count '0' ++ run) 0 = Nat.ofDigitChars 10 run 0 := by
  induction count with
  | zero => rfl
  | succ count ih => exact ih

variable {before middle after : List Char}

private theorem dropWhile_blank_append (nonempty : middle ≠ []) (visible : ∀ c ∈ middle, isBlank c = false) :
    (before ++ (middle ++ after)).dropWhile isBlank = before.dropWhile isBlank ++ (middle ++ after) := by
  obtain ⟨first, rest, rfl⟩ := List.exists_cons_of_ne_nil nonempty
  have stays : (first :: rest ++ after).dropWhile isBlank = first :: rest ++ after :=
    List.dropWhile_cons_of_neg (by simp [visible first List.mem_cons_self])
  rw [List.dropWhile_append, stays]
  split
  next blank => rw [List.isEmpty_iff.mp blank, List.nil_append]
  next => rfl

private theorem trimList_append (nonempty : middle ≠ []) (visible : ∀ c ∈ middle, isBlank c = false) :
    trimList (before ++ (middle ++ after)) = before.dropWhile isBlank ++ (middle ++ after.rdropWhile isBlank) := by
  have reversed : ∀ c ∈ middle.reverse, isBlank c = false := fun c member => visible c (List.mem_reverse.mp member)
  rw [trimList, dropWhile_blank_append nonempty visible, List.reverse_append, List.reverse_append, List.append_assoc,
    dropWhile_blank_append (List.reverse_ne_nil_iff.mpr nonempty) reversed, List.reverse_append, List.reverse_append,
    List.reverse_reverse, List.reverse_reverse, List.append_assoc]
  rfl

end Text

namespace Segment

def kind : Segment → Version.CharacterKind
  | word _ => .letter
  | number _ => .digit

def IsBounded : Segment → Prop
  | word _ => True
  | number value => value < Version.numberLimit

end Segment

namespace Version

variable {c : Char} {segment : Segment}

private theorem kind_eq_iff : kind c = segment.kind ↔ segment.inRun c = true := by
  have exclusive : Text.isLetter c = true → Text.isDigit c = false := not_isDigit_of_isLetter
  have other : ∀ of : CharacterKind, of = .digit ∨ of = .letter →
      (if isSeparator c then CharacterKind.separator else .other) ≠ of := by
    rintro of (rfl | rfl) <;> split <;> nofun
  unfold kind
  cases segment with
  | number value =>
    change _ = CharacterKind.digit ↔ Text.isDigit c = true
    cases digit : Text.isDigit c <;> cases letter : Text.isLetter c <;> simp [other]
  | word letters =>
    change _ = CharacterKind.letter ↔ Text.isLetter c = true
    cases letter : Text.isLetter c
    · cases digit : Text.isDigit c <;> simp [other]
    · simp [exclusive letter]

private theorem kind_ne_of_inRun {d : Char} (inside : segment.inRun c = true) (outside : segment.inRun d = false) :
    kind c ≠ kind d := by
  rw [kind_eq_iff.mpr inside]
  intro same
  rw [kind_eq_iff.mp same.symm] at outside
  cases outside

private theorem isLegible_iff : isLegible c = true ↔ Item.isNameCharacter c = true ∨ c = '.' := by
  simp only [isLegible, isSeparator, Item.isNameCharacter, Bool.or_eq_true, beq_iff_eq]
  tauto

private theorem not_isBlank_of_isLegible (legible : isLegible c = true) : Text.isBlank c = false := by
  rcases isLegible_iff.mp legible with named | rfl
  · exact Item.isBlank_of_isNameCharacter named
  · rfl

variable {text gap first second run : List Char} {segments others : List Segment}

private theorem readRuns_append_eq_some_iff (differ : ∀ c ∈ first.getLast?, ∀ d ∈ second.head?, kind c ≠ kind d) :
    readRuns (first ++ second) = some segments ↔
      ∃ front back, readRuns first = some front ∧ readRuns second = some back ∧ front ++ back = segments := by
  rw [readRuns_append differ]
  simp only [Option.bind_eq_some_iff, Option.map_eq_some_iff, exists_and_left]

private theorem readRuns_gap (separators : ∀ c ∈ gap, isSeparator c = true) : readRuns gap = some [] := by
  cases gap with
  | nil => rfl
  | cons first rest =>
    rw [readRuns_alike (List.cons_ne_nil _ _) fun c member => kind_of_isSeparator (separators c member), readRun,
      List.head?_cons, Option.map_some, kind_of_isSeparator (separators first List.mem_cons_self)]

private theorem readRuns_run (nonempty : run ≠ []) (inside : ∀ c ∈ run, segment.inRun c = true)
    (read : segment.IsReadFrom run) :
    readRuns run = some segments ↔ segments = [segment] ∧ segment.IsBounded := by
  obtain ⟨first, rest, rfl⟩ := List.exists_cons_of_ne_nil nonempty
  rw [readRuns_alike nonempty fun c member => kind_eq_iff.mpr (inside c member), readRun, List.head?_cons, Option.map_some,
    kind_eq_iff.mpr (inside first List.mem_cons_self)]
  cases segment with
  | word letters =>
    cases read
    simp [Segment.kind, Segment.IsBounded, eq_comm]
  | number value =>
    cases read
    simp [Segment.kind, Segment.IsBounded, Text.digitsValue_eq_ofDigitChars inside, eq_comm, and_comm]

private theorem Reads.readRuns_iff (reads : Reads text segments) :
    readRuns text = some others ↔ others = segments ∧ ∀ segment ∈ segments, segment.IsBounded := by
  induction reads generalizing others with
  | gap separators => simp [readRuns_gap separators, eq_comm]
  | @run gap run rest segment segments separators maximal read later ih =>
    -- Nothing of the same kind is on the other side of either seam, so the runs are cut there.
    have afterGap : ∀ c ∈ gap.getLast?, ∀ d ∈ (run ++ rest).head?, kind c ≠ kind d :=
      fun c member d next => (kind_ne_of_inRun (maximal.inRun_of_head d next) (maximal.begins c member)).symm
    have afterRun : ∀ c ∈ run.getLast?, ∀ d ∈ rest.head?, kind c ≠ kind d :=
      fun c member d next => kind_ne_of_inRun (maximal.inside c (List.mem_of_mem_getLast? member)) (maximal.ends d next)
    rw [readRuns_append_eq_some_iff afterGap, readRuns_gap separators]
    simp only [readRuns_append_eq_some_iff afterRun, readRuns_run maximal.nonempty maximal.inside read, ih, List.forall_mem_cons,
      Option.some.injEq]
    constructor
    · rintro ⟨_, _, rfl, ⟨_, _, ⟨rfl, bounded⟩, ⟨rfl, others⟩, rfl⟩, rfl⟩
      exact ⟨rfl, bounded, others⟩
    · rintro ⟨rfl, bounded, others⟩
      exact ⟨_, _, rfl, ⟨_, _, ⟨rfl, bounded⟩, ⟨rfl, others⟩, rfl⟩, rfl⟩

theorem segments?_eq_some_iff :
    segments? text = some segments ↔ Reads text segments ∧ segments ≠ [] ∧ ∀ segment ∈ segments, segment.IsBounded := by
  rw [segments?_eq_some_iff_readRuns]
  constructor
  · rintro ⟨run, nonempty⟩
    have signs := (characters_of_segments? (segments?_eq_some_iff_readRuns.mpr ⟨run, nonempty⟩)).2
    obtain ⟨found, reads⟩ := Reads.of_isLegible fun c member => isLegible_iff.mpr (signs c member)
    obtain ⟨rfl, bounded⟩ := reads.readRuns_iff.mp run
    exact ⟨reads, nonempty, bounded⟩
  · rintro ⟨reads, nonempty, bounded⟩
    exact ⟨reads.readRuns_iff.mpr ⟨rfl, bounded⟩, nonempty⟩

theorem toOption_parse (text : String) : (parse text).toOption.map (·.segments) = segments? (Text.trim text).toList := by
  unfold parse
  dsimp only
  split
  next empty =>
    have nothing : Text.trim text = "" := String.isEmpty_iff.mp empty
    rw [nothing]
    rfl
  next =>
    split
    next found => exact found.symm
    next refused => exact refused.symm

private theorem Reads.isBounded_iff (reads : Reads text segments) :
    (∀ segment ∈ segments, segment.IsBounded) ↔ ∀ before run after, text = before ++ (run ++ after) →
      MaximalRun Text.isDigit before run after → Nat.ofDigitChars 10 run 0 < Nat.pow 2 64 := by
  constructor
  · intro bounded before run after same maximal
    have member : .number (Nat.ofDigitChars 10 run 0) ∈ segments := reads.mem_iff.mpr ⟨before, run, after, same, maximal, rfl⟩
    exact bounded _ member
  · intro small segment member
    obtain ⟨before, run, after, same, maximal, read⟩ := reads.mem_iff.mp member
    cases segment with
    | word letters => trivial
    | number value =>
      cases read
      exact small before run after same maximal

section Parsing

variable {spelling other : String} {version another : Version}

theorem segments?_of_parse (read : parse spelling = .ok version) :
    segments? (Text.trim spelling).toList = some version.segments := by
  rw [← toOption_parse, toOption_eq_some.mpr read, Option.map_some]

theorem isOk_parse_iff :
    (parse spelling).isOk = true ↔ ∃ segments, segments? (Text.trim spelling).toList = some segments := by
  rw [← toOption_parse]
  cases parse spelling <;> simp [Except.isOk, Except.toBool, Except.toOption]

theorem accepts_iff : (parse spelling).isOk = true ↔
    (∀ c ∈ (Text.trim spelling).toList, isLegible c = true) ∧
      (∃ c ∈ (Text.trim spelling).toList, Text.isAlphanumeric c = true) ∧
      ∀ before run after, (Text.trim spelling).toList = before ++ (run ++ after) →
        MaximalRun Text.isDigit before run after → Nat.ofDigitChars 10 run 0 < Nat.pow 2 64 := by
  simp only [isOk_parse_iff, segments?_eq_some_iff]
  constructor
  · rintro ⟨segments, reads, nonempty, bounded⟩
    exact ⟨reads.isLegible_of_mem, reads.ne_nil_iff.mp nonempty, reads.isBounded_iff.mp bounded⟩
  · rintro ⟨legible, found, small⟩
    obtain ⟨segments, reads⟩ := Reads.of_isLegible legible
    exact ⟨segments, reads, reads.ne_nil_iff.mpr found, reads.isBounded_iff.mpr small⟩

theorem reads_iff_of_parse (read : parse spelling = .ok version) :
    Reads (Text.trim spelling).toList segments ↔ segments = version.segments := by
  have reads := (segments?_eq_some_iff.mp (segments?_of_parse read)).1
  exact ⟨fun again => again.unique reads, fun same => same ▸ reads⟩

theorem beq_iff_of_parse (read : parse spelling = .ok version) (again : parse other = .ok another) :
    (version == another) = true ↔
      ∃ segments, Reads (Text.trim spelling).toList segments ∧ Reads (Text.trim other).toList segments := by
  simp only [reads_iff_of_parse read, reads_iff_of_parse again, exists_eq_left]
  rw [beq_eq, beq_iff_eq]

private theorem sameOutcome_of_segments?
    (same : segments? (Text.trim spelling).toList = segments? (Text.trim other).toList) :
    SameOutcome (parse spelling) (parse other) := by
  rw [← toOption_parse, ← toOption_parse] at same
  rw [SameOutcome]
  cases first : (parse spelling).toOption with
  | none =>
    rw [first, Option.map_none, eq_comm, Option.map_eq_none_iff] at same
    rw [same]
    exact .none
  | some version =>
    rw [first, Option.map_some, eq_comm, Option.map_eq_some_iff] at same
    obtain ⟨another, second, equal⟩ := same
    rw [second]
    exact .some (by rw [beq_eq, equal, BEq.rfl])

end Parsing

/-- What can be written in place of a piece of a text without a change of the runs: another
separator, one more between a digit and a letter, and zeros in front of a number. -/
inductive Respelled (before after : List Char) : List Char → List Char → Prop
  | exchange {one other : Char} (separator : isSeparator one = true) (another : isSeparator other = true) :
    Respelled before after [one] [other]
  | separate {last next sign : Char} (boundary : Text.isDigit last = true ∧ Text.isLetter next = true ∨
      Text.isLetter last = true ∧ Text.isDigit next = true) (separator : isSeparator sign = true) :
    Respelled before after [last, next] [last, sign, next]
  | zeros {run : List Char} (maximal : MaximalRun Text.isDigit before run after) (count : Nat) :
    Respelled before after run (List.replicate count '0' ++ run)

namespace Respelled

variable {before after piece again : List Char}

private theorem apart_boundary {last next : Char} (boundary : Text.isDigit last = true ∧ Text.isLetter next = true ∨
    Text.isLetter last = true ∧ Text.isDigit next = true) : Apart (before ++ [last]) (next :: after) := by
  rw [Apart, List.getLast?_concat]
  rintro _ ⟨⟩ _ ⟨⟩ segment ⟨one, other⟩
  -- A segment with the letter of the two is a word, and one with the digit a number.
  rcases boundary with ⟨digit, letter⟩ | ⟨letter, digit⟩
  · have digits : (Segment.number 0).inRun = segment.inRun := Segment.inRun_eq_of_common digit one
    rw [← digits] at other
    exact Bool.false_ne_true ((not_isDigit_of_isLetter letter).symm.trans other)
  · have digits : (Segment.number 0).inRun = segment.inRun := Segment.inRun_eq_of_common digit other
    rw [← digits] at one
    exact Bool.false_ne_true ((not_isDigit_of_isLetter letter).symm.trans one)

theorem isLegible_of_mem (respelled : Respelled before after piece again) :
    (∀ c ∈ piece, isLegible c = true) ∧ ∀ c ∈ again, isLegible c = true := by
  cases respelled with
  | exchange separator another =>
    simp [isLegible, separator, another]
  | separate boundary separator =>
    rcases boundary with ⟨digit, letter⟩ | ⟨letter, digit⟩
    all_goals simp [isLegible, Text.isAlphanumeric, separator, digit, letter]
  | zeros maximal count =>
    have digits : ∀ c ∈ piece, isLegible c = true := fun c member => by
      simp [isLegible, Text.isAlphanumeric, maximal.inside c member]
    exact ⟨digits, List.forall_mem_append.mpr ⟨fun c member => List.eq_of_mem_replicate member ▸ rfl, digits⟩⟩

private theorem exists_reads (respelled : Respelled before after piece again) (front : ∀ c ∈ before, isLegible c = true)
    (back : ∀ c ∈ after, isLegible c = true) :
    ∃ segments, Reads (before ++ (piece ++ after)) segments ∧ Reads (before ++ (again ++ after)) segments := by
  cases respelled with
  | exchange separator another =>
    obtain ⟨segments, one⟩ := Reads.of_isLegible front
    obtain ⟨others, other⟩ := Reads.of_isLegible back
    exact ⟨segments ++ others,
      one.append (.gap_append (List.forall_mem_singleton.mpr separator) other) (apart_separator separator),
      one.append (.gap_append (List.forall_mem_singleton.mpr another) other) (apart_separator another)⟩
  | @separate last next sign boundary separator =>
    have signs := (separate boundary separator : Respelled before after _ _).isLegible_of_mem.1
    obtain ⟨left, right⟩ := List.forall_mem_cons.mp signs
    obtain ⟨segments, one⟩ := Reads.of_isLegible (List.forall_mem_append.mpr ⟨front, List.forall_mem_singleton.mpr left⟩)
    obtain ⟨others, other⟩ := Reads.of_isLegible (List.forall_mem_append.mpr ⟨right, back⟩)
    have together := one.append other (apart_boundary boundary)
    have parted := one.append (.gap_append (List.forall_mem_singleton.mpr separator) other) (apart_separator separator)
    rw [List.append_assoc] at together parted
    exact ⟨segments ++ others, together, parted⟩
  | @zeros run maximal count =>
    obtain ⟨segments, one⟩ := Reads.of_isLegible front
    obtain ⟨others, other⟩ := Reads.of_isLegible back
    have longer : MaximalRun Text.isDigit before (List.replicate count '0' ++ piece) after :=
      { maximal with
        nonempty := List.append_ne_nil_of_right_ne_nil _ maximal.nonempty
        inside := List.forall_mem_append.mpr ⟨fun c member => List.eq_of_mem_replicate member ▸ rfl, maximal.inside⟩ }
    exact ⟨segments ++ .number (Nat.ofDigitChars 10 piece 0) :: others, one.append_run other maximal rfl,
      one.append_run other longer (Text.ofDigitChars_zeros count piece)⟩

private theorem reads_iff (respelled : Respelled before after piece again) :
    Reads (before ++ (piece ++ after)) segments ↔ Reads (before ++ (again ++ after)) segments := by
  constructor
  · intro reads
    obtain ⟨front, rest⟩ := List.forall_mem_append.mp reads.isLegible_of_mem
    obtain ⟨others, first, second⟩ := respelled.exists_reads front (List.forall_mem_append.mp rest).2
    exact reads.unique first ▸ second
  · intro reads
    obtain ⟨front, rest⟩ := List.forall_mem_append.mp reads.isLegible_of_mem
    obtain ⟨others, first, second⟩ := respelled.exists_reads front (List.forall_mem_append.mp rest).2
    exact reads.unique second ▸ first

private theorem segments?_eq (respelled : Respelled before after piece again) :
    segments? (before ++ (piece ++ after)) = segments? (before ++ (again ++ after)) := by
  ext segments
  rw [segments?_eq_some_iff, segments?_eq_some_iff, respelled.reads_iff]

/-- Trimming the text around a piece takes away white space only, so no number begins or ends there anew. -/
theorem trimmed (respelled : Respelled before after piece again) :
    Respelled (before.dropWhile Text.isBlank) (after.rdropWhile Text.isBlank) piece again := by
  cases respelled with
  | exchange separator another => exact exchange separator another
  | separate boundary separator => exact separate boundary separator
  | zeros maximal count =>
    refine zeros { maximal with begins := fun c last => ?_, ends := fun c next => ?_ } count
    · refine maximal.begins c ?_
      rw [← List.takeWhile_append_dropWhile (p := Text.isBlank) (l := before)]
      exact List.mem_getLast?_append_of_mem_getLast? last
    · refine maximal.ends c ?_
      obtain ⟨blank, whole⟩ := List.rdropWhile_prefix Text.isBlank (l := after)
      rw [← whole]
      exact List.mem_head?_append_of_mem_head? next

private theorem ne_nil (respelled : Respelled before after piece again) : piece ≠ [] ∧ again ≠ [] := by
  cases respelled with
  | exchange => exact ⟨List.cons_ne_nil _ _, List.cons_ne_nil _ _⟩
  | separate => exact ⟨List.cons_ne_nil _ _, List.cons_ne_nil _ _⟩
  | zeros maximal => exact ⟨maximal.nonempty, List.append_ne_nil_of_right_ne_nil _ maximal.nonempty⟩

/-- A version is the same when a piece of its text is respelled, white space around or not. -/
theorem sameOutcome (respelled : Respelled before after piece again) :
    SameOutcome (parse (String.ofList (before ++ (piece ++ after)))) (parse (String.ofList (before ++ (again ++ after)))) := by
  have visible : ∀ {piece : List Char}, (∀ c ∈ piece, isLegible c = true) → ∀ c ∈ piece, Text.isBlank c = false :=
    fun legible c member => not_isBlank_of_isLegible (legible c member)
  apply sameOutcome_of_segments?
  rw [Text.trim, Text.trim, String.toList_ofList, String.toList_ofList, String.toList_ofList, String.toList_ofList,
    Text.trimList_append respelled.ne_nil.1 (visible respelled.isLegible_of_mem.1),
    Text.trimList_append respelled.ne_nil.2 (visible respelled.isLegible_of_mem.2)]
  exact respelled.trimmed.segments?_eq

end Respelled

/-- Parsing a version is cutting it into its maximal runs. It accepts a trimmed text of digits,
letters and separators with some run and with small numbers only, and what it gives are the
segments of that text. So versions are equal if they have the same runs in the same order, and
none of the respellings changes one. -/
theorem parse_reads_maximal_runs (spelling : String) :
    ((parse spelling).isOk = true ↔
      (∀ c ∈ (Text.trim spelling).toList, isLegible c = true) ∧
      (∃ c ∈ (Text.trim spelling).toList, Text.isAlphanumeric c = true) ∧
      ∀ before run after, (Text.trim spelling).toList = before ++ (run ++ after) →
        MaximalRun Text.isDigit before run after → Nat.ofDigitChars 10 run 0 < Nat.pow 2 64) ∧
    (∀ version segments, parse spelling = .ok version →
      (Reads (Text.trim spelling).toList segments ↔ segments = version.segments)) ∧
    (∀ other version another, parse spelling = .ok version → parse other = .ok another →
      ((version == another) = true ↔
        ∃ segments, Reads (Text.trim spelling).toList segments ∧ Reads (Text.trim other).toList segments)) ∧
    ∀ before piece again after, spelling = String.ofList (before ++ (piece ++ after)) →
      Respelled before after piece again →
      SameOutcome (parse spelling) (parse (String.ofList (before ++ (again ++ after)))) := by
  refine ⟨accepts_iff, fun _ _ => reads_iff_of_parse, fun _ _ _ => beq_iff_of_parse, ?_⟩
  rintro before piece again after rfl respelled
  exact respelled.sameOutcome

/-- Other separators, more of them and zeros do not matter. -/
theorem release_is_spelled_freely :
    (∃ version another, parse "1.2rc3" = .ok version ∧ parse " 1-2_rc03" = .ok another ∧
      Reads "1.2rc3".toList [.number 1, .number 2, .word "rc", .number 3] ∧ (version == another) = true) ∧
    Respelled ['1', '.'] ['r', 'c', '3'] ['2'] ['0', '0', '2'] ∧
      SameOutcome (parse "1.2rc3") (parse "1.002rc3") := by
  have checked : (do
      let version ← parse "1.2rc3"
      let another ← parse " 1-2_rc03"
      return decide (version.segments = [.number 1, .number 2, .word "rc", .number 3]) &&
        decide (another.segments = version.segments) : Except Error Bool).toOption = some true := by decide +kernel
  obtain ⟨version, read, run⟩ := bind_eq_ok.mp (toOption_eq_some.mp checked)
  obtain ⟨another, readAgain, run⟩ := bind_eq_ok.mp run
  obtain ⟨segments, same⟩ := Bool.and_eq_true_iff.mp (Except.ok.inj run)
  obtain ⟨_, reads, equal, respelled⟩ := parse_reads_maximal_runs "1.2rc3"
  obtain ⟨_, readsAgain, _⟩ := parse_reads_maximal_runs " 1-2_rc03"
  have runs := (reads version _ read).mpr rfl
  have runsAgain := (readsAgain another _ readAgain).mpr (of_decide_eq_true same).symm
  have alike := (equal _ version another read readAgain).mpr ⟨_, runs, runsAgain⟩
  have zeros : Respelled ['1', '.'] ['r', 'c', '3'] ['2'] ['0', '0', '2'] := by
    refine .zeros ⟨List.cons_ne_nil _ _, List.forall_mem_singleton.mpr rfl, ?_, ?_⟩ 2
    · rintro _ ⟨⟩
      rfl
    · rintro _ ⟨⟩
      rfl
  have whole : "1.2rc3" = String.ofList (['1', '.'] ++ (['2'] ++ ['r', 'c', '3'])) := by decide +kernel
  have longer : "1.002rc3" = String.ofList (['1', '.'] ++ (['0', '0', '2'] ++ ['r', 'c', '3'])) := by decide +kernel
  refine ⟨⟨version, another, read, readAgain, ?_, alike⟩, zeros, ?_⟩
  · have trimmed : Text.trim "1.2rc3" = "1.2rc3" := by decide +kernel
    rw [← of_decide_eq_true segments, ← trimmed]
    exact runs
  · rw [longer]
    exact respelled _ _ _ _ whole zeros

end Version

end PackageRecipes
