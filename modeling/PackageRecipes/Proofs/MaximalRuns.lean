import Mathlib.Data.List.Basic
import PackageRecipes.Proofs.ScannedText
import PackageRecipes.Version

/-! The maximal runs of a text. A text of digits, letters and separators is made of its maximal
runs of digits and of letters, in order and with nothing but separators between them, and what
it is made of is determined. Texts can be put together wherever no run goes across the seam. -/

namespace PackageRecipes

/-- `run` is as long as a run of such characters can be where it stands. -/
structure MaximalRun (inRun : Char → Bool) (before run after : List Char) : Prop where
  nonempty : run ≠ []
  inside : ∀ c ∈ run, inRun c = true
  begins : ∀ c ∈ before.getLast?, inRun c = false
  ends : ∀ c ∈ after.head?, inRun c = false

namespace MaximalRun

variable {inRun : Char → Bool} {before run after : List Char}

theorem inRun_of_head (maximal : MaximalRun inRun before run after) : ∀ c ∈ (run ++ after).head?, inRun c = true := by
  obtain ⟨first, rest, rfl⟩ := List.exists_cons_of_ne_nil maximal.nonempty
  rintro _ ⟨⟩
  exact maximal.inside first List.mem_cons_self

theorem exists_last (maximal : MaximalRun inRun before run after) : ∃ c ∈ run.getLast?, inRun c = true :=
  ⟨run.getLast maximal.nonempty, List.getLast_mem_getLast? maximal.nonempty,
    maximal.inside _ (List.getLast_mem maximal.nonempty)⟩

private theorem of_takeWhile {first : Char} {rest : List Char} (starts : inRun first = true)
    (begins : ∀ c ∈ before.getLast?, inRun c = false) :
    MaximalRun inRun before ((first :: rest).takeWhile inRun) ((first :: rest).dropWhile inRun) where
  nonempty := by simp [starts]
  inside := List.all_eq_true.mp List.all_takeWhile
  begins := begins
  ends := by
    intro c member
    have stopped := List.head?_dropWhile_not inRun (first :: rest)
    rwa [Option.mem_def.mp member] at stopped

end MaximalRun

namespace Version

def isLegible (c : Char) : Bool :=
  Text.isAlphanumeric c || isSeparator c

variable {c d : Char}

theorem not_isDigit_of_isLetter (letter : Text.isLetter c = true) : Text.isDigit c = false := by
  rw [← Bool.not_eq_true]
  intro digit
  obtain ⟨_, below⟩ : '0' ≤ c ∧ c ≤ '9' := by simpa [Text.isDigit] using digit
  have above : ('a' ≤ c ∧ c ≤ 'z') ∨ 'A' ≤ c ∧ c ≤ 'Z' := by simpa [Text.isLetter] using letter
  rcases above with ⟨above, _⟩ | ⟨above, _⟩
  all_goals exact absurd (Char.le_trans above below) (by decide)

private theorem not_isAlphanumeric_of_isSeparator (separator : isSeparator c = true) :
    Text.isAlphanumeric c = false := by
  simp only [isSeparator, Bool.or_eq_true, beq_iff_eq] at separator
  rcases separator with (rfl | rfl) | rfl <;> rfl

end Version

namespace Segment

def inRun : Segment → Char → Bool
  | word _ => Text.isLetter
  | number _ => Text.isDigit

/-- The segment for a run of such characters. -/
def IsReadFrom (run : List Char) : Segment → Prop
  | word letters => String.ofList run = letters
  | number value => Nat.ofDigitChars 10 run 0 = value

variable {segment other : Segment} {c d : Char}

private theorem isAlphanumeric_of_inRun (inside : segment.inRun c = true) : Text.isAlphanumeric c = true := by
  rw [Text.isAlphanumeric, Bool.or_eq_true]
  cases segment with
  | word letters => exact .inl inside
  | number value => exact .inr inside

private theorem not_isSeparator_of_inRun (inside : segment.inRun c = true) : Version.isSeparator c = false := by
  rw [← Bool.not_eq_true]
  intro separator
  have alphanumeric := isAlphanumeric_of_inRun inside
  rw [Version.not_isAlphanumeric_of_isSeparator separator] at alphanumeric
  cases alphanumeric

/-- A character belongs to the runs of one sort of segments at most. -/
theorem inRun_eq_of_common (one : segment.inRun c = true) (another : other.inRun c = true) :
    segment.inRun = other.inRun := by
  cases segment with
  | word letters =>
    cases other with
    | word => rfl
    | number =>
      have apart := Version.not_isDigit_of_isLetter one
      rw [show Text.isDigit c = true from another] at apart
      cases apart
  | number value =>
    cases other with
    | number => rfl
    | word =>
      have apart := Version.not_isDigit_of_isLetter another
      rw [show Text.isDigit c = true from one] at apart
      cases apart

private theorem eq_of_isReadFrom {run : List Char} (same : segment.inRun = other.inRun) (read : segment.IsReadFrom run)
    (again : other.IsReadFrom run) : segment = other := by
  have apart : Text.isLetter ≠ Text.isDigit := fun same => nomatch congrFun same 'a'
  cases segment with
  | word letters =>
    cases other with
    | word => exact congrArg word (read.symm.trans again)
    | number => exact absurd same apart
  | number value =>
    cases other with
    | number => exact congrArg number (read.symm.trans again)
    | word => exact absurd same.symm apart

private theorem exists_isReadFrom (alphanumeric : Text.isAlphanumeric c = true) :
    ∃ inRun : Char → Bool, inRun c = true ∧ ∀ run, ∃ segment : Segment, segment.inRun = inRun ∧ segment.IsReadFrom run := by
  rw [Text.isAlphanumeric, Bool.or_eq_true] at alphanumeric
  rcases alphanumeric with letter | digit
  · exact ⟨Text.isLetter, letter, fun run => ⟨word (String.ofList run), rfl, rfl⟩⟩
  · exact ⟨Text.isDigit, digit, fun run => ⟨number (Nat.ofDigitChars 10 run 0), rfl, rfl⟩⟩

end Segment

namespace Version

/-- The maximal runs of digits and of letters in a text, in order, each as its segment.
Nothing else is in the text but separators. -/
inductive Reads : List Char → List Segment → Prop
  | gap {gap : List Char} (separators : ∀ c ∈ gap, isSeparator c = true) : Reads gap []
  | run {gap run rest : List Char} {segment : Segment} {segments : List Segment}
      (separators : ∀ c ∈ gap, isSeparator c = true) (maximal : MaximalRun segment.inRun gap run rest)
      (read : segment.IsReadFrom run) (later : Reads rest segments) : Reads (gap ++ (run ++ rest)) (segment :: segments)

def Apart (first second : List Char) : Prop :=
  ∀ c ∈ first.getLast?, ∀ d ∈ second.head?, ∀ segment : Segment, ¬ (segment.inRun c = true ∧ segment.inRun d = true)

variable {text gap first second before run after : List Char} {segment : Segment} {segments others : List Segment}

private theorem not_inRun_of_isSeparator {c : Char} (separator : isSeparator c = true) : segment.inRun c = false := by
  rw [← Bool.not_eq_true]
  intro inside
  rw [Segment.not_isSeparator_of_inRun inside] at separator
  cases separator

private theorem not_inRun_of_gap (separators : ∀ c ∈ gap, isSeparator c = true) :
    ∀ c ∈ gap.getLast?, segment.inRun c = false :=
  fun c member => not_inRun_of_isSeparator (separators c (List.mem_of_mem_getLast? member))

theorem apart_separator {sign : Char} (separator : isSeparator sign = true) : Apart first (sign :: second) := by
  rintro c _ _ ⟨⟩ segment ⟨_, inside⟩
  rw [not_inRun_of_isSeparator separator] at inside
  cases inside

private theorem apart_run (maximal : MaximalRun segment.inRun before run after) : Apart run after := by
  rintro c member d next other ⟨last, goesOn⟩
  have same := Segment.inRun_eq_of_common (maximal.inside c (List.mem_of_mem_getLast? member)) last
  rw [← same, maximal.ends d next] at goesOn
  cases goesOn

private theorem apart_before_run (maximal : MaximalRun segment.inRun before run after) :
    Apart before (run ++ after) := by
  rintro c member d next other ⟨last, goesOn⟩
  have same := Segment.inRun_eq_of_common (maximal.inRun_of_head d next) goesOn
  rw [← same, maximal.begins c member] at last
  cases last

namespace Reads

theorem isLegible_of_mem (reads : Reads text segments) : ∀ c ∈ text, isLegible c = true := by
  induction reads with
  | gap separators =>
    intro c member
    rw [isLegible, separators c member, Bool.or_true]
  | run separators maximal read later ih =>
    intro c member
    rw [List.mem_append, List.mem_append] at member
    rcases member with inGap | inRun | inRest
    · rw [isLegible, separators c inGap, Bool.or_true]
    · rw [isLegible, Segment.isAlphanumeric_of_inRun (maximal.inside c inRun), Bool.true_or]
    · exact ih c inRest

theorem ne_nil_iff (reads : Reads text segments) : segments ≠ [] ↔ ∃ c ∈ text, Text.isAlphanumeric c = true := by
  cases reads with
  | gap separators =>
    refine ⟨fun impossible => absurd rfl impossible, ?_⟩
    rintro ⟨c, member, alphanumeric⟩
    rw [not_isAlphanumeric_of_isSeparator (separators c member)] at alphanumeric
    cases alphanumeric
  | run separators maximal read later =>
    obtain ⟨c, member, inside⟩ := maximal.exists_last
    refine ⟨fun _ => ⟨c, ?_, Segment.isAlphanumeric_of_inRun inside⟩, fun _ => List.cons_ne_nil _ _⟩
    simp [List.mem_of_mem_getLast? member]

theorem gap_append (separators : ∀ c ∈ gap, isSeparator c = true) (reads : Reads text segments) :
    Reads (gap ++ text) segments := by
  cases reads with
  | gap more => exact .gap (List.forall_mem_append.mpr ⟨separators, more⟩)
  | run more maximal read later =>
    have together := List.forall_mem_append.mpr ⟨separators, more⟩
    rw [← List.append_assoc]
    exact .run together { maximal with begins := not_inRun_of_gap together } read later

/-- Texts are put together where no run goes on, and their segments with them. -/
theorem append (one : Reads first segments) (other : Reads second others) (apart : Apart first second) :
    Reads (first ++ second) (segments ++ others) := by
  induction one with
  | gap separators => exact gap_append separators other
  | @run gap run rest segment segments separators maximal read later ih =>
    have inner : Apart rest second := fun c member =>
      apart c (List.mem_getLast?_append_of_mem_getLast? (List.mem_getLast?_append_of_mem_getLast? member))
    rw [List.append_assoc, List.append_assoc]
    refine .run separators { maximal with ends := fun d next => ?_ } read (ih inner)
    cases rest with
    | cons => exact maximal.ends d next
    | nil =>
      -- The run is the last thing in the first text, so the seam is where it ends.
      obtain ⟨c, member, inside⟩ := maximal.exists_last
      rw [List.append_nil] at apart
      have stops := apart c (List.mem_getLast?_append_of_mem_getLast? member) d next segment
      rw [← Bool.not_eq_true]
      exact fun goesOn => stops ⟨inside, goesOn⟩

/-- A run stands in a text between what is before and what is after it. -/
theorem append_run (one : Reads before segments) (other : Reads after others)
    (maximal : MaximalRun segment.inRun before run after) (read : segment.IsReadFrom run) :
    Reads (before ++ (run ++ after)) (segments ++ segment :: others) := by
  refine one.append ?_ (apart_before_run maximal)
  rw [← List.nil_append (run ++ after)]
  exact .run nofun { maximal with begins := nofun } read other

private theorem front_unique {lead start rest : List Char} {other : Segment}
    (separators : ∀ c ∈ gap, isSeparator c = true)
    (maximal : MaximalRun segment.inRun gap run after) (more : ∀ c ∈ lead, isSeparator c = true)
    (again : MaximalRun other.inRun lead start rest) (same : gap ++ (run ++ after) = lead ++ (start ++ rest)) :
    segment.inRun = other.inRun ∧ run = start ∧ after = rest := by
  have ends := fun c member => Segment.not_isSeparator_of_inRun (maximal.inRun_of_head c member)
  have endsAgain := fun c member => Segment.not_isSeparator_of_inRun (again.inRun_of_head c member)
  have fronts : run ++ after = start ++ rest := by
    rw [← dropWhile_run separators ends, same, dropWhile_run more endsAgain]
  obtain ⟨first, others, rfl⟩ := List.exists_cons_of_ne_nil maximal.nonempty
  have kinds : segment.inRun = other.inRun := by
    refine Segment.inRun_eq_of_common (maximal.inRun_of_head first rfl) (again.inRun_of_head first ?_)
    rw [← fronts]
    rfl
  refine ⟨kinds, ?_, ?_⟩
  · rw [← takeWhile_run maximal.inside maximal.ends, fronts, kinds, takeWhile_run again.inside again.ends]
  · rw [← dropWhile_run maximal.inside maximal.ends, fronts, kinds, dropWhile_run again.inside again.ends]

theorem unique (reads : Reads text segments) (again : Reads text others) : segments = others := by
  induction reads generalizing others with
  | gap separators =>
    by_contra more
    exact (gap separators).ne_nil_iff.mpr (again.ne_nil_iff.mp (Ne.symm more)) rfl
  | @run gap run rest segment segments separators maximal read later ih =>
    have found := (Reads.run separators maximal read later).ne_nil_iff.mp (List.cons_ne_nil _ _)
    generalize same : gap ++ (run ++ rest) = text at again found
    cases again with
    | gap all => exact absurd rfl ((Reads.gap all).ne_nil_iff.mpr found)
    | run more other readAgain laterAgain =>
      obtain ⟨kinds, rfl, rfl⟩ := front_unique separators maximal more other same
      rw [Segment.eq_of_isReadFrom kinds read readAgain, ih laterAgain]

/-- Every text of digits, letters and separators is made of segments. -/
theorem of_isLegible (legible : ∀ c ∈ text, isLegible c = true) : ∃ segments, Reads text segments := by
  induction size : text.length using Nat.strongRecOn generalizing text with
  | ind size ih =>
    have whole := List.takeWhile_append_dropWhile (p := isSeparator) (l := text)
    have separators : ∀ c ∈ text.takeWhile isSeparator, isSeparator c = true := List.all_eq_true.mp List.all_takeWhile
    cases remains : text.dropWhile isSeparator with
    | nil =>
      rw [remains, List.append_nil] at whole
      exact ⟨[], .gap (whole ▸ separators)⟩
    | cons first others =>
      have present : ∀ c ∈ first :: others, c ∈ text := fun c member =>
        (List.dropWhile_sublist isSeparator).subset (remains ▸ member)
      have stops : isSeparator first = false := by
        have stopped := List.head?_dropWhile_not isSeparator text
        rwa [remains] at stopped
      have alphanumeric : Text.isAlphanumeric first = true := by
        simpa [isLegible, stops] using legible first (present first List.mem_cons_self)
      obtain ⟨inRun, starts, readable⟩ := Segment.exists_isReadFrom alphanumeric
      obtain ⟨segment, rfl, read⟩ := readable ((first :: others).takeWhile inRun)
      have maximal : MaximalRun segment.inRun _ _ ((first :: others).dropWhile segment.inRun) :=
        .of_takeWhile starts (not_inRun_of_gap separators)
      have shorter : ((first :: others).dropWhile segment.inRun).length < text.length := by
        have kept := List.length_dropWhile_le segment.inRun others
        have taken := List.length_dropWhile_le isSeparator text
        rw [remains, List.length_cons] at taken
        rw [List.dropWhile_cons_of_pos starts]
        omega
      obtain ⟨segments, later⟩ := ih _ (size ▸ shorter)
        (fun c member => legible c (present c ((List.dropWhile_sublist segment.inRun).subset member))) rfl
      refine ⟨segment :: segments, ?_⟩
      rw [← whole, remains, ← List.takeWhile_append_dropWhile (p := segment.inRun) (l := first :: others)]
      exact .run separators maximal read later

/-- The segments of a text are what its maximal runs are read as. -/
theorem mem_iff (reads : Reads text segments) : segment ∈ segments ↔ ∃ before run after, text = before ++ (run ++ after) ∧
    MaximalRun segment.inRun before run after ∧ segment.IsReadFrom run := by
  constructor
  · intro member
    induction reads with
    | gap => cases member
    | @run gap run rest first segments separators maximal read later ih =>
      rcases List.mem_cons.mp member with rfl | member
      · exact ⟨gap, run, rest, rfl, maximal, read⟩
      · obtain ⟨before, inner, after, rfl, within, readInner⟩ := ih member
        refine ⟨gap ++ (run ++ before), inner, after, by simp only [List.append_assoc], ?_, readInner⟩
        refine { within with begins := fun c last => ?_ }
        cases before with
        | nil =>
          -- The two runs touch, and no run goes on behind the first.
          obtain ⟨d, others, rfl⟩ := List.exists_cons_of_ne_nil within.nonempty
          rw [List.append_nil, List.getLast?_append_of_ne_nil _ maximal.nonempty] at last
          have stops := apart_run maximal c last d rfl segment
          rw [← Bool.not_eq_true]
          exact fun inside => stops ⟨inside, within.inside d List.mem_cons_self⟩
        | cons =>
          rw [← List.append_assoc, List.getLast?_append_cons] at last
          exact within.begins c last
  · rintro ⟨before, run, after, rfl, maximal, read⟩
    obtain ⟨legible, rest⟩ := List.forall_mem_append.mp reads.isLegible_of_mem
    obtain ⟨front, readsBefore⟩ := of_isLegible legible
    obtain ⟨back, readsAfter⟩ := of_isLegible (List.forall_mem_append.mp rest).2
    rw [reads.unique (readsBefore.append_run readsAfter maximal read)]
    simp

end Reads

end Version

end PackageRecipes
