import PackageRecipes.Proofs.AdmittedVersions
import PackageRecipes.Proofs.WrittenParts

/-! What the text of a list of versions says. Between the commas stand lone versions, each for
itself and all that extends it, and pairs of bounds around a colon. A text is refused just
if some part of it is neither, or is two bounds with no version between them, and a list
that is read admits what some part of its text does: putting the ranges in order, dropping
repetitions and letting one without bounds stand for all changes nothing. -/

namespace PackageRecipes
open Std

namespace Text

private theorem trimList_eq_nil {text : List Char} (blank : text.all isBlank = true) : trimList text = [] := by
  rw [trimList, List.dropWhile_eq_nil_iff.mpr (List.all_eq_true.mp blank)]
  rfl

private theorem mem_trimList {text : List Char} {c : Char} (member : c ∈ text) (visible : isBlank c = false) :
    c ∈ trimList text := by
  have kept : ∀ {text : List Char}, c ∈ text → c ∈ text.dropWhile isBlank := by
    intro text member
    rw [← List.takeWhile_append_dropWhile (p := isBlank) (l := text)] at member
    refine (List.mem_append.mp member).resolve_left fun blank => ?_
    rw [List.all_eq_true.mp List.all_takeWhile c blank] at visible
    cases visible
  exact List.mem_reverse.mpr (kept (List.mem_reverse.mpr (kept member)))

/-- What a text is cut into has the separator between its sides, and not in the first. -/
private theorem eq_of_cutOnce {separator : Char} {text before after : List Char}
    (cut : cutOnce separator text = some (before, after)) :
    separator ∉ before ∧ text = before ++ separator :: after := by
  induction text generalizing before with
  | nil => cases cut
  | cons c rest ih =>
    rw [cutOnce] at cut
    split at cut
    next here =>
      cases cut
      exact ⟨List.not_mem_nil, by rw [here]; rfl⟩
    next other =>
      obtain ⟨⟨inside, outside⟩, found, same⟩ := Option.map_eq_some_iff.mp cut
      cases same
      obtain ⟨apart, rfl⟩ := ih found
      exact ⟨by simp [apart, Ne.symm other], rfl⟩

end Text

namespace Version

private theorem isLE_compare_of_extends {short long : Version} (starts : short.segments <+: long.segments) :
    (compare short long).isLE = true := by
  obtain ⟨rest, same⟩ := starts
  change (List.compareLex compare short.segments long.segments).isLE = true
  rw [← same]
  induction short.segments with
  | nil => cases rest <;> rfl
  | cons first others ih => rwa [List.cons_append, List.compareLex_cons_cons, ReflOrd.compare_self, Ordering.eq_then]

/-- What lies between a version and itself as a bound is what extends it. -/
private theorem between_self_iff {bound version : Version} :
    ((compare bound version).isLE = true ∧ version.isWithinUpper bound = true) ↔ bound.segments <+: version.segments := by
  rw [isWithinUpper, Bool.or_eq_true, isPrefixOf, List.isPrefixOf_iff_prefix]
  constructor
  · rintro ⟨above, below | starts⟩
    · have same : bound.segments = version.segments :=
        LawfulEqOrd.eq_of_compare (α := List Segment) (OrientedCmp.isLE_antisymm above below)
      exact same ▸ List.prefix_refl _
    · exact starts
  · exact fun starts => ⟨isLE_compare_of_extends starts, .inr starts⟩

section Reading

variable {text : List Char} {version : Version} (read : parse (String.ofList text) = .ok version)
include read

private theorem text_of_parse : version.text.toList = Text.trimList text := by
  unfold parse at read
  dsimp only at read
  split at read
  next => cases read
  next =>
    split at read
    next =>
      cases read
      simp [Text.trim]
    next => cases read

private theorem visible_of_parse : text.all Text.isBlank = false := by
  rw [← Bool.not_eq_true]
  intro blank
  exact version.text_ne_nil ((text_of_parse read).trans (Text.trimList_eq_nil blank))

private theorem colon_notMem_of_parse : ':' ∉ text := by
  intro member
  refine version.not_mem_text (.inl rfl) ?_
  rw [text_of_parse read]
  exact Text.mem_trimList member rfl

end Reading

end Version

namespace VersionList

/-- What stands between two commas of a list: a version alone, or bounds that may be missing. -/
inductive Part where
  | lone (version : Version)
  | bounds (lower upper : Option Version)

namespace Part

def Admits : Part → Version → Prop
  | lone bound, version => bound.segments <+: version.segments
  | bounds lower upper, version =>
    (∀ bound ∈ lower, (compare bound version).isLE = true) ∧
      ∀ bound ∈ upper, (compare version bound).isLE = true ∨ bound.segments <+: version.segments

def LeavesRoom : Part → Prop
  | bounds (some lower) (some upper) => ∃ version, (bounds (some lower) (some upper)).Admits version
  | _ => True

/-- How a bound is written: as a version, or with white space at most if there is none. -/
inductive WritesBound : List Char → Option Version → Prop
  | missing {text : List Char} (blank : ∀ c ∈ text, Text.isBlank c = true) : WritesBound text none
  | given {text : List Char} {version : Version} (read : Version.parse (String.ofList text) = .ok version) :
    WritesBound text (some version)

/-- How a part is written: as a version, or as two bounds around its first colon. -/
inductive Writes : List Char → Part → Prop
  | lone {text : List Char} {version : Version} (read : Version.parse (String.ofList text) = .ok version) :
    Writes text (lone version)
  | bounds {before after : List Char} {lower upper : Option Version} (first : ':' ∉ before)
    (low : WritesBound before lower) (high : WritesBound after upper) :
    Writes (before ++ ':' :: after) (bounds lower upper)

def range : Part → VersionRange
  | lone version => .exact version
  | bounds lower upper => ⟨lower, upper⟩

private theorem contains_range_iff {part : Part} {version : Version} :
    part.range.contains version = true ↔ part.Admits version := by
  rw [VersionRange.contains, Bool.and_eq_true]
  cases part with
  | lone bound => exact Version.between_self_iff
  | bounds lower upper =>
    simp only [range, VersionRange.admitsBelow, Option.all_eq_true, Version.isWithinUpper, Version.isPrefixOf,
      Bool.or_eq_true, List.isPrefixOf_iff_prefix, Admits, Option.mem_def]

/-- The code looks at the lower bound alone, which is admitted if anything is. -/
private theorem isEmpty_range_iff {part : Part} : part.range.isEmpty = false ↔ part.LeavesRoom := by
  cases part with
  | lone version => exact iff_of_true (by simp [range, VersionRange.exact, VersionRange.isEmpty, VersionRange.admitsBelow]) trivial
  | bounds lower upper =>
    cases lower with
    | none => exact iff_of_true rfl trivial
    | some lower =>
      cases upper with
      | none => exact iff_of_true rfl trivial
      | some upper =>
        -- what the upper bound admits it admits below as well, the lower bound included
        rw [← Bool.not_eq_true, VersionRange.isEmpty_iff, not_forall]
        simp only [Bool.not_eq_false, contains_range_iff]
        rfl

private theorem parseBound_eq_ok_iff {text : List Char} {bound : Option Version} :
    VersionRange.parseBound text = .ok bound ↔ WritesBound text bound := by
  unfold VersionRange.parseBound
  constructor
  · intro read
    split at read
    next blank =>
      cases read
      exact .missing (List.all_eq_true.mp blank)
    next =>
      obtain ⟨version, found, rfl⟩ := map_eq_ok.mp read
      exact .given found
  · rintro (blank | read)
    · rw [if_pos (List.all_eq_true.mpr blank)]
    · rw [if_neg (by simp [Version.visible_of_parse read]), read]
      rfl

theorem WritesBound.unique {text : List Char} {bound other : Option Version} (first : WritesBound text bound)
    (second : WritesBound text other) : bound = other :=
  Except.ok.inj ((parseBound_eq_ok_iff.mpr first).symm.trans (parseBound_eq_ok_iff.mpr second))

theorem Writes.unique {text : List Char} {part other : Part} (first : part.Writes text) (second : other.Writes text) :
    part = other := by
  cases first with
  | lone read =>
    cases second with
    | lone again => rw [Except.ok.inj (read.symm.trans again)]
    | bounds => exact absurd (List.mem_append_right _ List.mem_cons_self) (Version.colon_notMem_of_parse read)
  | @bounds before after _ _ apart low high =>
    have cut := Text.cutOnce_run after apart
    generalize before ++ ':' :: after = text at cut second
    cases second with
    | lone again =>
      rw [Text.cutOnce_eq_none (Version.colon_notMem_of_parse again)] at cut
      cases cut
    | bounds apart' low' high' =>
      rw [Text.cutOnce_run _ apart'] at cut
      cases cut
      rw [low.unique low', high.unique high']

/-- A text is read as a range exactly if it writes a part that leaves room for a version. -/
theorem parse_eq_ok_iff {text : List Char} {range : VersionRange} :
    VersionRange.parse text = .ok range ↔ ∃ part, Writes text part ∧ part.LeavesRoom ∧ part.range = range := by
  constructor
  · intro read
    unfold VersionRange.parse at read
    split at read
    next =>
      obtain ⟨version, found, rfl⟩ := map_eq_ok.mp read
      exact ⟨.lone version, .lone found, trivial, rfl⟩
    next before after cut =>
      obtain ⟨apart, rfl⟩ := Text.eq_of_cutOnce cut
      obtain ⟨lower, low, read⟩ := bind_eq_ok.mp read
      obtain ⟨upper, high, read⟩ := bind_eq_ok.mp read
      dsimp only at read
      split at read
      next => cases read
      next inhabited =>
        cases read
        refine ⟨.bounds lower upper, ?_, isEmpty_range_iff.mp (Bool.not_eq_true _ ▸ inhabited), rfl⟩
        exact .bounds apart (parseBound_eq_ok_iff.mp low) (parseBound_eq_ok_iff.mp high)
  · rintro ⟨part, written, room, rfl⟩
    cases written with
    | lone read =>
      rw [VersionRange.parse, Text.cutOnce_eq_none (Version.colon_notMem_of_parse read)]
      exact map_eq_ok.mpr ⟨_, read, rfl⟩
    | bounds first low high =>
      rw [VersionRange.parse, Text.cutOnce_run _ first]
      refine bind_eq_ok.mpr ⟨_, parseBound_eq_ok_iff.mpr low, bind_eq_ok.mpr ⟨_, parseBound_eq_ok_iff.mpr high, ?_⟩⟩
      exact if_neg (Bool.not_eq_true _ ▸ isEmpty_range_iff.mpr room)

end Part

private theorem contains_normalize {ranges : List VersionRange} {version : Version} :
    (normalize ranges).contains version = true ↔ ∃ range ∈ ranges, range.contains version = true := by
  rw [contains_iff]
  constructor
  · rintro ⟨range, member, admits⟩
    obtain ⟨original, present, inside⟩ := exists_of_mem_normalize member
    exact ⟨original, present, VersionRange.contains_of_within inside admits⟩
  · rintro ⟨range, member, admits⟩
    obtain ⟨normal, kept, covers⟩ := exists_mem_normalize member
    exact ⟨normal, kept, VersionRange.contains_of_within covers admits⟩

/-- What stands between two commas is the text of a part that leaves room for a version, with
white space around it. -/
def IsPart (written : List Char) : Prop :=
  Text.trimList written ≠ [] ∧ ∃ part : Part, part.Writes (Text.trimList written) ∧ part.LeavesRoom

def readPart (fault : Error) (written : List Char) : Except Error VersionRange :=
  if (Text.trimList written).isEmpty then .error fault else VersionRange.parse (Text.trimList written)

theorem readPart_eq_ok_iff {fault : Error} {written : List Char} {range : VersionRange} :
    readPart fault written = .ok range ↔
      Text.trimList written ≠ [] ∧
        ∃ part : Part, part.Writes (Text.trimList written) ∧ part.LeavesRoom ∧ part.range = range := by
  unfold readPart
  split
  next empty => exact ⟨nofun, fun both => absurd (List.isEmpty_iff.mp empty) both.1⟩
  next nonempty =>
    rw [Part.parse_eq_ok_iff, List.isEmpty_iff] at *
    exact (and_iff_right nonempty).symm

private theorem readPart_isOk_iff {fault : Error} {written : List Char} :
    (readPart fault written).isOk = true ↔ IsPart written := by
  rw [isOk_iff]
  constructor
  · rintro ⟨range, read⟩
    obtain ⟨nonempty, part, spelled, room, _⟩ := readPart_eq_ok_iff.mp read
    exact ⟨nonempty, part, spelled, room⟩
  · rintro ⟨nonempty, part, spelled, room⟩
    exact ⟨part.range, readPart_eq_ok_iff.mpr ⟨nonempty, part, spelled, room, rfl⟩⟩

theorem parse_eq_ok_iff {text : String} {list : VersionList} :
    parse text = .ok list ↔
      ∃ ranges, (Text.fields ',' text.toList).mapM (readPart (.version text)) = .ok ranges ∧ normalize ranges = list :=
  map_eq_ok

theorem parse_isOk_iff {text : String} :
    (parse text).isOk = true ↔ ∀ written ∈ Text.fields ',' text.toList, IsPart written := by
  calc (parse text).isOk = true
    _ ↔ ((Text.fields ',' text.toList).mapM (readPart (.version text))).isOk = true := by
      simp only [isOk_iff, parse_eq_ok_iff]
      exact ⟨fun ⟨_, ranges, run, _⟩ => ⟨ranges, run⟩, fun ⟨ranges, run⟩ => ⟨_, ranges, run, rfl⟩⟩
    _ ↔ ∀ written ∈ Text.fields ',' text.toList, IsPart written := by simp only [mapM_isOk, readPart_isOk_iff]

/-- A text is read as a list exactly if each part between its commas is one, and the list
then admits the versions that some part admits. -/
theorem text_admits_what_its_parts_admit (text : String) :
    ((parse text).isOk = true ↔ ∀ written ∈ Text.fields ',' text.toList, IsPart written) ∧
    ∀ list, parse text = .ok list → ∀ version, list.contains version = true ↔
      ∃ written ∈ Text.fields ',' text.toList, ∃ part : Part, part.Writes (Text.trimList written) ∧ part.Admits version := by
  refine ⟨parse_isOk_iff, fun list read version => ?_⟩
  have parts := parse_isOk_iff.mp (isOk_iff.mpr ⟨list, read⟩)
  obtain ⟨ranges, run, rfl⟩ := parse_eq_ok_iff.mp read
  have each : ∀ written ∈ Text.fields ',' text.toList, ∃ range, readPart (.version text) written = .ok range ∧
      ∃ part : Part, part.Writes (Text.trimList written) ∧ part.range = range := by
    intro written member
    obtain ⟨nonempty, part, spelled, room⟩ := parts written member
    exact ⟨part.range, readPart_eq_ok_iff.mpr ⟨nonempty, part, spelled, room, rfl⟩, part, spelled, rfl⟩
  obtain ⟨_, again, ranged, sources⟩ := exists_mapM_eq_ok _ each
  cases run.symm.trans again
  rw [contains_normalize]
  constructor
  · rintro ⟨range, member, admits⟩
    obtain ⟨written, listed, part, spelled, rfl⟩ := sources range member
    exact ⟨written, listed, part, spelled, Part.contains_range_iff.mp admits⟩
  · rintro ⟨written, listed, part, spelled, admits⟩
    obtain ⟨range, member, other, alike, rfl⟩ := ranged written listed
    cases spelled.unique alike
    exact ⟨part.range, member, Part.contains_range_iff.mpr admits⟩

/-- A lower bound that extends the upper one leaves room for what extends it or lies between. -/
theorem extended_bound_admits : ∃ list version,
    parse "2, 1.2.3:1.2" = .ok list ∧ Version.parse "1.2.7" = .ok version ∧
      (∀ written ∈ Text.fields ',' "2, 1.2.3:1.2".toList, IsPart written) ∧ list.contains version = true := by
  have admitted : (do
      let range ← VersionRange.parse "1.2.3:1.2".toList
      let version ← Version.parse "1.2.7"
      return range.contains version).toOption = some true := by decide +kernel
  obtain ⟨range, readRange, admitted⟩ := bind_eq_ok.mp (toOption_eq_some.mp admitted)
  obtain ⟨version, readVersion, admitted⟩ := bind_eq_ok.mp admitted
  obtain ⟨list, read⟩ : ∃ list, parse "2, 1.2.3:1.2" = .ok list := isOk_iff.mp (by decide +kernel)
  obtain ⟨part, spelled, _, rfl⟩ := Part.parse_eq_ok_iff.mp readRange
  obtain ⟨parts, union⟩ := text_admits_what_its_parts_admit "2, 1.2.3:1.2"
  have admits := Part.contains_range_iff.mp (Except.ok.inj admitted)
  exact ⟨list, version, read, readVersion, parts.mp (isOk_iff.mpr ⟨list, read⟩),
    (union list read version).mpr ⟨" 1.2.3:1.2".toList, by decide +kernel, part, spelled, admits⟩⟩

example : (parse "1.3:1.2").isOk = false := by decide +kernel

end VersionList

end PackageRecipes
