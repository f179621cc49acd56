import PackageRecipes.Config
import PackageRecipes.Proofs.TextFields
import PackageRecipes.Resource

/-! Destinations below the stage. One that never leads above its starting point is
accepted whatever the stage is called, and stays below any directory it is joined to.
The check looks at where the walk ends alone, so one that climbs out and comes back by
the stage's own name is accepted as well. -/

namespace PackageRecipes

namespace Path

/-- Read from left to right, the components never lead above the place that they start
from, `depth` levels below it. -/
def neverRises : Nat → List Component → Bool
  | _, [] => true
  | depth, .here :: rest => neverRises depth rest
  | depth, .down _ :: rest => neverRises (depth + 1) rest
  | depth + 1, .up :: rest => neverRises depth rest
  | 0, .up :: _ => false
  | _, .root :: _ => false

/-- One more component on a path without `.` and needless `..`. There is nothing above
the root. -/
def settle (position : List Component) : Component → List Component
  | .root => [.root]
  | .here => position
  | .down name => position ++ [.down name]
  | .up =>
    match position.getLast? with
    | some (.down _) => position.dropLast
    | some .root => position
    | _ => position ++ [.up]

/-- The components without `.`, and with `..` in front only: what they stand for as long
as there are no links. -/
def normalize (components : List Component) : List Component :=
  components.foldl settle []

/-- Where components lead to from a place: so many levels above it, and then down along
the names on the track, the first of which was taken last. -/
structure Course where
  above : Nat
  track : List (List Char)

namespace Course

def follow : Course → List Component → Course
  | course, [] => course
  | ⟨above, track⟩, .down name :: rest => follow ⟨above, name :: track⟩ rest
  | ⟨above, _ :: track⟩, .up :: rest => follow ⟨above, track⟩ rest
  | ⟨above, []⟩, .up :: rest => follow ⟨above + 1, []⟩ rest
  | course, .here :: rest => follow course rest
  | course, .root :: rest => follow course rest

variable {course : Course} {components : List Component}

private theorem above_le_follow (course : Course) (components : List Component) :
    course.above ≤ (course.follow components).above := by
  fun_induction follow course components with
  | case1 => exact Nat.le_refl _
  | case2 _ _ _ _ ih | case3 _ _ _ _ ih | case5 _ _ ih | case6 _ _ ih => exact ih
  | case4 above rest ih => exact Nat.le_trans (Nat.le_succ above) ih

private theorem mem_track_follow {name : List Char} (member : name ∈ (course.follow components).track) :
    name ∈ course.track ∨ .down name ∈ components := by
  fun_induction follow course components with
  | case1 => exact .inl member
  | case2 above track taken rest ih =>
    rcases ih member with before | later
    · rcases List.mem_cons.mp before with rfl | earlier
      · exact .inr List.mem_cons_self
      · exact .inl earlier
    · exact .inr (List.mem_cons_of_mem _ later)
  | case3 above left track rest ih =>
    rcases ih member with before | later
    · exact .inl (List.mem_cons_of_mem left before)
    · exact .inr (List.mem_cons_of_mem _ later)
  | case4 _ _ ih | case5 _ _ ih | case6 _ _ ih =>
    exact (ih member).imp_right (List.mem_cons_of_mem _)

/-- Components that never lead above their start are those whose course stays there. -/
theorem above_follow_eq_zero_iff (relative : .root ∉ components) (track : List (List Char)) :
    (follow ⟨0, track⟩ components).above = 0 ↔ neverRises track.length components = true := by
  induction components generalizing track with
  | nil => simp [follow, neverRises]
  | cons component rest ih =>
    have later := List.not_mem_of_not_mem_cons relative
    cases component with
    | root => exact absurd List.mem_cons_self relative
    | here => exact ih later track
    | down name => exact ih later (name :: track)
    | up =>
      cases track with
      | cons _ track => exact ih later track
      | nil =>
        have climbs : 1 ≤ (follow ⟨1, []⟩ rest).above := above_le_follow ⟨1, []⟩ rest
        exact iff_of_false (Nat.ne_of_gt climbs) Bool.false_ne_true

def path (course : Course) : List Component :=
  List.replicate course.above .up ++ course.track.reverse.map .down

/-- Relative components stand for the course that they follow. -/
private theorem foldl_settle_path (relative : .root ∉ components) :
    components.foldl settle course.path = (course.follow components).path := by
  fun_induction follow course components with
  | case1 => rfl
  | case2 above track name rest ih =>
    rw [← ih (List.not_mem_of_not_mem_cons relative)]
    simp [path, settle]
  | case3 above name track rest ih =>
    rw [← ih (List.not_mem_of_not_mem_cons relative)]
    simp [path, settle]
  | case4 above rest ih =>
    rw [← ih (List.not_mem_of_not_mem_cons relative)]
    cases above with
    | zero => rfl
    | succ above => simp [path, settle, List.replicate_succ']
  | case5 course rest ih => exact ih (List.not_mem_of_not_mem_cons relative)
  | case6 course rest ih => exact absurd List.mem_cons_self relative

/-- What a course that starts at the end of `start` arrives at. -/
def place (start : List Component) (course : Course) : List Component :=
  start.take (start.length - course.above) ++ course.track.reverse.map .down

private theorem place_down (start : List Component) (above : Nat) (track : List (List Char)) (name : List Char) :
    place start ⟨above, name :: track⟩ = place start ⟨above, track⟩ ++ [.down name] := by
  simp [place]

private theorem parent?_concat (position : List Component) (component : Component) :
    parent? (position ++ [component]) = if component = .root then none else some position := by
  cases component <;> simp [parent?]

/-- The last of the levels that are left, above which the course leads next. -/
private theorem place_above {start : List Component} {above : Nat} (inside : above < start.length) :
    place start ⟨above, []⟩ = place start ⟨above + 1, []⟩ ++ [start[start.length - (above + 1)]] := by
  have next : start.length - above = start.length - (above + 1) + 1 := by omega
  simp [place, next]

/-- A walk from the end of `start` ends below it if its course climbs no further than
there are levels, and comes back down by the names of those that it has left. -/
private theorem isPrefix_walk_iff {start : List Component} (relative : .root ∉ components)
    (inside : course.above ≤ start.length) :
    (∃ position, components.foldlM Resource.step (place start course) = .ok position ∧ start <+: position) ↔
      (course.follow components).above ≤ start.length ∧
        start.drop (start.length - (course.follow components).above) <+:
          (course.follow components).track.reverse.map .down := by
  fun_induction follow course components with
  | case1 course =>
    have split := List.take_append_drop (start.length - course.above) start
    have same : start <+: place start course ↔
        start.drop (start.length - course.above) <+: course.track.reverse.map .down := by
      rw [place]
      conv => lhs; lhs; rw [← split]
      exact List.prefix_append_right_inj _
    simp [inside, same, pure, Except.pure]
  | case2 above track name rest ih =>
    rw [List.foldlM_cons, ← ih (List.not_mem_of_not_mem_cons relative) inside,
      place_down]
    rfl
  | case3 above name track rest ih =>
    rw [List.foldlM_cons, ← ih (List.not_mem_of_not_mem_cons relative) inside,
      place_down, Resource.step, parent?_concat]
    rfl
  | case4 above rest ih =>
    have later := List.not_mem_of_not_mem_cons relative
    have climbs : above + 1 ≤ (follow ⟨above + 1, []⟩ rest).above := above_le_follow ⟨above + 1, []⟩ rest
    by_cases level : above < start.length
    · by_cases root : start[start.length - (above + 1)] = .root
      · -- No name is the root, so what has been left cannot be come back to.
        refine iff_of_false ?_ ?_
        · rintro ⟨position, run, _⟩
          rw [List.foldlM_cons, place_above level, Resource.step, parent?_concat, if_pos root] at run
          cases run
        · rintro ⟨reached, again⟩
          have left : start[start.length - (above + 1)] ∈
              start.drop (start.length - (follow ⟨above + 1, []⟩ rest).above) :=
            List.mem_drop_iff_getElem.mpr
              ⟨(follow ⟨above + 1, []⟩ rest).above - (above + 1), by omega, by congr 1; omega⟩
          obtain ⟨name, _, named⟩ := List.mem_map.mp (again.subset left)
          rw [root] at named
          cases named
      · rw [List.foldlM_cons, ← ih later level, place_above level, Resource.step, parent?_concat, if_neg root]
        rfl
    · have top : start.length - above = 0 := by omega
      refine iff_of_false ?_ fun reached => absurd reached.1 (by omega)
      rintro ⟨position, run, _⟩
      rw [List.foldlM_cons, place, top] at run
      cases run
  | case5 course rest ih =>
    rw [List.foldlM_cons, ← ih (List.not_mem_of_not_mem_cons relative) inside]
    rfl
  | case6 course rest ih => exact absurd List.mem_cons_self relative

/-- A course that never leads above its start stays below any place that it starts from. -/
private theorem foldl_settle_of_neverRises (position : List Component) (track : List (List Char))
    (stays : neverRises track.length components = true) :
    components.foldl settle (position ++ track.reverse.map .down) =
      position ++ (follow ⟨0, track⟩ components).track.reverse.map .down := by
  induction components generalizing track with
  | nil => rfl
  | cons component rest ih =>
    cases component with
    | root => cases stays
    | here => exact ih track stays
    | down name =>
      have taken := ih (name :: track) stays
      simpa [settle, follow] using taken
    | up =>
      cases track with
      | nil => cases stays
      | cons name track =>
        have back := ih track stays
        simpa [settle, follow] using back

end Course

section Joining

variable {path directory relative : String}

private theorem mem_steps {parts : List (List Char)} {component : Component} (member : component ∈ steps parts) :
    component = .up ∨ ∃ name ∈ parts, component = .down name := by
  obtain ⟨part, present, found⟩ := List.mem_filterMap.mp member
  split at found
  · cases found
  · split at found
    · cases found
      exact .inl rfl
    · cases found
      exact .inr ⟨part, present, rfl⟩

private theorem components_cases (path : String) :
    ∃ opening, components path = opening ++ steps (Text.fields '/' path.toList) ∧
      (isAbsolute path = true ∧ opening = [.root] ∨ isAbsolute path = false ∧ (opening = [.here] ∨ opening = [])) := by
  unfold components
  dsimp only
  split
  next absolute => exact ⟨[.root], rfl, .inl ⟨absolute, rfl⟩⟩
  next relative =>
    have relative := Bool.eq_false_iff.mpr relative
    split
    · exact ⟨[.here], rfl, .inr ⟨relative, .inl rfl⟩⟩
    · exact ⟨[], rfl, .inr ⟨relative, .inr rfl⟩⟩

private theorem root_notMem_of_relative (relative : isAbsolute path = false) : .root ∉ components path := by
  obtain ⟨opening, same, cases⟩ := components_cases path
  have start : .root ∉ opening := by
    rcases cases with ⟨absolute, _⟩ | ⟨_, rfl | rfl⟩
    · rw [relative] at absolute
      cases absolute
    · simp
    · simp
  rw [same, List.mem_append, or_iff_right start]
  intro member
  rcases mem_steps member with up | ⟨_, _, down⟩
  · cases up
  · cases down

private theorem mem_fields_of_down {name : List Char} (named : .down name ∈ components path) :
    name ∈ Text.fields '/' path.toList := by
  obtain ⟨opening, same, cases⟩ := components_cases path
  have behind : .down name ∉ opening := by
    rcases cases with ⟨_, rfl⟩ | ⟨_, rfl | rfl⟩ <;> simp
  rw [same, List.mem_append, or_iff_right behind] at named
  rcases mem_steps named with up | ⟨_, present, same⟩
  · cases up
  · cases same
    exact present

/-- Where a path begins does not matter once it is relative: `.` leads nowhere. -/
private theorem foldl_settle_relative (relative : isAbsolute path = false) (position : List Component) :
    (components path).foldl settle position = (steps (Text.fields '/' path.toList)).foldl settle position := by
  obtain ⟨opening, same, ⟨absolute, _⟩ | ⟨_, rfl | rfl⟩⟩ := components_cases path
  · rw [relative] at absolute
    cases absolute
  · rw [same]
    rfl
  · rw [same]
    rfl

private theorem steps_append (first second : List (List Char)) :
    steps (first ++ second) = steps first ++ steps second :=
  List.filterMap_append

/-- What is written behind a slash follows the components of the directory before it. -/
private theorem components_below (body : List Char) {rest : List Char} (written : path.toList = body ++ '/' :: rest)
    (before : directory.toList = body ++ ['/'] ∨ directory.toList = body ∧ body ≠ []) :
    components path = components directory ++ steps (Text.fields '/' rest) := by
  obtain ⟨first, others, cut⟩ := List.exists_cons_of_ne_nil (Text.fields_ne_nil '/' body)
  have whole : Text.fields '/' path.toList = first :: (others ++ Text.fields '/' rest) := by
    rw [written, Text.fields_append, cut, List.cons_append]
  have absolute : isAbsolute path = isAbsolute directory := by
    rw [isAbsolute, isAbsolute, written]
    rcases before with same | ⟨same, nonempty⟩
    · rw [same]
      cases body <;> rfl
    · obtain ⟨c, characters, rfl⟩ := List.exists_cons_of_ne_nil nonempty
      rw [same]
      rfl
  obtain ⟨more, parts, silent⟩ : ∃ more, Text.fields '/' directory.toList = first :: (others ++ more) ∧ steps more = [] := by
    rcases before with same | ⟨same, _⟩
    · exact ⟨[[]], by rw [same, Text.fields_append, cut]; rfl, rfl⟩
    · exact ⟨[], by rw [same, cut, List.append_nil], rfl⟩
  have followed : steps (first :: (others ++ Text.fields '/' rest)) =
      steps (first :: (others ++ more)) ++ steps (Text.fields '/' rest) := by
    rw [← List.cons_append, ← List.cons_append, steps_append, steps_append, silent, List.append_nil]
  simp only [components, whole, parts, absolute, followed, List.head?_cons]
  split
  · rfl
  · split <;> rfl

/-- Joining a relative path to a directory goes on from where the directory is. -/
theorem normalize_join (directory : String) (relative : isAbsolute path = false) :
    normalize (components (join directory path)) = (components path).foldl settle (normalize (components directory)) := by
  by_cases empty : directory.isEmpty = true
  · have nowhere : components directory = [] := by
      rw [String.isEmpty_iff.mp empty]
      rfl
    rw [join, empty, Bool.or_true, if_pos rfl, nowhere]
    rfl
  · have continued : components (join directory path) = components directory ++ steps (Text.fields '/' path.toList) := by
      rw [join, relative, Bool.eq_false_iff.mpr empty, Bool.or_false, if_neg Bool.false_ne_true]
      split
      next slash =>
        obtain ⟨body, same⟩ := List.getLast?_eq_some_iff.mp (eq_of_beq slash)
        exact components_below body (by rw [String.toList_append, same]; simp) (.inl same)
      next =>
        refine components_below directory.toList (by simp) (.inr ⟨rfl, ?_⟩)
        simpa [String.isEmpty_iff] using empty
    rw [continued, normalize, List.foldl_append, ← foldl_settle_relative relative]
    rfl

end Joining

end Path

open PackageRecipes.Path

namespace Resource

/-- The destination climbs out of the stage, and from there comes back down by the names
of the levels that it has left. -/
def ComesBack (stage destination : List Component) : Prop :=
  ∃ above names rest, stage = above ++ names.map .down ∧ names ≠ [] ∧
    normalize destination = List.replicate names.length .up ++ names.map .down ++ rest

variable {destination stageRoot : String}

private theorem eq_of_replicate_up {levels more : Nat} {name : List Char} {rest : List Component}
    {names : List (List Char)}
    (same : List.replicate levels .up ++ .down name :: rest = List.replicate more .up ++ names.map .down) :
    levels = more ∧ .down name :: rest = names.map .down := by
  induction levels generalizing more with
  | zero =>
    cases more with
    | zero => exact ⟨rfl, same⟩
    | succ more => cases same
  | succ levels ih =>
    cases more with
    | zero =>
      cases names with
      | nil => cases same
      | cons => cases same
    | succ more =>
      obtain ⟨equal, rest⟩ := ih (List.cons.inj same).2
      exact ⟨congrArg Nat.succ equal, rest⟩

theorem comesBack_iff {stage components : List Component} (relative : .root ∉ components) :
    ComesBack stage components ↔
      let course := Course.follow ⟨0, []⟩ components
      0 < course.above ∧ course.above ≤ stage.length ∧
        stage.drop (stage.length - course.above) <+: course.track.reverse.map .down := by
  have normal : normalize components = (Course.follow ⟨0, []⟩ components).path :=
    @Course.foldl_settle_path ⟨0, []⟩ components relative
  generalize Course.follow ⟨0, []⟩ components = course at normal ⊢
  dsimp only
  constructor
  · rintro ⟨above, names, rest, rfl, nonempty, same⟩
    obtain ⟨name, others, rfl⟩ := List.exists_cons_of_ne_nil nonempty
    rw [normal, Course.path, List.map_cons, List.append_assoc, List.cons_append] at same
    obtain ⟨levels, down⟩ := eq_of_replicate_up same.symm
    rw [← levels, ← down]
    refine ⟨Nat.succ_pos _, by simp, rest, ?_⟩
    simp
  · rintro ⟨climbs, inside, rest, down⟩
    obtain ⟨names, others, same, own, _⟩ := List.map_eq_append_iff.mp down.symm
    refine ⟨stage.take (stage.length - course.above), names, rest, ?_, ?_, ?_⟩
    · rw [own, List.take_append_drop]
    · rintro rfl
      have left := congrArg List.length own
      simp at left
      omega
    · have levels := congrArg List.length own
      simp only [List.length_map, List.length_drop] at levels
      rw [normal, Course.path, ← down, own, show names.length = course.above by omega, List.append_assoc]

/-- A destination is accepted if it never leads above the stage, or comes back to it. -/
theorem checkDestination_eq_ok_iff :
    checkDestination destination stageRoot = .ok () ↔
      isAbsolute destination = false ∧
        (neverRises 0 (components destination) = true ∨ ComesBack (components stageRoot) (components destination)) := by
  cases absolute : isAbsolute destination with
  | true => simp [checkDestination, absolute]
  | false =>
    have relative := root_notMem_of_relative absolute
    have accepted : checkDestination destination stageRoot = .ok () ↔
        ∃ position, (components destination).foldlM step (components stageRoot) = .ok position ∧
          components stageRoot <+: position := by
      rw [checkDestination, absolute, if_neg Bool.false_ne_true]
      dsimp only
      cases (components destination).foldlM step (components stageRoot) with
      | error fault => simp
      | ok position => simp
    have start : Course.place (components stageRoot) ⟨0, []⟩ = components stageRoot := by simp [Course.place]
    have walk := @Course.isPrefix_walk_iff ⟨0, []⟩ _ (components stageRoot) relative (Nat.zero_le _)
    have stays := Course.above_follow_eq_zero_iff relative []
    rw [start] at walk
    rw [accepted, walk, comesBack_iff relative, ← List.length_nil, ← stays]
    generalize Course.follow ⟨0, []⟩ (components destination) = course
    constructor
    · rintro ⟨inside, down⟩
      refine ⟨rfl, ?_⟩
      rcases Nat.eq_zero_or_pos course.above with none | climbs
      · exact .inl none
      · exact .inr ⟨climbs, inside, down⟩
    · rintro ⟨_, none | ⟨_, inside, down⟩⟩
      · simp [none]
      · exact ⟨inside, down⟩

/-- Under a name that is longer than the destination, the stage cannot be come back to. -/
private theorem not_comesBack_of_long {name : List Char} (relative : isAbsolute destination = false)
    (long : destination.toList.length < name.length) : ¬ ComesBack [.down name] (components destination) := by
  rw [comesBack_iff (root_notMem_of_relative relative)]
  rintro ⟨climbs, inside, down⟩
  have all : [Component.down name].length - (Course.follow ⟨0, []⟩ (components destination)).above = 0 := by
    simp only [List.length_singleton]
    omega
  rw [all, List.drop_zero] at down
  obtain ⟨taken, member, same⟩ := List.mem_map.mp (down.subset List.mem_cons_self)
  cases same
  rcases Course.mem_track_follow (List.mem_reverse.mp member) with none | named
  · cases none
  · have short := Text.length_le_of_mem_fields (mem_fields_of_down named)
    omega

/-- Settings under which the stage has a name of that many letters. -/
def namingStage (length : Nat) : Config :=
  { Config.standard with stageRoot := String.ofList (List.replicate (length + 1) 'x') }

private theorem components_namingStage (length : Nat) :
    components (namingStage length).stageRoot = [.down (List.replicate (length + 1) 'x')] := by
  have written : (namingStage length).stageRoot.toList = 'x' :: List.replicate length 'x' := by
    simp [namingStage, List.replicate_succ]
  have alone : Text.fields '/' ('x' :: List.replicate length 'x') = ['x' :: List.replicate length 'x'] :=
    Text.fields_single (by simp)
  simp [components, isAbsolute, written, alone, steps, List.replicate_succ]

private theorem validate_namingStage (length : Nat) : (namingStage length).validate = .ok () := by
  have visible : Text.isBlankText (namingStage length).stageRoot = false := by
    simp [namingStage, Text.isBlankText, List.replicate_succ, show Text.isBlank 'x' = false from rfl]
  have relative : isAbsolute (namingStage length).stageRoot = false := by
    simp [namingStage, isAbsolute, List.replicate_succ]
  have types : (namingStage length).defaultDependencyTypes = Config.standard.defaultDependencyTypes := rfl
  rw [Config.validate, visible, relative, types]
  rfl

theorem accepted_everywhere_iff :
    (∀ config : Config, config.validate = .ok () → checkDestination destination config.stageRoot = .ok ()) ↔
      isAbsolute destination = false ∧ neverRises 0 (components destination) = true := by
  constructor
  · intro accepted
    have long := accepted (namingStage destination.toList.length) (validate_namingStage _)
    rw [checkDestination_eq_ok_iff, components_namingStage] at long
    obtain ⟨relative, stays | back⟩ := long
    · exact ⟨relative, stays⟩
    · exact absurd back (not_comesBack_of_long relative (by simp))
  · rintro ⟨relative, stays⟩ config _
    exact checkDestination_eq_ok_iff.mpr ⟨relative, .inl stays⟩

private theorem isPrefix_normalize_join (relative : isAbsolute destination = false)
    (stays : neverRises 0 (components destination) = true) (directory : String) :
    normalize (components directory) <+: normalize (components (join directory destination)) := by
  have below := Course.foldl_settle_of_neverRises (normalize (components directory)) [] stays
  simp only [List.reverse_nil, List.map_nil, List.append_nil] at below
  rw [normalize_join directory relative, below]
  exact List.prefix_append _ _

/-- A relative destination is accepted if it never leads above the stage, or climbs out
and comes back by the stage's own names. Only the first kind is accepted whatever the
stage is called, and stays below every directory that it is joined to. -/
theorem destination_stays_or_comes_back (destination : String) :
    (∀ stageRoot, checkDestination destination stageRoot = .ok () ↔
      isAbsolute destination = false ∧
        (neverRises 0 (components destination) = true ∨ ComesBack (components stageRoot) (components destination))) ∧
    ((∀ config : Config, config.validate = .ok () → checkDestination destination config.stageRoot = .ok ()) ↔
      isAbsolute destination = false ∧ neverRises 0 (components destination) = true) ∧
    (isAbsolute destination = false → neverRises 0 (components destination) = true →
      ∀ directory, normalize (components directory) <+: normalize (components (join directory destination))) :=
  ⟨fun _ => checkDestination_eq_ok_iff, accepted_everywhere_iff, isPrefix_normalize_join⟩

/-- A destination that goes up within the stage alone, and what it is joined to. -/
theorem wandering_destination_stays :
    isAbsolute "./sub//../other/." = false ∧ neverRises 0 (components "./sub//../other/.") = true ∧
      checkDestination "./sub//../other/." "stage_folder_root" = .ok () ∧
      normalize (components "../build") <+: normalize (components (join "../build" "./sub//../other/.")) := by
  have relative : isAbsolute "./sub//../other/." = false := by decide
  have stays : neverRises 0 (components "./sub//../other/.") = true := by decide
  obtain ⟨accepted, _, below⟩ := destination_stays_or_comes_back "./sub//../other/."
  exact ⟨relative, stays, (accepted _).mpr ⟨relative, .inl stays⟩, below relative stays _⟩

/-- A destination that names the stage's root is accepted, though it climbs out of the
stage and does not lie below another directory that it is joined to. -/
theorem naming_the_stage_leads_out :
    Config.standard.validate = .ok () ∧
      checkDestination "../stage_folder_root" Config.standard.stageRoot = .ok () ∧
      neverRises 0 (components "../stage_folder_root") = false ∧
      ¬ normalize (components "build") <+: normalize (components (join "build" "../stage_folder_root")) := by
  exact ⟨rfl, rfl, by decide, by decide⟩

end Resource

end PackageRecipes
