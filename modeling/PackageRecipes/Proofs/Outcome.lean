/-! Taking successful computations apart: what succeeds in steps has succeeded in each,
and what each step of a fold keeps is kept by the whole fold. -/

namespace PackageRecipes

variable {ε α β : Type}

theorem bind_eq_ok {outcome : Except ε α} {next : α → Except ε β} {result : β} :
    outcome >>= next = .ok result ↔ ∃ value, outcome = .ok value ∧ next value = .ok result := by
  cases outcome with
  | error error => simp [bind, Except.bind]
  | ok value => simp [bind, Except.bind]

theorem map_eq_ok {outcome : Except ε α} {f : α → β} {result : β} :
    outcome.map f = .ok result ↔ ∃ value, outcome = .ok value ∧ f value = result := by
  cases outcome <;> simp [Except.map]

theorem mapError_eq_ok {outcome : Except ε α} {f : ε → β} {result : α} :
    outcome.mapError f = .ok result ↔ outcome = .ok result := by
  cases outcome with
  | error error => exact ⟨nofun, nofun⟩
  | ok value =>
    change Except.ok value = _ ↔ _
    rw [Except.ok.injEq, Except.ok.injEq]

theorem toOption_eq_some {outcome : Except ε α} {result : α} :
    outcome.toOption = some result ↔ outcome = .ok result := by
  cases outcome <;> simp [Except.toOption]

theorem toOption_mapError {outcome : Except ε α} {f : ε → β} : (outcome.mapError f).toOption = outcome.toOption := by
  cases outcome <;> rfl

theorem toOption_bind {outcome : Except ε α} {next : α → Except ε β} :
    (outcome >>= next).toOption = outcome.toOption.bind fun value => (next value).toOption := by
  cases outcome <;> rfl

theorem toOption_map {outcome : Except ε α} {f : α → β} : (outcome.map f).toOption = outcome.toOption.map f := by
  cases outcome <;> rfl

theorem toOption_foldlM {step : β → α → Except ε β} {items : List α} {start : β} :
    (items.foldlM step start).toOption = items.foldlM (fun state item => (step state item).toOption) start := by
  induction items generalizing start with
  | nil => rfl
  | cons item rest ih =>
    rw [List.foldlM_cons, List.foldlM_cons, toOption_bind]
    exact Option.bind_congr fun next _ => ih

/-- Both fail, or both succeed with equal results. -/
def SameOutcome [BEq α] (left right : Except ε α) : Prop :=
  Option.Rel (fun first second => (first == second) = true) left.toOption right.toOption

theorem sameOutcome_of_toOption [BEq α] [ReflBEq α] {left right : Except ε α}
    (same : left.toOption = right.toOption) : SameOutcome left right := by
  rw [SameOutcome, same]
  cases right.toOption with
  | none => exact .none
  | some value => exact .some (BEq.refl value)

theorem isOk_iff {outcome : Except ε α} : outcome.isOk = true ↔ ∃ result, outcome = .ok result := by
  cases outcome <;> simp [Except.isOk, Except.toBool]

theorem foldlM_append_of_ok {step : β → α → Except ε β} {items others : List α} {start middle : β}
    (run : items.foldlM step start = .ok middle) : (items ++ others).foldlM step start = others.foldlM step middle := by
  rw [List.foldlM_append, run]
  rfl

theorem foldlM_preserves {step : β → α → Except ε β} {items : List α} {start result : β}
    (kept : β → Prop)
    (preserves : ∀ state item after, item ∈ items → kept state → step state item = .ok after → kept after)
    (begins : kept start) (run : items.foldlM step start = .ok result) : kept result := by
  induction items generalizing start with
  | nil =>
    simp only [List.foldlM_nil] at run
    cases run
    exact begins
  | cons item rest ih =>
    rw [List.foldlM_cons, bind_eq_ok] at run
    obtain ⟨after, first, run⟩ := run
    refine ih ?_ (preserves start item after List.mem_cons_self begins first) run
    intro state later next member holds
    exact preserves state later next (List.mem_cons_of_mem item member) holds

/-- The results of reading items one by one are as many, and each comes from an item. -/
theorem mapM_eq_ok {read : α → Except ε β} {items : List α} {results : List β}
    (run : items.mapM read = .ok results) :
    results.length = items.length ∧ ∀ result ∈ results, ∃ item ∈ items, read item = .ok result := by
  induction items generalizing results with
  | nil =>
    cases run
    simp
  | cons item rest ih =>
    rw [List.mapM_cons, bind_eq_ok] at run
    obtain ⟨first, found, run⟩ := run
    rw [bind_eq_ok] at run
    obtain ⟨others, remaining, same⟩ := run
    cases same
    obtain ⟨length, origin⟩ := ih remaining
    refine ⟨by simp [length], ?_⟩
    intro result member
    rcases List.mem_cons.mp member with rfl | later
    · exact ⟨item, List.mem_cons_self, found⟩
    · obtain ⟨source, present, read⟩ := origin result later
      exact ⟨source, List.mem_cons_of_mem item present, read⟩

/-- Items that can be read one by one can be read together, with the same results. -/
theorem exists_mapM_eq_ok {read : α → Except ε β} (fits : α → β → Prop) {items : List α}
    (each : ∀ item ∈ items, ∃ result, read item = .ok result ∧ fits item result) :
    ∃ results, items.mapM read = .ok results ∧ (∀ item ∈ items, ∃ result ∈ results, fits item result) ∧
      ∀ result ∈ results, ∃ item ∈ items, fits item result := by
  induction items with
  | nil => exact ⟨[], rfl, nofun, nofun⟩
  | cons item rest ih =>
    obtain ⟨⟨first, found, fit⟩, each⟩ := List.forall_mem_cons.mp each
    obtain ⟨others, run, forth, back⟩ := ih each
    refine ⟨first :: others, ?_, List.forall_mem_cons.mpr ⟨⟨first, List.mem_cons_self, fit⟩, ?_⟩,
      List.forall_mem_cons.mpr ⟨⟨item, List.mem_cons_self, fit⟩, ?_⟩⟩
    · rw [List.mapM_cons, found, bind_eq_ok]
      exact ⟨first, rfl, bind_eq_ok.mpr ⟨others, run, rfl⟩⟩
    · exact fun other member => (forth other member).imp fun _ both => ⟨List.mem_cons_of_mem first both.1, both.2⟩
    · exact fun other member => (back other member).imp fun _ both => ⟨List.mem_cons_of_mem item both.1, both.2⟩

theorem mapM_isOk {read : α → Except ε β} {items : List α} :
    (items.mapM read).isOk = true ↔ ∀ item ∈ items, (read item).isOk = true := by
  induction items with
  | nil => exact ⟨fun _ _ => nofun, fun _ => rfl⟩
  | cons item rest ih =>
    rw [List.mapM_cons, List.forall_mem_cons, ← ih]
    cases read item with
    | error error => exact ⟨nofun, fun both => nomatch both.1⟩
    | ok first =>
      constructor
      · intro run
        refine ⟨rfl, ?_⟩
        obtain ⟨results, run⟩ := isOk_iff.mp run
        obtain ⟨_, first, run⟩ := bind_eq_ok.mp run
        obtain ⟨others, remaining, _⟩ := bind_eq_ok.mp run
        exact isOk_iff.mpr ⟨others, remaining⟩
      · rintro ⟨_, run⟩
        obtain ⟨others, remaining⟩ := isOk_iff.mp run
        rw [remaining]
        rfl

end PackageRecipes
