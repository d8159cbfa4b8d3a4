/-!
# Outcomes of computations that can fail

A computation made of steps succeeds exactly when each of its steps does, and
its result is that of the last step.  Otherwise it fails as its first failing
step does.
-/

namespace KeyedPaths

variable {Failure Source Target : Type}

theorem map_eq_ok_iff {outcome : Except Failure Source}
    {function : Source → Target} {target : Target} :
    outcome.map function = .ok target ↔
      ∃ source, outcome = .ok source ∧ function source = target := by
  cases outcome with
  | error failure => simp [Except.map]
  | ok source => simp [Except.map]

theorem mapError_eq_ok_iff {OtherFailure : Type}
    {outcome : Except Failure Source} {function : Failure → OtherFailure}
    {source : Source} :
    outcome.mapError function = .ok source ↔ outcome = .ok source := by
  cases outcome with
  | error failure => exact ⟨nofun, nofun⟩
  | ok other =>
      constructor
      · rintro ⟨⟩
        rfl
      · rintro ⟨⟩
        rfl

theorem bind_eq_ok_iff {outcome : Except Failure Source}
    {next : Source → Except Failure Target} {target : Target} :
    outcome >>= next = .ok target ↔
      ∃ source, outcome = .ok source ∧ next source = .ok target := by
  cases outcome with
  | error failure => simp [bind, Except.bind]
  | ok source => simp [bind, Except.bind]

theorem bind_eq_error_iff {outcome : Except Failure Source}
    {next : Source → Except Failure Target} {failure : Failure} :
    outcome >>= next = .error failure ↔
      outcome = .error failure ∨
        ∃ source, outcome = .ok source ∧ next source = .error failure := by
  cases outcome with
  | error other => simp [bind, Except.bind]
  | ok source => simp [bind, Except.bind]

theorem isOk_iff {outcome : Except Failure Source} :
    outcome.isOk = true ↔ ∃ source, outcome = .ok source := by
  cases outcome with
  | error failure => simp [Except.isOk, Except.toBool]
  | ok source => simp [Except.isOk, Except.toBool]

/-- Of two computations, each of which has every result of the other, either
both have the same result or both fail. -/
theorem both_ok_or_both_error {first second : Except Failure Target}
    (forward : ∀ target, first = .ok target → second = .ok target)
    (backward : ∀ target, second = .ok target → first = .ok target) :
    (∃ target, first = .ok target ∧ second = .ok target) ∨
      ∃ failure otherFailure, first = .error failure ∧
        second = .error otherFailure := by
  cases first with
  | ok target => exact .inl ⟨target, rfl, forward target rfl⟩
  | error failure =>
      cases second with
      | ok target => cases backward target rfl
      | error otherFailure => exact .inr ⟨failure, otherFailure, rfl, rfl⟩

/-- A run over a list succeeds exactly when its first step does and then the
run over the rest. -/
theorem foldlM_cons_eq_ok_iff {step : Target → Source → Except Failure Target}
    {start final : Target} {first : Source} {rest : List Source} :
    (first :: rest).foldlM step start = .ok final ↔
      ∃ next, step start first = .ok next ∧
        rest.foldlM step next = .ok final := by
  rw [List.foldlM_cons, bind_eq_ok_iff]

theorem exists_step_of_foldlM_eq_ok
    {step : Target → Source → Except Failure Target} {start final : Target}
    {items : List Source} (isRun : items.foldlM step start = .ok final) :
    ∀ item ∈ items, ∃ reached next, step reached item = .ok next := by
  induction items generalizing start with
  | nil => simp
  | cons first rest ih =>
      obtain ⟨next, isFirst, laterRun⟩ := foldlM_cons_eq_ok_iff.1 isRun
      exact List.forall_mem_cons.2 ⟨⟨start, next, isFirst⟩, ih laterRun⟩

/-- A run over a list fails exactly as its first failing step does, which comes
after a run that succeeds. -/
theorem foldlM_eq_error_iff {step : Target → Source → Except Failure Target}
    {start : Target} {items : List Source} {failure : Failure} :
    items.foldlM step start = .error failure ↔
      ∃ before item after reached, items = before ++ item :: after ∧
        before.foldlM step start = .ok reached ∧
          step reached item = .error failure := by
  constructor
  · intro isError
    induction items generalizing start with
    | nil => cases isError
    | cons first rest ih =>
        rw [List.foldlM_cons, bind_eq_error_iff] at isError
        rcases isError with isFirst | ⟨next, isNext, isLater⟩
        · exact ⟨[], first, rest, start, rfl, rfl, isFirst⟩
        · obtain ⟨before, item, after, reached, rfl, isRun, isItem⟩ :=
            ih isLater
          exact ⟨first :: before, item, after, reached, rfl,
            foldlM_cons_eq_ok_iff.2 ⟨next, isNext, isRun⟩, isItem⟩
  · rintro ⟨before, item, after, reached, rfl, isRun, isItem⟩
    induction before generalizing start with
    | nil =>
        cases isRun
        rw [List.nil_append, List.foldlM_cons, bind_eq_error_iff]
        exact .inl isItem
    | cons first before ih =>
        obtain ⟨next, isNext, laterRun⟩ := foldlM_cons_eq_ok_iff.1 isRun
        rw [List.cons_append, List.foldlM_cons, bind_eq_error_iff]
        exact .inr ⟨next, isNext, ih laterRun⟩

/-- Steps that leave the state as it is can be left out of a run, without a
change to its result or to its first failure. -/
theorem foldlM_filter_of_idle {step : Target → Source → Except Failure Target}
    {start : Target} {items : List Source} {keep : Source → Bool}
    (isIdle : ∀ item ∈ items, keep item = false →
      ∀ reached, step reached item = .ok reached) :
    (items.filter keep).foldlM step start = items.foldlM step start := by
  induction items generalizing start with
  | nil => rfl
  | cons first rest ih =>
      obtain ⟨firstIdle, laterIdle⟩ := List.forall_mem_cons.1 isIdle
      cases isKept : keep first with
      | true =>
          rw [List.filter_cons_of_pos isKept, List.foldlM_cons,
            List.foldlM_cons]
          exact congrArg _ (funext fun next => ih laterIdle)
      | false =>
          rw [List.filter_cons_of_neg (Bool.eq_false_iff.1 isKept),
            List.foldlM_cons, firstIdle isKept start]
          exact ih laterIdle

end KeyedPaths
