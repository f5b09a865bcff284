import Mathlib.Data.List.Forall2

/-! # Outcomes

What is known of a computation that may fail. A computation that succeeds is taken apart into the
steps that succeeded (`bind_eq_ok_iff`, `mapM_eq_ok_iff`, `forM_eq_ok_iff`), and a property that
every step keeps holds at the end of a run (`foldlM_invariant`), also one of the values that are done
so far (`foldlM_collects`). `FailsExactly` tells when a computation fails and which errors it can
fail with; it is put together from the same statements about the steps. `Yields` tells what holds of
a result. `Carries` compares two computations step by step, as far as the first one succeeds, and
`Agree` relates computations that give the same results but may fail with different errors. A run with
a state is taken apart in the same way (`exists_of_run_bind`).
-/

namespace Recordgen.Outcome

variable {ε α β γ : Type} {first outcome : Except ε α} {next step : α → Except ε β} {result : β}
  {change : α → β} {values : List α}

/-- A chain succeeds if both of its steps do. -/
theorem bind_eq_ok_iff :
    first >>= next = .ok result ↔ ∃ value, first = .ok value ∧ next value = .ok result := by
  cases first <;> simp [bind, Except.bind]

theorem map_eq_ok_iff :
    change <$> first = .ok result ↔ ∃ value, first = .ok value ∧ change value = result := by
  cases first <;> simp [Functor.map, Except.map]

theorem pure_eq_ok_iff {value result : α} :
    (pure value : Except ε α) = .ok result ↔ value = result := by
  simp [pure, Except.pure]

theorem bind_pure_eq_ok_iff :
    (first >>= fun value => pure (change value)) = .ok result ↔
      ∃ value, first = .ok value ∧ change value = result := by
  simp only [bind_eq_ok_iff, pure_eq_ok_iff]

theorem mapError_eq_ok_iff {change : ε → γ} {result : α} :
    outcome.mapError change = .ok result ↔ outcome = .ok result := by
  cases outcome <;> simp [Except.mapError]

theorem mapError_eq_error_iff {change : ε → γ} {fault : γ} :
    outcome.mapError change = .error fault ↔
      ∃ cause, outcome = .error cause ∧ change cause = fault := by
  cases outcome <;> simp [Except.mapError]

/-- An outcome counts as a result exactly if it succeeded. -/
theorem toOption_eq_some_iff {result : α} :
    outcome.toOption = some result ↔ outcome = .ok result := by
  cases outcome <;> simp [Except.toOption]

/-- A list succeeds step by step, with the results in the order of its values. -/
theorem mapM_eq_ok_iff {results : List β} :
    values.mapM step = .ok results ↔
      List.Forall₂ (fun value result => step value = .ok result) values results := by
  induction values generalizing results with
  | nil => cases results <;> simp [pure, Except.pure]
  | cons value values ih =>
      rw [List.mapM_cons]
      constructor
      · intro succeeded
        obtain ⟨first, here, succeeded⟩ := bind_eq_ok_iff.mp succeeded
        obtain ⟨rest, later, rfl⟩ := bind_pure_eq_ok_iff.mp succeeded
        exact .cons here (ih.mp later)
      · intro related
        cases related with
        | cons here later =>
            exact bind_eq_ok_iff.mpr ⟨_, here, bind_eq_ok_iff.mpr ⟨_, ih.mpr later, rfl⟩⟩

/-- A check of a list succeeds if it does for every value. -/
theorem forM_eq_ok_iff {step : α → Except ε Unit} :
    values.forM step = .ok () ↔ ∀ value ∈ values, step value = .ok () := by
  induction values with
  | nil => simp [pure, Except.pure]
  | cons value values ih =>
      rw [List.forM_eq_forM, List.forM_cons, bind_eq_ok_iff, List.forall_mem_cons, ← ih]
      constructor
      · rintro ⟨⟨⟩, here, later⟩
        exact ⟨here, later⟩
      · rintro ⟨here, later⟩
        exact ⟨(), here, later⟩

/-- Steps that all succeed give results that are related as the steps relate them. -/
theorem exists_mapM_eq_ok {related : α → β → Prop}
    (each : ∀ value ∈ values, ∃ result, step value = .ok result ∧ related value result) :
    ∃ results, values.mapM step = .ok results ∧ List.Forall₂ related values results := by
  induction values with
  | nil => exact ⟨[], rfl, .nil⟩
  | cons value values ih =>
      obtain ⟨result, found, holds⟩ := each value List.mem_cons_self
      obtain ⟨results, rest, all⟩ := ih fun value member => each value (List.mem_cons_of_mem _ member)
      refine ⟨result :: results, ?_, .cons holds all⟩
      rw [List.mapM_cons, found, rest]
      rfl

/-- Two steps that succeed can be taken one after the other. -/
theorem exists_bind_ok (here : ∃ value, first = .ok value)
    (later : ∀ value, ∃ result, next value = .ok result) :
    ∃ result, first >>= next = .ok result := by
  obtain ⟨value, rfl⟩ := here
  exact later value

/-- Steps that all succeed can be taken one after the other. -/
theorem exists_mapM_ok (each : ∀ value ∈ values, ∃ result, step value = .ok result) :
    ∃ results, values.mapM step = .ok results := by
  have related : ∀ value ∈ values, ∃ result, step value = .ok result ∧ True := by
    intro value member
    obtain ⟨result, found⟩ := each value member
    exact ⟨result, found, trivial⟩
  obtain ⟨results, found, -⟩ := exists_mapM_eq_ok related
  exact ⟨results, found⟩

/-- What every step keeps holds at the end of a run. -/
theorem foldlM_invariant {step : β → α → Except ε β} {start : β} (holds : β → Prop)
    (initially : holds start)
    (kept : ∀ state value next, value ∈ values → holds state → step state value = .ok next →
      holds next)
    (succeeded : values.foldlM step start = .ok result) : holds result := by
  induction values generalizing start with
  | nil => exact pure_eq_ok_iff.mp succeeded ▸ initially
  | cons value values ih =>
      rw [List.foldlM_cons] at succeeded
      obtain ⟨next, here, later⟩ := bind_eq_ok_iff.mp succeeded
      refine ih (kept _ _ _ List.mem_cons_self initially here) ?_ later
      intro state value next member
      exact kept state value next (List.mem_cons_of_mem _ member)

/-- What every step adds to is said of all the values at the end of a run. -/
theorem foldlM_collects {step : β → α → Except ε β} {start : β} (holds : List α → β → Prop)
    (initially : holds [] start)
    (kept : ∀ done state value next, holds done state → step state value = .ok next →
      holds (done ++ [value]) next)
    (succeeded : values.foldlM step start = .ok result) : holds values result := by
  -- The induction is on the values that are left, behind those that are done.
  suffices behind : ∀ done, holds done start → holds (done ++ values) result from
    behind [] initially
  clear initially
  induction values generalizing start with
  | nil =>
      intro done before
      rw [List.append_nil]
      exact pure_eq_ok_iff.mp succeeded ▸ before
  | cons value values ih =>
      intro done before
      rw [List.foldlM_cons] at succeeded
      obtain ⟨next, here, later⟩ := bind_eq_ok_iff.mp succeeded
      have onward := ih later (done ++ [value]) (kept done start value next before here)
      rwa [List.append_assoc] at onward

/-- A computation fails exactly when the condition holds, and then only with one of the errors. -/
structure FailsExactly (condition : Prop) (errors : ε → Prop) (outcome : Except ε α) : Prop where
  fails : (∃ error, outcome = .error error) ↔ condition
  within : ∀ error, outcome = .error error → errors error

/-- A chain fails where its first failing step does. -/
theorem bind_eq_error_iff {fault : ε} :
    outcome >>= next = .error fault ↔
      outcome = .error fault ∨ ∃ value, outcome = .ok value ∧ next value = .error fault := by
  cases outcome with
  | error other =>
      have stopped : Except.error other >>= next = .error other := rfl
      rw [stopped]
      simp
  | ok value =>
      have continued : Except.ok value >>= next = next value := rfl
      rw [continued]
      simp

theorem exists_ok_iff : (∃ value, outcome = .ok value) ↔ ¬ ∃ error, outcome = .error error := by
  cases outcome <;> simp

namespace FailsExactly

variable {condition other : Prop} {errors : ε → Prop} {outcome : Except ε α} {next : α → Except ε β}
  {failing : α → Prop} {values : List α}

/-- What fails under an exact condition succeeds otherwise. -/
theorem succeeds_iff (exact : FailsExactly condition errors outcome) :
    (∃ value, outcome = .ok value) ↔ ¬ condition := by
  rw [exists_ok_iff, exact.fails]

theorem congr (exact : FailsExactly condition errors outcome) (same : condition ↔ other) :
    FailsExactly other errors outcome :=
  ⟨exact.fails.trans same, exact.within⟩

theorem ok (value : α) : FailsExactly False errors (.ok value) :=
  ⟨by simp, by simp⟩

theorem error {fault : ε} (known : errors fault) :
    FailsExactly True errors (.error fault : Except ε α) :=
  ⟨by simp, by rintro _ ⟨⟩; exact known⟩

/-- A computation that always succeeds. -/
theorem of_succeeds (succeeds : ∃ value, outcome = .ok value) :
    FailsExactly False errors outcome := by
  obtain ⟨value, rfl⟩ := succeeds
  exact ok value

/-- Two steps fail when the first one does, or when it succeeds and the second one fails. -/
theorem bindOn {later : α → Prop} (first : FailsExactly condition errors outcome)
    (second : ∀ value, outcome = .ok value → FailsExactly (later value) errors (next value)) :
    FailsExactly (condition ∨ ∃ value, outcome = .ok value ∧ later value) errors
      (outcome >>= next) := by
  cases outcome with
  | error fault =>
      have failing : condition := first.fails.mp ⟨fault, rfl⟩
      have stopped : Except.error fault >>= next = .error fault := rfl
      rw [stopped]
      exact ⟨by simp [failing], by rintro _ ⟨⟩; exact first.within fault rfl⟩
  | ok value =>
      have passing : ¬ condition := fun failing => by simpa using first.fails.mpr failing
      have rest := second value rfl
      have continued : Except.ok value >>= next = next value := rfl
      rw [continued]
      exact rest.congr (by simp [passing])

/-- Two steps of which the second one fails for reasons that the first one does not decide. -/
theorem bind {later : Prop} (first : FailsExactly condition errors outcome)
    (second : ∀ value, outcome = .ok value → FailsExactly later errors (next value)) :
    FailsExactly (condition ∨ later) errors (outcome >>= next) := by
  refine (first.bindOn second).congr ?_
  constructor
  · rintro (failing | ⟨_, _, failing⟩)
    · exact .inl failing
    · exact .inr failing
  · rintro (failing | failing)
    · exact .inl failing
    · by_cases early : condition
      · exact .inl early
      · obtain ⟨value, same⟩ := first.succeeds_iff.mpr early
        exact .inr ⟨value, same, failing⟩

/-- What follows a step without failing does not matter. -/
theorem bind_ok (first : FailsExactly condition errors outcome)
    (second : ∀ value, ∃ result, next value = .ok result) :
    FailsExactly condition errors (outcome >>= next) :=
  (first.bind fun value _ => of_succeeds (second value)).congr (iff_of_eq (or_false condition))

theorem map {change : α → β} (first : FailsExactly condition errors outcome) :
    FailsExactly condition errors (change <$> outcome) := by
  have mapped : change <$> outcome = outcome >>= fun value => .ok (change value) := by
    cases outcome <;> rfl
  rw [mapped]
  exact first.bind_ok fun value => ⟨change value, rfl⟩

/-- A list of computations fails when one of them does. -/
theorem mapM {step : α → Except ε β}
    (each : ∀ value ∈ values, FailsExactly (failing value) errors (step value)) :
    FailsExactly (∃ value ∈ values, failing value) errors (values.mapM step) := by
  induction values with
  | nil => exact (ok []).congr (by simp)
  | cons value values ih =>
      rw [List.mapM_cons]
      have here := each value List.mem_cons_self
      have rest := ih fun value member => each value (List.mem_cons_of_mem _ member)
      refine (here.bind fun _ _ => rest.bind_ok fun _ => ⟨_, rfl⟩).congr ?_
      rw [List.exists_mem_cons_iff]

/-- A run fails when one of its steps does, if the steps fail for reasons that the state does not
decide. -/
theorem foldlM {step : β → α → Except ε β}
    (each : ∀ state, ∀ value ∈ values, FailsExactly (failing value) errors (step state value))
    (start : β) :
    FailsExactly (∃ value ∈ values, failing value) errors (values.foldlM step start) := by
  induction values generalizing start with
  | nil => exact (ok start).congr (by simp)
  | cons value values ih =>
      rw [List.foldlM_cons]
      have here := each start value List.mem_cons_self
      have rest := ih fun state value member => each state value (List.mem_cons_of_mem _ member)
      refine (here.bind fun next _ => rest next).congr ?_
      rw [List.exists_mem_cons_iff]

/-- Every computation fails exactly when it fails. -/
theorem of_within (within : ∀ error, outcome = .error error → errors error) :
    FailsExactly (∃ error, outcome = .error error) errors outcome :=
  ⟨Iff.rfl, within⟩

end FailsExactly

/-- Whatever a computation gives has a property. If it fails, nothing is said of it. -/
def Yields (property : α → Prop) (outcome : Except ε α) : Prop :=
  ∀ value, outcome = .ok value → property value

namespace Yields

variable {property : α → Prop} {later : β → Prop} {outcome : Except ε α}

theorem trivial (outcome : Except ε α) : Yields (fun _ => True) outcome :=
  fun _ _ => True.intro

theorem pure {value : α} (holds : property value) : Yields property (pure value : Except ε α) := by
  intro other found
  obtain rfl := pure_eq_ok_iff.mp found
  exact holds

theorem throw {fault : ε} : Yields property (throw fault : Except ε α) :=
  fun _ found => nomatch found

/-- A property of the first result goes on to what follows it. -/
theorem bind {next : α → Except ε β} (here : Yields property outcome)
    (onward : ∀ value, property value → Yields later (next value)) :
    Yields later (outcome >>= next) := by
  intro result found
  obtain ⟨value, given, found⟩ := bind_eq_ok_iff.mp found
  exact onward value (here value given) result found

theorem bind_pure {change : α → β} (holds : ∀ value, later (change value)) :
    Yields later (outcome >>= fun value => Pure.pure (change value)) :=
  .bind (.trivial outcome) fun value _ => .pure (holds value)

end Yields

/-- Whatever the first computation gives, the second one gives too, changed. If the first one fails,
nothing is said of the second one. -/
def Carries (change : α → β) (first : Except ε α) (second : Except ε β) : Prop :=
  ∀ value, first = .ok value → second = .ok (change value)

namespace Carries

variable {δ : Type} {change : α → β} {first : Except ε α} {second : Except ε β} {values : List γ}
  {move : γ → δ} {step : γ → Except ε α}

theorem of_eq {other : Except ε α} (same : other = first) : Carries id first other :=
  fun _ found => same.trans found

theorem pure {value : α} {result : β} (same : change value = result) :
    Carries change (pure value : Except ε α) (pure result) := by
  intro other found
  obtain rfl := pure_eq_ok_iff.mp found
  exact pure_eq_ok_iff.mpr same.symm

theorem throw {fault : ε} : Carries change (throw fault) second :=
  fun _ found => nomatch found

/-- A change of the results goes on through both chains. -/
theorem bind {onward : γ → δ} {next : α → Except ε γ} {other : β → Except ε δ}
    (here : Carries change first second)
    (later : ∀ value, first = .ok value → Carries onward (next value) (other (change value))) :
    Carries onward (first >>= next) (second >>= other) := by
  intro result found
  obtain ⟨value, given, found⟩ := bind_eq_ok_iff.mp found
  exact bind_eq_ok_iff.mpr ⟨_, here value given, later value given result found⟩

/-- A change of the values goes on to the results, value by value. -/
theorem mapM {other : δ → Except ε β}
    (each : ∀ value ∈ values, Carries change (step value) (other (move value))) :
    Carries (List.map change) (values.mapM step) ((values.map move).mapM other) := by
  induction values with
  | nil => exact .pure rfl
  | cons value values ih =>
      rw [List.map_cons, List.mapM_cons, List.mapM_cons]
      refine .bind (each value List.mem_cons_self) fun here _ => ?_
      refine .bind (ih fun value member => each value (List.mem_cons_of_mem _ member)) fun rest _ => ?_
      exact .pure rfl

/-- Steps that give the same give the same lists. -/
theorem mapM_same {other : δ → Except ε α}
    (each : ∀ value ∈ values, Carries id (step value) (other (move value))) :
    Carries id (values.mapM step) ((values.map move).mapM other) := by
  have all := mapM each
  rwa [List.map_id_fun] at all

end Carries

/-- Two computations give the same result, or both fail. Their errors may be different. -/
def Agree (first second : Except ε α) : Prop :=
  ∀ value, first = .ok value ↔ second = .ok value

namespace Agree

variable {first second : Except ε α}

theorem of_eq (same : first = second) : Agree first second := by
  intro value
  rw [same]

theorem bind {next other : α → Except ε β} (here : Agree first second)
    (later : ∀ value, Agree (next value) (other value)) :
    Agree (first >>= next) (second >>= other) := by
  intro result
  rw [bind_eq_ok_iff, bind_eq_ok_iff]
  exact exists_congr fun value => and_congr (here value) (later value result)

theorem map {change : α → β} (here : Agree first second) :
    Agree (change <$> first) (change <$> second) := by
  intro result
  rw [map_eq_ok_iff, map_eq_ok_iff]
  exact exists_congr fun value => and_congr_left' (here value)

/-- Runs over lists whose members are read alike. -/
theorem foldlM {step : β → α → Except ε β} {other : β → γ → Except ε β} {values : List α}
    {others : List γ}
    (all : List.Forall₂ (fun value partner => ∀ state, Agree (step state value) (other state partner))
      values others) (start : β) :
    Agree (values.foldlM step start) (others.foldlM other start) := by
  induction all generalizing start with
  | nil => exact of_eq rfl
  | cons here _ ih =>
      rw [List.foldlM_cons, List.foldlM_cons]
      exact (here start).bind fun next => ih next

end Agree

section Runs

variable {σ : Type} {action : ExceptT ε (StateM σ) α} {next : α → ExceptT ε (StateM σ) β}
  {before after : σ}

/-- Behind a step that succeeds, a run goes on from the state that the step leaves. -/
theorem run_bind_ok {value : α} (ran : action.run.run before = (.ok value, after)) :
    (action >>= next).run.run before = (next value).run.run after := by
  rw [ExceptT.run_bind, StateT.run_bind, ran]
  rfl

/-- A step that fails ends the run. -/
theorem run_bind_error {fault : ε} (ran : action.run.run before = (.error fault, after)) :
    (action >>= next).run.run before = (.error fault, after) := by
  rw [ExceptT.run_bind, StateT.run_bind, ran]
  rfl

/-- The steps of a run that succeeds have succeeded. -/
theorem exists_of_run_bind {result : β}
    (ran : (action >>= next).run.run before = (.ok result, after)) :
    ∃ value middle, action.run.run before = (.ok value, middle) ∧
      (next value).run.run middle = (.ok result, after) := by
  rcases taken : action.run.run before with ⟨fault | value, middle⟩
  · rw [run_bind_error taken] at ran
    cases congrArg Prod.fst ran
  · exact ⟨value, middle, rfl, (run_bind_ok taken).symm.trans ran⟩

theorem eq_of_run_pure {value result : α}
    (ran : (pure value : ExceptT ε (StateM σ) α).run.run before = (.ok result, after)) :
    result = value :=
  (Except.ok.inj (congrArg Prod.fst ran)).symm

end Runs

end Recordgen.Outcome
