/-
Finite runs of a partial step function, read as histories: invariants may speak
about the labels done so far together with the state they lead to.

Two run predicates are related here. A state predicate holds throughout a run
when it holds in the state after every prefix; a step condition holds at each
step when the state before every step meets it. Where one step keeps the
predicate exactly when it meets the condition, the two agree on whole runs.
-/

import Mathlib.Data.List.Induction

namespace OsCompiler.Transition

variable {State Label : Type} {step : State → Label → Option State} {start : State}

/-- Execute the labels in order; `none` as soon as one step is not possible. -/
def runAll (step : State → Label → Option State) (start : State) (labels : List Label) :
    Option State :=
  labels.foldlM step start

@[simp] theorem runAll_nil : runAll step start [] = some start := rfl

theorem runAll_append (first second : List Label) :
    runAll step start (first ++ second) =
      (runAll step start first).bind fun state => runAll step state second := by
  simp only [runAll, List.foldlM_append]
  rfl

theorem runAll_snoc_eq_some {labels : List Label} {label : Label} {final : State} :
    runAll step start (labels ++ [label]) = some final ↔
      ∃ before, runAll step start labels = some before ∧ step before label = some final := by
  rw [runAll_append, Option.bind_eq_some_iff]
  simp [runAll]

/-- An invariant of the history and the state reached. -/
theorem runAll_history (Inv : List Label → State → Prop) {labels : List Label} {final : State}
    (run : runAll step start labels = some final) (initial : Inv [] start)
    (preserved : ∀ done before label after, Inv done before →
      step before label = some after → Inv (done ++ [label]) after) :
    Inv labels final := by
  induction labels using List.reverseRecOn generalizing final with
  | nil =>
      rw [runAll_nil, Option.some.injEq] at run
      subst run
      exact initial
  | append_singleton labels label ih =>
      obtain ⟨before, earlier, moved⟩ := runAll_snoc_eq_some.mp run
      exact preserved _ _ _ _ (ih earlier) moved

theorem runAll_invariant {Inv : State → Prop} {labels : List Label} {final : State}
    (run : runAll step start labels = some final) (initial : Inv start)
    (preserved : ∀ before label after, Inv before →
      step before label = some after → Inv after) :
    Inv final :=
  runAll_history (fun _ state => Inv state) run initial
    (fun _ before label after => preserved before label after)

/-- Labels that are always possible under the invariant run to the end. -/
theorem runAll_progress (Inv : List Label → State → Prop) (allowed : Label → Prop)
    {labels : List Label} (permitted : ∀ label ∈ labels, allowed label)
    (initial : Inv [] start)
    (progress : ∀ done before label, Inv done before → allowed label →
      ∃ after, step before label = some after ∧ Inv (done ++ [label]) after) :
    ∃ final, runAll step start labels = some final ∧ Inv labels final := by
  induction labels using List.reverseRecOn with
  | nil => exact ⟨start, runAll_nil, initial⟩
  | append_singleton labels label ih =>
      obtain ⟨before, earlier, holds⟩ := ih
        (fun other member => permitted other (List.mem_append_left _ member))
      obtain ⟨after, moved, kept⟩ := progress labels before label holds
        (permitted label (by simp))
      exact ⟨after, runAll_snoc_eq_some.mpr ⟨before, earlier, moved⟩, kept⟩

/-- The predicate holds in the state after every prefix of the labels. -/
def Throughout (step : State → Label → Option State) (start : State)
    (labels : List Label) (good : State → Prop) : Prop :=
  ∀ done rest state, labels = done ++ rest → runAll step start done = some state → good state

/-- The state before every step of the labels meets the condition for its label. -/
def EachStep (step : State → Label → Option State) (start : State)
    (labels : List Label) (condition : State → Label → Prop) : Prop :=
  ∀ done label rest before, labels = done ++ label :: rest →
    runAll step start done = some before → condition before label

theorem throughout_snoc {labels : List Label} {label : Label} {good : State → Prop} :
    Throughout step start (labels ++ [label]) good ↔
      Throughout step start labels good ∧
        ∀ final, runAll step start (labels ++ [label]) = some final → good final := by
  constructor
  · intro throughout
    constructor
    · intro done rest state split run
      exact throughout done (rest ++ [label]) state (by rw [split, List.append_assoc]) run
    · intro final run
      exact throughout _ [] final (by simp) run
  · intro both done rest state split run
    rcases both with ⟨earlier, last⟩
    rcases List.eq_nil_or_concat rest with rfl | ⟨tail, other, rfl⟩
    · rw [List.append_nil] at split
      subst split
      exact last state run
    · rw [List.concat_eq_append, ← List.append_assoc] at split
      obtain ⟨same, _⟩ := List.append_inj' split rfl
      exact earlier done tail state same run

theorem eachStep_snoc {labels : List Label} {label : Label}
    {condition : State → Label → Prop} :
    EachStep step start (labels ++ [label]) condition ↔
      EachStep step start labels condition ∧
        ∀ before, runAll step start labels = some before → condition before label := by
  constructor
  · intro each
    constructor
    · intro done next rest before split run
      exact each done next (rest ++ [label]) before (by rw [split]; simp) run
    · intro before run
      exact each labels label [] before rfl run
  · intro both done next rest before split run
    rcases both with ⟨earlier, last⟩
    rcases List.eq_nil_or_concat rest with rfl | ⟨tail, other, rfl⟩
    · obtain ⟨same, sameLabel⟩ := List.append_inj' split rfl
      cases sameLabel
      subst same
      exact last before run
    · have regrouped : labels ++ [label] = (done ++ next :: tail) ++ [other] := by
        rw [split, List.concat_eq_append]
        simp
      obtain ⟨same, _⟩ := List.append_inj' regrouped rfl
      exact earlier done next tail before same run

theorem throughout_nil {good : State → Prop} (initial : good start) :
    Throughout step start [] good := by
  intro done rest state split run
  obtain ⟨rfl, _⟩ := List.append_eq_nil_iff.mp split.symm
  rw [runAll_nil, Option.some.injEq] at run
  exact run ▸ initial

theorem eachStep_nil {condition : State → Label → Prop} :
    EachStep step start [] condition := by
  intro done label rest before split
  simp at split

theorem eachStep_left {first second : List Label} {condition : State → Label → Prop}
    (each : EachStep step start (first ++ second) condition) :
    EachStep step start first condition := by
  intro done label rest before split run
  exact each done label (rest ++ second) before (by rw [split]; simp) run

/-- Steps that are possible where the condition is met run to the end if each meets it. -/
theorem runAll_of_eachStep {Inv : State → Prop} {condition : State → Label → Prop}
    {labels : List Label} (initial : Inv start)
    (progress : ∀ before label, Inv before → condition before label →
      ∃ after, step before label = some after ∧ Inv after)
    (each : EachStep step start labels condition) :
    ∃ final, runAll step start labels = some final ∧ Inv final := by
  induction labels using List.reverseRecOn with
  | nil => exact ⟨start, runAll_nil, initial⟩
  | append_singleton labels label ih =>
      rcases eachStep_snoc.mp each with ⟨earlier, last⟩
      rcases ih earlier with ⟨before, reached, holds⟩
      rcases progress before label holds (last before reached) with ⟨after, moved, kept⟩
      exact ⟨after, runAll_snoc_eq_some.mpr ⟨before, reached, moved⟩, kept⟩

/-- Where each allowed step that meets the condition keeps the invariant, a run of such
steps keeps it in every state. -/
theorem throughout_of_eachStep {good : State → Prop} {condition : State → Label → Prop}
    {labels : List Label} (allowed : Label → Prop)
    (permitted : ∀ label ∈ labels, allowed label) (initial : good start)
    (preserved : ∀ before label after, good before → allowed label → condition before label →
      step before label = some after → good after)
    (each : EachStep step start labels condition) :
    Throughout step start labels good := by
  induction labels using List.reverseRecOn with
  | nil => exact throughout_nil initial
  | append_singleton labels label ih =>
      obtain ⟨earlier, met⟩ := eachStep_snoc.mp each
      have throughout := ih (fun other member => permitted other (List.mem_append_left _ member))
        earlier
      refine throughout_snoc.mpr ⟨throughout, ?_⟩
      intro final run
      obtain ⟨before, reached, moved⟩ := runAll_snoc_eq_some.mp run
      have goodBefore := throughout labels [] before (by simp) reached
      exact preserved before label final goodBefore (permitted label (by simp))
        (met before reached) moved

/-- Where an invariant `strong` implies the predicate, is kept by every step that meets
the condition, and the predicate is lost by every step that does not, a run keeps the
predicate in every state exactly when each of its steps meets the condition. -/
theorem throughout_iff_eachStep_of_strong {strong good : State → Prop}
    {condition : State → Label → Prop} {labels : List Label} {final : State}
    (run : runAll step start labels = some final) (allowed : Label → Prop)
    (permitted : ∀ label ∈ labels, allowed label) (initial : strong start)
    (sound : ∀ state, strong state → good state)
    (preserved : ∀ before label after, strong before → allowed label → condition before label →
      step before label = some after → strong after)
    (necessary : ∀ before label after, strong before → allowed label →
      step before label = some after → good after → condition before label) :
    Throughout step start labels good ↔ EachStep step start labels condition := by
  constructor
  · intro throughout
    -- The run so far met the condition, so `strong` holds where the next step starts.
    induction labels using List.reverseRecOn generalizing final with
    | nil => exact eachStep_nil
    | append_singleton labels label ih =>
        obtain ⟨before, reached, moved⟩ := runAll_snoc_eq_some.mp run
        obtain ⟨earlier, last⟩ := throughout_snoc.mp throughout
        have permittedEarlier : ∀ other ∈ labels, allowed other :=
          fun other member => permitted other (List.mem_append_left _ member)
        have each := ih reached permittedEarlier earlier
        refine eachStep_snoc.mpr ⟨each, ?_⟩
        intro other otherReached
        have same : other = before := Option.some.inj (otherReached.symm.trans reached)
        subst same
        have strongBefore : strong other := throughout_of_eachStep allowed permittedEarlier initial
          preserved each labels [] other (by simp) reached
        exact necessary other label final strongBefore (permitted label (by simp)) moved
          (last final run)
  · intro each done rest state split reached
    exact sound state (throughout_of_eachStep allowed permitted initial preserved each done rest
      state split reached)

/-! ### Computations that complete -/

theorem bind_eq_ok {Stop Result Next : Type} {first : Except Stop Result}
    {second : Result → Except Stop Next} {next : Next} :
    (first >>= second) = .ok next ↔ ∃ result, first = .ok result ∧ second result = .ok next := by
  cases first with
  | error stop => simp [bind, Except.bind]
  | ok result => simp [bind, Except.bind]

theorem bind_ne_error {Stop Result Next : Type} {first : Except Stop Result}
    {second : Result → Except Stop Next} {stop : Stop} (begins : first ≠ .error stop)
    (continues : ∀ result, first = .ok result → second result ≠ .error stop) :
    (first >>= second) ≠ .error stop := by
  cases first with
  | error other =>
      intro failed
      cases failed
      exact begins rfl
  | ok result => exact continues result rfl

theorem toOption_eq_some {Stop Result : Type} {computation : Except Stop Result}
    {result : Result} : computation.toOption = some result ↔ computation = .ok result := by
  cases computation <;> simp [Except.toOption]

end OsCompiler.Transition
