/-
Actions that read and change a state and may raise, the state of a raising action
being the one it had reached.

`wp` is the weakest precondition for a pair of postconditions, one for returning and
one for raising; `Ends` asks nothing of an action that raises. `Simulates` compares two
actions on two states, and `Extends` an action that gives up with one that goes on;
`GoesOn` says also where that one ends. `Leads` is about an action that returns as soon
as it may go deep enough.
-/

import Mathlib.Control.Lawful

namespace OsCompiler

abbrev Action (State Raise : Type) := ExceptT Raise (StateM State)

namespace Action

variable {State Raise Result Other : Type}

def outcome (action : Action State Raise Result) (state : State) : Except Raise Result × State :=
  (ExceptT.run action).run state

@[simp] theorem outcome_pure (result : Result) (state : State) :
    outcome (pure result : Action State Raise Result) state = (.ok result, state) := rfl

@[simp] theorem outcome_throw (raise : Raise) (state : State) :
    outcome (throw raise : Action State Raise Result) state = (.error raise, state) := rfl

@[simp] theorem outcome_get (state : State) :
    outcome (get : Action State Raise State) state = (.ok state, state) := rfl

theorem outcome_bind (action : Action State Raise Result)
    (next : Result → Action State Raise Other) (state : State) :
    outcome (action >>= next) state =
      match outcome action state with
      | (.ok result, after) => outcome (next result) after
      | (.error raise, after) => (.error raise, after) := by
  simp only [outcome, ExceptT.run_bind]
  change StateT.run (_ >>= _) _ = _
  rw [StateT.run_bind]
  rcases StateT.run (ExceptT.run action) state with ⟨result | result, after⟩ <;> rfl

/-! ### Weakest preconditions -/

section WeakestPrecondition

variable {returns returns' : Result → State → Prop} {raises raises' : Raise → State → Prop}
variable {state : State}

def wp (action : Action State Raise Result) (returns : Result → State → Prop)
    (raises : Raise → State → Prop) (state : State) : Prop :=
  match outcome action state with
  | (.ok result, after) => returns result after
  | (.error raise, after) => raises raise after

theorem wp_pure {result : Result} :
    wp (pure result) returns raises state ↔ returns result state :=
  Iff.rfl

theorem wp_throw {raise : Raise} :
    wp (throw raise) returns raises state ↔ raises raise state :=
  Iff.rfl

theorem wp_get {returns : State → State → Prop} :
    wp get returns raises state ↔ returns state state :=
  Iff.rfl

theorem wp_bind {action : Action State Raise Other} {next : Other → Action State Raise Result} :
    wp (action >>= next) returns raises state ↔
      wp action (fun other => wp (next other) returns raises) raises state := by
  simp only [wp, outcome_bind]
  rcases outcome action state with ⟨raise | other, after⟩ <;> rfl

theorem wp_mono {action : Action State Raise Result} (holds : wp action returns raises state)
    (weakerReturns : ∀ result after, returns result after → returns' result after)
    (weakerRaises : ∀ raise after, raises raise after → raises' raise after) :
    wp action returns' raises' state := by
  unfold wp at holds ⊢
  generalize outcome action state = run at holds ⊢
  rcases run with ⟨raise | result, after⟩
  · exact weakerRaises raise after holds
  · exact weakerReturns result after holds

/-- A precondition of the first action and one of what follows compose. -/
theorem wp_seq {action : Action State Raise Other} {next : Other → Action State Raise Result}
    {middle : Other → State → Prop} (first : wp action middle raises state)
    (second : ∀ other after, middle other after → wp (next other) returns raises after) :
    wp (action >>= next) returns raises state :=
  wp_bind.mpr (wp_mono first second fun _ _ raised => raised)

theorem wp_and {action : Action State Raise Result} (first : wp action returns raises state)
    (second : wp action returns' raises' state) :
    wp action (fun result after => returns result after ∧ returns' result after)
      (fun raise after => raises raise after ∧ raises' raise after) state := by
  unfold wp at first second ⊢
  generalize outcome action state = run at first second ⊢
  rcases run with ⟨raise | result, after⟩
  · exact ⟨first, second⟩
  · exact ⟨first, second⟩

theorem wp_forall {Index : Type} [Inhabited Index] {returns : Index → Result → State → Prop}
    {action : Action State Raise Result}
    (each : ∀ index, wp action (returns index) raises state) :
    wp action (fun result after => ∀ index, returns index result after) raises state := by
  unfold wp at each ⊢
  generalize outcome action state = run at each ⊢
  rcases run with ⟨raise | result, after⟩
  · exact each default
  · exact each

theorem wp_of_outcome {action : Action State Raise Result} {result : Result} {after : State}
    (same : outcome action state = (.ok result, after)) :
    wp action returns raises state ↔ returns result after := by
  simp only [wp, same]

theorem wp_of_raise {action : Action State Raise Result} {raise : Raise} {after : State}
    (same : outcome action state = (.error raise, after)) :
    wp action returns raises state ↔ raises raise after := by
  simp only [wp, same]

/-- What a precondition says of the outcome. -/
theorem wp_iff_outcome {action : Action State Raise Result} :
    wp action returns raises state ↔
      (∀ result, (outcome action state).1 = .ok result → returns result (outcome action state).2) ∧
        ∀ raise, (outcome action state).1 = .error raise →
          raises raise (outcome action state).2 := by
  unfold wp
  rcases outcome action state with ⟨raise | result, after⟩
  · simp
  · simp

end WeakestPrecondition

/-! ### Actions that may not return -/

section Ends

variable {returns middle : State → Prop} {state : State}

/-- Where the action returns, the state is as stated. -/
def Ends (returns : State → Prop) (action : Action State Raise Result) (state : State) : Prop :=
  wp action (fun _ after => returns after) (fun _ _ => True) state

theorem Ends.seq {action : Action State Raise Other} {next : Other → Action State Raise Result}
    (first : Ends middle action state)
    (second : ∀ other after, middle after → Ends returns (next other) after) :
    Ends returns (action >>= next) state :=
  wp_seq first second

theorem Ends.weaken {action : Action State Raise Result} (ends : Ends middle action state)
    (weaker : ∀ after, middle after → returns after) : Ends returns action state :=
  wp_mono ends (fun _ => weaker) fun _ _ _ => trivial

theorem ends_any {action : Action State Raise Result} : Ends (fun _ => True) action state :=
  wp_iff_outcome.mpr ⟨fun _ _ => trivial, fun _ _ => trivial⟩

theorem ends_pure {result : Result} (holds : returns state) :
    Ends returns (pure result : Action State Raise Result) state :=
  holds

theorem ends_get {next : State → Action State Raise Result} :
    Ends returns (get >>= next) state ↔ Ends returns (next state) state := by
  rw [Ends, wp_bind, wp_get]
  rfl

/-- A state property that the action keeps. -/
class Keeps (kept : State → Prop) (action : Action State Raise Result) : Prop where
  keeps : ∀ state, kept state → Ends kept action state

variable {kept : State → Prop}

instance (result : Result) : Keeps kept (pure result : Action State Raise Result) :=
  ⟨fun _ holds => holds⟩

instance : Keeps kept (get : Action State Raise State) :=
  ⟨fun _ holds => holds⟩

instance {action : Action State Raise Other} {next : Other → Action State Raise Result}
    [first : Keeps kept action] [second : ∀ other, Keeps kept (next other)] :
    Keeps kept (action >>= next) :=
  ⟨fun state holds => (first.keeps state holds).seq fun other => (second other).keeps⟩

instance {condition : Prop} [Decidable condition] {yes no : Action State Raise Result}
    [onTrue : Keeps kept yes] [onFalse : Keeps kept no] :
    Keeps kept (if condition then yes else no) := by
  by_cases holds : condition
  · rwa [if_pos holds]
  · rwa [if_neg holds]

end Ends

/-! ### Two runs -/

section TwoRuns

variable {Related : State → State → Prop}

/-- From related states both actions return the same result, or both raise the same, in
related states. -/
def Simulates (Related : State → State → Prop) (left right : Action State Raise Result)
    (state state' : State) : Prop :=
  (outcome left state).1 = (outcome right state').1 ∧
    Related (outcome left state).2 (outcome right state').2

theorem simulates_bind {left right : Action State Raise Other}
    {next next' : Other → Action State Raise Result} {state state' : State}
    (first : Simulates Related left right state state')
    (second : ∀ other after after', Related after after' →
      Simulates Related (next other) (next' other) after after') :
    Simulates Related (left >>= next) (right >>= next') state state' := by
  rcases first with ⟨same, between⟩
  simp only [Simulates, outcome_bind]
  rcases leftRun : outcome left state with ⟨raise | other, after⟩ <;>
    rcases rightRun : outcome right state' with ⟨raise' | other', after'⟩ <;>
    rw [leftRun, rightRun] at same between
  · exact ⟨congrArg Except.error (Except.error.inj same), between⟩
  · cases same
  · cases same
  · cases same
    exact second other after after' between

/-- Both runs go on behind first actions that return. -/
theorem simulates_after {left right : Action State Raise Other}
    {next next' : Other → Action State Raise Result} {state state' : State} {other other' : Other}
    {after after' : State} (leftRun : outcome left state = (.ok other, after))
    (rightRun : outcome right state' = (.ok other', after'))
    (second : Simulates Related (next other) (next' other') after after') :
    Simulates Related (left >>= next) (right >>= next') state state' := by
  simp only [Simulates, outcome_bind, leftRun, rightRun]
  exact second

theorem simulates_raise {left right : Action State Raise Other}
    {next next' : Other → Action State Raise Result} {state state' : State} {raise : Raise}
    {after after' : State} (leftRun : outcome left state = (.error raise, after))
    (rightRun : outcome right state' = (.error raise, after')) (related : Related after after') :
    Simulates Related (left >>= next) (right >>= next') state state' := by
  simp only [Simulates, outcome_bind, leftRun, rightRun]
  exact ⟨trivial, related⟩

end TwoRuns

/-! ### Actions that give up -/

section GivingUp

variable {kept : State → Prop} {given : Raise} {left right : Action State Raise Result}

/-- From a state that has the property, where the left action does not give up, the right one
does the same, and the property is kept. -/
def Extends (kept : State → Prop) (given : Raise) (left right : Action State Raise Result) :
    Prop :=
  ∀ state, kept state → (outcome left state).1 ≠ .error given →
    outcome right state = outcome left state ∧ kept (outcome left state).2

theorem extends_refl {action : Action State Raise Result}
    (keeps : ∀ state, kept state → kept (outcome action state).2) :
    Extends kept given action action :=
  fun state holds _ => ⟨rfl, keeps state holds⟩

theorem extends_pure (result : Result) :
    Extends kept given (pure result : Action State Raise Result) (pure result) :=
  extends_refl fun _ holds => holds

theorem extends_throw (raise : Raise) :
    Extends kept given (throw raise : Action State Raise Result) (throw raise) :=
  extends_refl fun _ holds => holds

theorem extends_get : Extends kept given (get : Action State Raise State) get :=
  extends_refl fun _ holds => holds

theorem extends_of_giving : Extends kept given (throw given : Action State Raise Result) right :=
  fun _ _ goes => absurd rfl goes

theorem Extends.congr {right' : Action State Raise Result} (extended : Extends kept given left right)
    (same : ∀ state, outcome right state = outcome right' state) :
    Extends kept given left right' := by
  intro state holds goes
  rw [← same state]
  exact extended state holds goes

theorem Extends.trans {middle : Action State Raise Result} (first : Extends kept given left middle)
    (second : Extends kept given middle right) : Extends kept given left right := by
  intro state holds goes
  rcases first state holds goes with ⟨same, keeps⟩
  exact ⟨(second state holds (same ▸ goes)).1.trans same, keeps⟩

theorem extends_bind {first first' : Action State Raise Other}
    {next next' : Other → Action State Raise Result} (before : Extends kept given first first')
    (behind : ∀ other, Extends kept given (next other) (next' other)) :
    Extends kept given (first >>= next) (first' >>= next') := by
  intro state holds goes
  rw [outcome_bind] at goes ⊢
  rw [outcome_bind]
  have same := before state holds
  rcases leftRun : outcome first state with ⟨raise | other, after⟩
  · rw [leftRun] at goes same
    have other : raise ≠ given := fun gives => goes (congrArg Except.error gives)
    have raised := same fun gives => other (Except.error.inj gives)
    rw [raised.1]
    exact ⟨rfl, raised.2⟩
  · rw [leftRun] at goes same
    have returned := same nofun
    rw [returned.1]
    exact behind other after returned.2 goes

theorem extends_ite {condition : Prop} [Decidable condition]
    {yes yes' no no' : Action State Raise Result} (onTrue : Extends kept given yes yes')
    (onFalse : Extends kept given no no') :
    Extends kept given (if condition then yes else no) (if condition then yes' else no') := by
  by_cases holds : condition
  · rw [if_pos holds, if_pos holds]
    exact onTrue
  · rw [if_neg holds, if_neg holds]
    exact onFalse

end GivingUp

/-! ### Actions that are cut short -/

section CutShort

variable {Later : State → State → Prop} {left right : Action State Raise Result}

/-- Where the left action returns, the right one does the same; where it raises, the right
one ends in a later state, and so it does in any case. -/
structure GoesOn (Later : State → State → Prop) (left right : Action State Raise Result) :
    Prop where
  keeps : ∀ state, Later state (outcome right state).2
  returns : ∀ {state after result}, outcome left state = (.ok result, after) →
    outcome right state = (.ok result, after)
  raises : ∀ {state cut raise}, outcome left state = (.error raise, cut) →
    Later cut (outcome right state).2

variable (refl : ∀ state, Later state state)
  (trans : ∀ first second third, Later first second → Later second third → Later first third)

include refl

theorem goesOn_self {action : Action State Raise Result}
    (keeps : ∀ state, Later state (outcome action state).2) : GoesOn Later action action where
  keeps := keeps
  returns same := same
  raises same := by
    rw [same]
    exact refl _

theorem GoesOn.later (goesOn : GoesOn Later left right) (state : State) :
    Later (outcome left state).2 (outcome right state).2 := by
  rcases run : outcome left state with ⟨raise | result, after⟩
  · exact goesOn.raises run
  · rw [goesOn.returns run]
    exact refl after

omit refl

include trans

theorem goesOn_bind {first first' : Action State Raise Other}
    {next next' : Other → Action State Raise Result} (before : GoesOn Later first first')
    (behind : ∀ other, GoesOn Later (next other) (next' other)) :
    GoesOn Later (first >>= next) (first' >>= next') := by
  have keeps : ∀ {state after other}, outcome first' state = (.ok other, after) →
      Later after (outcome (first' >>= next') state).2 := by
    intro state after other run
    rw [outcome_bind, run]
    exact (behind other).keeps after
  constructor
  · intro state
    have middle := before.keeps state
    rcases run : outcome first' state with ⟨raise | other, after⟩
    · rw [run] at middle
      rwa [outcome_bind, run]
    · rw [run] at middle
      exact trans _ _ _ middle (keeps run)
  · intro state after result same
    rw [outcome_bind] at same
    rcases run : outcome first state with ⟨raise | other, middle⟩
    · rw [run] at same
      cases same
    · rw [run] at same
      rw [outcome_bind, before.returns run]
      exact (behind other).returns same
  · intro state cut raise same
    rw [outcome_bind] at same
    rcases run : outcome first state with ⟨raise' | other, middle⟩
    · rw [run] at same
      cases same
      have later := before.raises run
      rcases run' : outcome first' state with ⟨raise'' | other', after⟩
      · rw [run'] at later
        rwa [outcome_bind, run']
      · rw [run'] at later
        exact trans _ _ _ later (keeps run')
    · rw [run] at same
      rw [outcome_bind, before.returns run]
      exact (behind other).raises same

omit trans

theorem goesOn_ite {condition : Prop} [Decidable condition]
    {yes yes' no no' : Action State Raise Result} (onTrue : GoesOn Later yes yes')
    (onFalse : GoesOn Later no no') :
    GoesOn Later (if condition then yes else no) (if condition then yes' else no') := by
  by_cases holds : condition
  · rwa [if_pos holds, if_pos holds]
  · rwa [if_neg holds, if_neg holds]

end CutShort

/-! ### Actions with a depth -/

section Depth

variable {returns middle : State → Prop} {state : State}

/-- From some depth on the action returns, always the same and as stated. -/
def Leads (returns : State → Prop) (action : Nat → Action State Raise Result) (state : State) :
    Prop :=
  ∃ enough result after, returns after ∧
    ∀ depth, enough ≤ depth → outcome (action depth) state = (.ok result, after)

theorem leads_of_outcome {action : Action State Raise Result} {result : Result} {after : State}
    (run : outcome action state = (.ok result, after)) (holds : returns after) :
    Leads returns (fun _ => action) state :=
  ⟨0, result, after, holds, fun _ _ => run⟩

theorem Leads.seq {action : Nat → Action State Raise Other}
    {next : Nat → Other → Action State Raise Result} (first : Leads middle action state)
    (second : ∀ other after, middle after → Leads returns (fun depth => next depth other) after) :
    Leads returns (fun depth => action depth >>= next depth) state := by
  rcases first with ⟨enough, other, between, reached, run⟩
  rcases second other between reached with ⟨enough', result, after, holds, run'⟩
  refine ⟨max enough enough', result, after, holds, fun depth deep => ?_⟩
  rw [outcome_bind, run depth (Nat.le_trans (Nat.le_max_left _ _) deep)]
  exact run' depth (Nat.le_trans (Nat.le_max_right _ _) deep)

theorem leads_get {next : Nat → State → Action State Raise Result} :
    Leads returns (fun depth => get >>= next depth) state ↔
      Leads returns (fun depth => next depth state) state :=
  Iff.rfl

end Depth

end Action

end OsCompiler
