/-
What every call of a parse procedure of `lab_parser.c` does to `pToken` and the trace.

`pToken` never goes back, and the events that a call adds to the trace stand between its
beginning and its end. A call that is cut short at some depth has the first of the events
that it has at a greater one.
-/

import OsCompiler.LabParser.Procedures

namespace OsCompiler.LabParser

open OsCompiler.Action

variable {input : List Entry}

private theorem le_skipLines (input : List Entry) (index : Nat) :
    index ≤ skipLines input index := by
  induction index using skipLines.induct input with
  | case1 index inside line ih =>
      rw [skipLines, dif_pos inside, if_pos line]
      exact Nat.le_of_succ_le ih
  | case2 index inside noLine =>
      have stays : skipLines input index = index := by
        rw [skipLines, dif_pos inside, if_neg noLine]
      exact Nat.le_of_eq stays.symm
  | case3 index outside =>
      have stays : skipLines input index = index := by
        rw [skipLines, dif_neg outside]
      exact Nat.le_of_eq stays.symm

theorem lt_moved_pToken (input : List Entry) (state : State) :
    state.pToken < (state.moved input).pToken := by
  have bound := le_skipLines input (state.pToken + 1)
  simp only [State.moved]
  split
  · exact Nat.lt_succ_self _
  · exact bound

@[simp] theorem moved_trace (state : State) : (state.moved input).trace = state.trace := by
  simp only [State.moved]
  split <;> rfl

@[simp] theorem moved_errors (state : State) : (state.moved input).errors = state.errors := by
  simp only [State.moved]
  split <;> rfl

@[simp] theorem moved_currentPro (state : State) :
    (state.moved input).currentPro = state.currentPro := by
  simp only [State.moved]
  split <;> rfl

@[simp] theorem moved_var (state : State) : (state.moved input).var = state.var := by
  simp only [State.moved]
  split <;> rfl

@[simp] theorem moved_pro (state : State) : (state.moved input).pro = state.pro := by
  simp only [State.moved]
  split <;> rfl

@[simp] theorem moved_pChar (state : State) : (state.moved input).pChar = 0 := by
  simp only [State.moved]
  split <;> rfl

def Event.behind : Event → Nat
  | .entered _ pToken => pToken
  | .next pToken => pToken + 1

/-- `pToken` has not gone back, and the events since then happened between the two. -/
structure Onward (before after : State) : Prop where
  pToken : before.pToken ≤ after.pToken
  pChar : before.pChar = 0 → after.pChar = 0
  events : ∃ events, after.trace = before.trace ++ events ∧
    ∀ event ∈ events, before.pToken ≤ event.pToken ∧ event.behind ≤ after.pToken

namespace Onward

theorem refl (state : State) : Onward state state :=
  ⟨Nat.le_refl _, id, [], (List.append_nil _).symm, nofun⟩

theorem trans {first second third : State} (before : Onward first second)
    (behind : Onward second third) : Onward first third := by
  rcases before with ⟨lower, pChar, events, trace, between⟩
  rcases behind with ⟨upper, pChar', events', trace', between'⟩
  refine ⟨Nat.le_trans lower upper, fun zero => pChar' (pChar zero), events ++ events', ?_, ?_⟩
  · rw [trace', trace, List.append_assoc]
  · intro event member
    rcases List.mem_append.mp member with member | member
    · have bounds := between event member
      exact ⟨bounds.1, Nat.le_trans bounds.2 upper⟩
    · have bounds := between' event member
      exact ⟨Nat.le_trans lower bounds.1, bounds.2⟩

theorem quiet {before after : State} (pToken : after.pToken = before.pToken)
    (pChar : after.pChar = before.pChar) (trace : after.trace = before.trace) :
    Onward before after :=
  ⟨Nat.le_of_eq pToken.symm, pChar.trans, [], trace.trans (List.append_nil _).symm, nofun⟩

theorem entered (procedure : Procedure) (state : State) :
    Onward state (state.logged (.entered procedure state.pToken)) := by
  refine ⟨Nat.le_refl _, id, _, rfl, fun event member => ?_⟩
  rw [List.mem_singleton.mp member]
  exact ⟨Nat.le_refl _, Nat.le_refl _⟩

theorem next (input : List Entry) (state : State) :
    Onward state ((state.logged (.next state.pToken)).moved input) := by
  have later := lt_moved_pToken input (state.logged (.next state.pToken))
  refine ⟨Nat.le_of_lt later, fun _ => moved_pChar _, [.next state.pToken], by simp [State.logged],
    fun event member => ?_⟩
  rw [List.mem_singleton.mp member]
  exact ⟨Nat.le_refl _, later⟩

theorem mem_trace {before after : State} (onward : Onward before after) {event : Event}
    (member : event ∈ before.trace) : event ∈ after.trace := by
  rcases onward.events with ⟨events, trace, _⟩
  rw [trace]
  exact List.mem_append_left events member

end Onward

/-! ### Every call -/

/-- A change of the tables or the errors alone. -/
class Quiet (update : State → State) : Prop where
  pToken : ∀ state, (update state).pToken = state.pToken
  pChar : ∀ state, (update state).pChar = state.pChar
  trace : ∀ state, (update state).trace = state.trace

instance (vname : String) : Quiet fun state => state.describeVar vname :=
  ⟨fun _ => rfl, fun _ => rfl, fun _ => rfl⟩

instance : Quiet State.enterVar := ⟨fun _ => rfl, fun _ => rfl, fun _ => rfl⟩

instance (pname : String) : Quiet fun state => state.describePro pname :=
  ⟨fun _ => rfl, fun _ => rfl, fun _ => rfl⟩

instance : Quiet State.noteParameter := ⟨fun _ => rfl, fun _ => rfl, fun _ => rfl⟩

instance : Quiet State.enterPro := ⟨fun _ => rfl, fun _ => rfl, fun _ => rfl⟩

instance (proBackup : ProRecord) : Quiet fun state => state.restorePro proBackup :=
  ⟨fun _ => rfl, fun _ => rfl, fun _ => rfl⟩

/-- The left action, and the right one at a greater depth. -/
class GoesOnward {Result : Type} (left right : Parser Result) : Prop where
  goesOn : GoesOn Onward left right

theorem goesOnward_self {Result : Type} {action : Parser Result}
    (keeps : ∀ state, Onward state (outcome action state).2) : GoesOnward action action :=
  ⟨goesOn_self Onward.refl keeps⟩

/-- An action that looks, reports or keeps the tables, and always returns. -/
class Stays {Result : Type} (action : Parser Result) : Prop where
  returns : ∀ state, ∃ result after, outcome action state = (.ok result, after) ∧
    after.pToken = state.pToken ∧ after.pChar = state.pChar ∧ after.trace = state.trace

section Parts

variable {Result Other : Type}

instance (result : Result) : Stays (pure result) :=
  ⟨fun state => ⟨result, state, rfl, rfl, rfl, rfl⟩⟩

instance : Stays get := ⟨fun state => ⟨state, state, rfl, rfl, rfl, rfl⟩⟩

instance {action : Parser Other} {next : Other → Parser Result} [first : Stays action]
    [second : ∀ other, Stays (next other)] : Stays (action >>= next) := by
  refine ⟨fun state => ?_⟩
  rcases first.returns state with ⟨other, middle, run, pToken, pChar, trace⟩
  rcases (second other).returns middle with ⟨result, after, run', pToken', pChar', trace'⟩
  refine ⟨result, after, ?_, pToken'.trans pToken, pChar'.trans pChar, trace'.trans trace⟩
  rw [outcome_bind, run]
  exact run'

instance {condition : Prop} [Decidable condition] {yes no : Parser Result} [onTrue : Stays yes]
    [onFalse : Stays no] : Stays (if condition then yes else no) := by
  by_cases holds : condition
  · rwa [if_pos holds]
  · rwa [if_neg holds]

instance {update : State → State} [quiet : Quiet update] : Stays (change update) :=
  ⟨fun state => ⟨(), update state, rfl, quiet.pToken state, quiet.pChar state, quiet.trace state⟩⟩

instance (errNum : Nat) (symbol : Option String) : Stays (error errNum symbol) :=
  ⟨fun _ => ⟨(), _, rfl, rfl, rfl, rfl⟩⟩

instance : Stays (current input) := by
  unfold current
  infer_instance

instance : Stays (declareVar input) := by
  unfold declareVar
  infer_instance

instance : Stays (declarePro input) := by
  unfold declarePro
  infer_instance

instance : Stays (checkParameter input) := by
  unfold checkParameter
  infer_instance

instance : Stays (checkVar input) := by
  unfold checkVar
  infer_instance

instance : Stays (checkAssigned input) := by
  unfold checkAssigned
  infer_instance

instance : Stays (checkPro input) := by
  unfold checkPro
  infer_instance

instance (priority := low) {action : Parser Result} [stays : Stays action] :
    GoesOnward action action :=
  goesOnward_self fun state => by
    rcases stays.returns state with ⟨result, after, run, pToken, pChar, trace⟩
    rw [run]
    exact Onward.quiet pToken pChar trace

instance {first first' : Parser Other} {next next' : Other → Parser Result}
    [before : GoesOnward first first'] [behind : ∀ other, GoesOnward (next other) (next' other)] :
    GoesOnward (first >>= next) (first' >>= next') := by
  have trans : ∀ first second third : State, Onward first second → Onward second third →
      Onward first third := fun _ _ _ => Onward.trans
  exact ⟨goesOn_bind trans before.goesOn fun other => (behind other).goesOn⟩

instance {condition : Prop} [Decidable condition] {yes yes' no no' : Parser Result}
    [onTrue : GoesOnward yes yes'] [onFalse : GoesOnward no no'] :
    GoesOnward (if condition then yes else no) (if condition then yes' else no') :=
  ⟨goesOn_ite onTrue.goesOn onFalse.goesOn⟩

instance : GoesOnward (nextToken input) (nextToken input) :=
  goesOnward_self fun state => Onward.next input state

instance (word : String) (skips : Entry → Bool) :
    GoesOnward (expect input word skips) (expect input word skips) := by
  unfold expect
  infer_instance

instance (procedure : Procedure) :
    GoesOnward (change fun state => state.logged (.entered procedure state.pToken))
      (change fun state => state.logged (.entered procedure state.pToken)) :=
  goesOnward_self fun state => Onward.entered procedure state

end Parts

section Bodies

set_option synthInstance.maxSize 1024

variable {call call' : Procedure → Parser Unit}
variable [∀ callee, GoesOnward (call callee) (call' callee)]

instance : GoesOnward (functionHead input call) (functionHead input call') := by
  unfold functionHead
  infer_instance

instance : GoesOnward (functionRest input call) (functionRest input call') := by
  unfold functionRest
  infer_instance

instance (procedure : Procedure) :
    GoesOnward (body input call procedure) (body input call' procedure) := by
  cases procedure
  all_goals
    simp only [body, A, B, C, C_, D, E, F, G, J, K, L, M, M_, N, O, P, inBrackets, Q, R, R_, S, S_,
      T, U, W, X, Y, Z]
    infer_instance

end Bodies

theorem onward_invoke (input : List Entry) (depth : Nat) (procedure : Procedure) (state : State) :
    Onward state (outcome (invoke input depth procedure) state).2 := by
  induction depth generalizing procedure state with
  | zero => exact Onward.refl state
  | succ depth ih =>
      have calls (callee : Procedure) :
          GoesOnward (invoke input depth callee) (invoke input depth callee) :=
        goesOnward_self (ih callee)
      have whole : GoesOnward (invoke input (depth + 1) procedure)
          (invoke input (depth + 1) procedure) := by
        unfold invoke
        infer_instance
      exact whole.goesOn.keeps state

instance (depth : Nat) (procedure : Procedure) :
    GoesOnward (invoke input depth procedure) (invoke input depth procedure) :=
  goesOnward_self (onward_invoke input depth procedure)

private theorem invoke_goesOnward (input : List Entry) (depth : Nat) (procedure : Procedure) :
    GoesOnward (invoke input depth procedure) (invoke input (depth + 1) procedure) := by
  induction depth generalizing procedure with
  | zero =>
      refine ⟨onward_invoke input 1 procedure, nofun, ?_⟩
      intro state cut raise same
      cases same
      exact onward_invoke input 1 procedure state
  | succ depth ih =>
      unfold invoke
      infer_instance

/-- A greater depth changes nothing about a call that returns, and lets one that is cut short
go on. -/
theorem invoke_deeper (input : List Entry) {depth deeper : Nat} (deep : depth ≤ deeper)
    (procedure : Procedure) :
    GoesOn Onward (invoke input depth procedure) (invoke input deeper procedure) := by
  induction deep with
  | refl => exact goesOn_self Onward.refl (onward_invoke input depth procedure)
  | @step deeper _ ih =>
      have next := (invoke_goesOnward input deeper procedure).goesOn
      refine ⟨next.keeps, fun same => next.returns (ih.returns same), ?_⟩
      intro state cut raise same
      exact Onward.trans (ih.raises same) (next.later Onward.refl state)

end OsCompiler.LabParser
