/-
State properties that the parse procedures of `lab_parser.c` keep.

The parts of the procedures that change the state are few. What they keep is kept by the
body of every procedure whose calls keep it.
-/

import OsCompiler.LabParser.Runs

namespace OsCompiler.LabParser

open OsCompiler.Action

variable {input : List Entry} {depth : Nat} {state : State}

section Calls

variable {Result : Type} {returns : State → Prop}

theorem ends_current {next : Entry → Parser Result} :
    Ends returns (current input >>= next) state ↔
      Ends returns (next (state.current input)) state := by
  have run : outcome (current input) state = (.ok (state.current input), state) := rfl
  rw [Ends, wp_bind, wp_of_outcome run]
  rfl

theorem ends_change {update : State → State} (holds : returns (update state)) :
    Ends returns (change update) state :=
  holds

theorem ends_succ {procedure : Procedure}
    (behind : Ends returns (body input (invoke input depth) procedure)
      (state.logged (.entered procedure state.pToken))) :
    Ends returns (invoke input (depth + 1) procedure) state :=
  wp_bind.mpr behind

/-- A call that returns has room for its body. -/
theorem ends_invoke {procedure : Procedure}
    (behind : ∀ shallower, depth = shallower + 1 →
      Ends returns (body input (invoke input shallower) procedure)
        (state.logged (.entered procedure state.pToken))) :
    Ends returns (invoke input depth procedure) state := by
  cases depth with
  | zero => exact trivial
  | succ depth => exact ends_succ (behind depth rfl)

theorem ends_onward (action : Parser Result) [onward : GoesOnward action action] :
    Ends (Onward state) action state := by
  have later := onward.goesOn.keeps state
  exact wp_iff_outcome.mpr ⟨fun _ _ => later, fun _ _ => trivial⟩

end Calls

class KeptByTokens (input : List Entry) (kept : State → Prop) : Prop where
  next : ∀ state, kept state → kept ((state.logged (.next state.pToken)).moved input)
  error : ∀ state call, kept state → kept { state with errors := state.errors ++ [call] }

class KeptByTables (kept : State → Prop) : Prop where
  describeVar : ∀ state vname, kept state → kept (state.describeVar vname)
  enterVar : ∀ state, kept state → kept state.enterVar
  enterPro : ∀ state, kept state → kept state.enterPro

class KeptByFunctions (kept : State → Prop) : Prop where
  describePro : ∀ state pname, kept state → kept (state.describePro pname)
  noteParameter : ∀ state, kept state → kept state.noteParameter
  restorePro : ∀ state proBackup, kept state → kept (state.restorePro proBackup)

section Parts

variable {kept : State → Prop}

theorem keeps_change {update : State → State} (holds : ∀ state, kept state → kept (update state)) :
    Keeps kept (change update) :=
  ⟨fun state here => ends_change (holds state here)⟩

instance : Keeps kept (current input) := by
  unfold current
  infer_instance

section Tokens

variable [tokens : KeptByTokens input kept]

instance : Keeps kept (nextToken input) :=
  keeps_change tokens.next

omit tokens in
theorem keeps_error (tokens : KeptByTokens input kept) (errNum : Nat) (symbol : Option String) :
    Keeps kept (error errNum symbol) :=
  keeps_change fun state => tokens.error state _

instance (word : String) (skips : Entry → Bool) : Keeps kept (expect input word skips) := by
  have errors := keeps_error tokens
  unfold expect
  infer_instance

end Tokens

section Bodies

variable [tokens : KeptByTokens input kept] [tables : KeptByTables kept]
variable {call : Procedure → Parser Unit} [∀ callee, Keeps kept (call callee)]

instance : Keeps kept (declareVar input) := by
  have errors := keeps_error tokens
  have describes (vname : String) : Keeps kept (change fun state => state.describeVar vname) :=
    keeps_change fun state => tables.describeVar state vname
  have enters : Keeps kept (change State.enterVar) := keeps_change tables.enterVar
  unfold declareVar
  infer_instance

instance : Keeps kept (checkParameter input) := by
  have errors := keeps_error tokens
  unfold checkParameter
  infer_instance

instance : Keeps kept (checkVar input) := by
  have errors := keeps_error tokens
  unfold checkVar
  infer_instance

instance : Keeps kept (checkAssigned input) := by
  have errors := keeps_error tokens
  unfold checkAssigned
  infer_instance

instance : Keeps kept (checkPro input) := by
  have errors := keeps_error tokens
  unfold checkPro
  infer_instance

instance : Keeps kept (functionRest input call) := by
  unfold functionRest
  infer_instance

set_option synthInstance.maxSize 1024 in
theorem keeps_body (function : Keeps kept (J input call)) (procedure : Procedure) :
    Keeps kept (body input call procedure) := by
  have errors := keeps_error tokens
  have enters : Keeps kept (change State.enterPro) := keeps_change tables.enterPro
  cases procedure
  case J => exact function
  all_goals
    simp only [body, A, B, C, C_, D, E, F, G, K, L, M, M_, N, O, P, inBrackets, Q, R, R_, S, S_,
      T, U, W, X, Y, Z]
    infer_instance

omit tables in
theorem keeps_J (functions : KeptByFunctions kept) : Keeps kept (J input call) := by
  have errors := keeps_error tokens
  have describes (pname : String) : Keeps kept (change fun state => state.describePro pname) :=
    keeps_change fun state => functions.describePro state pname
  have notes : Keeps kept (change State.noteParameter) := keeps_change functions.noteParameter
  have restores (proBackup : ProRecord) :
      Keeps kept (change fun state => state.restorePro proBackup) :=
    keeps_change fun state => functions.restorePro state proBackup
  have declares : Keeps kept (declarePro input) := by
    unfold declarePro
    infer_instance
  have head : Keeps kept (functionHead input call) := by
    unfold functionHead
    infer_instance
  simp only [J]
  infer_instance

end Bodies

end Parts

end OsCompiler.LabParser
