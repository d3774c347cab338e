/-
Every function declaration that `lab_parser.c` parses is reported.

`E` compares the place of a declared variable with the place of the parameter in the head
of the function. The body stands behind the head, so the two are never equal, and the test
of `L` finds no declaration of the parameter in any function. A run without an error has
therefore passed no word `function`.
-/

import OsCompiler.LabParser.Invariants
import OsCompiler.LabParser.Recovery

namespace OsCompiler.LabParser

open OsCompiler.Action

variable {input : List Entry} {depth : Nat} {state : State}

/-! ### Errors stay -/

def Reported (state : State) : Prop :=
  state.errors ≠ []

theorem Reported.of_eq {after : State} (reported : Reported state)
    (errors : after.errors = state.errors) : Reported after := by
  rwa [Reported, errors]

private theorem reported_error (state : State) (errNum : Nat) (symbol : Option String) :
    Ends Reported (error errNum symbol) state :=
  ends_change (List.append_ne_nil_of_right_ne_nil _ (List.cons_ne_nil _ _))

instance : KeptByTokens input Reported where
  next _ reported := reported.of_eq (moved_errors _)
  error _ _ reported := List.append_ne_nil_of_left_ne_nil reported _

instance : KeptByTables Reported where
  describeVar _ _ reported := reported.of_eq rfl
  enterVar _ reported := reported.of_eq rfl
  enterPro _ reported := reported.of_eq rfl

instance : KeptByFunctions Reported where
  describePro _ _ reported := reported.of_eq rfl
  noteParameter _ reported := reported.of_eq rfl
  restorePro _ _ reported := reported.of_eq rfl

instance (depth : Nat) (procedure : Procedure) :
    Keeps Reported (invoke input depth procedure) := by
  induction depth generalizing procedure with
  | zero => exact ⟨fun _ _ => trivial⟩
  | succ depth ih =>
      have function : Keeps Reported (J input (invoke input depth)) := keeps_J inferInstance
      have keeps := keeps_body function procedure
      exact ⟨fun state reported => ends_succ (keeps.keeps _ (reported.of_eq rfl))⟩

/-! ### The parameter is never found -/

/-- `pToken` is behind the parameter, and its declaration has not been found. -/
structure Undefined (state : State) : Prop where
  behind : state.currentPro.parameter < state.pToken
  undefined : state.currentPro.parameterIsDefined = false

theorem Undefined.of_eq {after : State} (here : Undefined state)
    (pToken : state.pToken ≤ after.pToken)
    (parameter : after.currentPro.parameter = state.currentPro.parameter)
    (defined : after.currentPro.parameterIsDefined = state.currentPro.parameterIsDefined) :
    Undefined after := by
  refine ⟨?_, defined.trans here.undefined⟩
  rw [parameter]
  exact Nat.lt_of_lt_of_le here.behind pToken

def Faulty (state : State) : Prop :=
  Reported state ∨ Undefined state

instance : KeptByTokens input Faulty where
  next state faulty := by
    have later := lt_moved_pToken input (state.logged (.next state.pToken))
    refine faulty.imp (fun reported => reported.of_eq (moved_errors _)) fun here => ?_
    refine here.of_eq (Nat.le_of_lt later) ?_ ?_
    · rw [moved_currentPro]
      rfl
    · rw [moved_currentPro]
      rfl
  error _ _ _ := Or.inl (List.append_ne_nil_of_right_ne_nil _ (List.cons_ne_nil _ _))

instance : KeptByTables Faulty where
  describeVar state vname faulty := by
    refine faulty.imp (fun reported => reported.of_eq rfl) fun here => ?_
    refine here.of_eq (Nat.le_refl _) rfl ?_
    have elsewhere : ¬ state.pToken = state.currentPro.parameter := (Nat.ne_of_lt here.behind).symm
    simp [State.describeVar, elsewhere]
  enterVar _ faulty :=
    faulty.imp (fun reported => reported.of_eq rfl) fun here => here.of_eq (Nat.le_refl _) rfl rfl
  enterPro _ faulty :=
    faulty.imp (fun reported => reported.of_eq rfl) fun here => here.of_eq (Nat.le_refl _) rfl rfl

/-- `J` leaves the procedure around it as it was. -/
theorem keepsFaulty_J (depth : Nat) : Keeps Faulty (J input (invoke input depth)) := by
  refine ⟨fun state faulty => ?_⟩
  rcases faulty with reported | here
  · have keeps : Keeps Reported (J input (invoke input depth)) := keeps_J inferInstance
    exact (keeps.keeps state reported).weaken fun _ => Or.inl
  · refine ends_get.mpr ?_
    refine (ends_onward (functionHead input (invoke input depth))).seq fun _ _ first => ?_
    refine (ends_onward (functionRest input (invoke input depth))).seq fun _ _ second => ?_
    refine ends_change (Or.inr (here.of_eq ?_ rfl rfl))
    exact Nat.le_trans first.pToken second.pToken

instance (depth : Nat) (procedure : Procedure) : Keeps Faulty (invoke input depth procedure) := by
  induction depth generalizing procedure with
  | zero => exact ⟨fun _ _ => trivial⟩
  | succ depth ih =>
      have function : Keeps Faulty (J input (invoke input depth)) := keepsFaulty_J depth
      have keeps := keeps_body function procedure
      refine ⟨fun state faulty => ends_succ (keeps.keeps _ ?_)⟩
      exact faulty.imp (fun reported => reported.of_eq rfl) fun here =>
        here.of_eq (Nat.le_refl _) rfl rfl

/-! ### The head of a function -/

/-- The declaration of the parameter, which stands here, has not been found. -/
structure Awaits (parameter : Nat) (state : State) : Prop where
  place : state.currentPro.parameter = parameter
  undefined : state.currentPro.parameterIsDefined = false
  pToken : parameter ≤ state.pToken

instance (parameter : Nat) : KeptByTokens input (Awaits parameter) where
  next state awaits := by
    have later := lt_moved_pToken input (state.logged (.next state.pToken))
    refine ⟨?_, ?_, Nat.le_trans awaits.pToken (Nat.le_of_lt later)⟩
    · rw [moved_currentPro]
      exact awaits.place
    · rw [moved_currentPro]
      exact awaits.undefined
  error _ _ awaits := ⟨awaits.place, awaits.undefined, awaits.pToken⟩

def Unset (state : State) : Prop :=
  state.currentPro.parameterIsDefined = false

instance : KeptByTokens input Unset where
  next state unset := by
    rw [Unset, moved_currentPro]
    exact unset
  error _ _ unset := unset

/-- A property of the tables and of `pToken` alone. -/
theorem keeps_G {kept : State → Prop} [KeptByTokens input kept]
    (logged : ∀ state event, kept state → kept (state.logged event)) :
    Keeps kept (invoke input depth .G) := by
  have keeps : Keeps kept (G input) := by
    unfold G
    infer_instance
  exact ⟨fun state holds => ends_invoke fun _ _ => keeps.keeps _ (logged _ _ holds)⟩

private theorem keeps_K {kept : State → Prop} [KeptByTokens input kept]
    (logged : ∀ state event, kept state → kept (state.logged event)) :
    Keeps kept (invoke input depth .K) := by
  refine ⟨fun state holds => ends_invoke fun _ _ => ends_invoke fun _ _ => ?_⟩
  exact (keeps_G logged).keeps _ (logged _ _ (logged _ _ holds))

private theorem ends_functionHead (depth : Nat) (state : State) :
    Ends (fun after => Awaits after.pToken after) (functionHead input (invoke input depth))
      state := by
  have name (state : State) : Ends Unset (declarePro input) state := by
    have describes (vname : String) :
        Ends Unset (change fun state => state.describePro vname) state := rfl
    refine ends_current.mpr ((describes _).seq fun _ _ unset => ends_get.mpr ?_)
    split
    · exact ends_change unset
    · exact ends_pure unset
  have keepsG : Keeps Unset (invoke input depth .G) := keeps_G fun _ _ unset => unset
  have keepsBracket : Keeps Unset (expect input "(" fun entry => entry.kind ≠ 10) := inferInstance
  refine ends_any.seq fun _ _ _ => ends_any.seq fun _ state _ => ?_
  refine (name state).seq fun _ _ unset => ?_
  refine (keepsG.keeps _ unset).seq fun _ _ unset => ?_
  refine (keepsBracket.keeps _ unset).seq fun _ _ unset => ?_
  exact ends_change ⟨rfl, unset, Nat.le_refl _⟩

/-- The bracket behind the parameter is there, so that `pToken` is behind it, or is reported. -/
theorem ends_expect_faulty {parameter : Nat} (awaits : Awaits parameter state) (word : String)
    (skips : Entry → Bool) : Ends Faulty (expect input word skips) state := by
  refine ends_current.mpr ?_
  split
  · have later := lt_moved_pToken input (state.logged (.next state.pToken))
    refine ends_change (Or.inr ⟨?_, ?_⟩)
    · rw [moved_currentPro]
      exact Nat.lt_of_le_of_lt (Nat.le_trans (Nat.le_of_eq awaits.place) awaits.pToken) later
    · rw [moved_currentPro]
      exact awaits.undefined
  · refine (reported_error state NO_SIGN_ERR (some word)).seq fun _ _ reported => ?_
    have keeps : Keeps Reported
        (if skips (state.current input) then nextToken input else pure ()) := inferInstance
    exact (keeps.keeps _ reported).weaken fun _ => Or.inl

private theorem reports_L (faulty : Faulty state) :
    Ends Reported (invoke input depth .L) state := by
  refine ends_invoke fun depth _ => ?_
  have checks (state : State) (faulty : Faulty state) :
      Ends Reported (checkParameter input) state := by
    refine ends_get.mpr ?_
    simp only
    split
    · exact reported_error _ _ _
    · rename_i defined
      exact ends_pure (faulty.resolve_right fun here => defined here.undefined)
  have keeps (word : String) (skips : Entry → Bool) : Keeps Faulty (expect input word skips) :=
    inferInstance
  have keepsC : Keeps Faulty (invoke input depth .C) := inferInstance
  have rest : Keeps Reported (do
      change State.enterPro
      expect input ";" fun entry => !startsStatement entry
      invoke input depth .M
      expect input "end" fun entry => entry.text ≠ ";" ∧ entry.text ≠ "end") := by
    have enters : Keeps Reported (change State.enterPro) :=
      keeps_change fun _ reported => reported.of_eq rfl
    infer_instance
  have entered : Faulty (state.logged (.entered .L state.pToken)) :=
    faulty.imp (fun reported => reported.of_eq rfl) fun here => here.of_eq (Nat.le_refl _) rfl rfl
  refine ((keeps _ _).keeps _ entered).seq fun _ _ faulty => ?_
  refine (keepsC.keeps _ faulty).seq fun _ _ faulty => ?_
  exact (checks _ faulty).seq fun _ => rest.keeps

/-- No call of `J` returns without an error. -/
theorem reports_J (depth : Nat) (state : State) :
    Ends Reported (invoke input depth .J) state := by
  refine ends_invoke fun depth _ => ends_get.mpr ?_
  refine (ends_functionHead depth _).seq fun _ middle awaits => ?_
  have keepsK : Keeps (Awaits middle.pToken) (invoke input depth .K) :=
    keeps_K fun _ _ awaits => ⟨awaits.place, awaits.undefined, awaits.pToken⟩
  have keeps (word : String) (skips : Entry → Bool) : Keeps Faulty (expect input word skips) :=
    inferInstance
  have rest : Ends Reported (functionRest input (invoke input depth)) middle := by
    refine (keepsK.keeps _ awaits).seq fun _ _ awaits => ?_
    refine (ends_expect_faulty awaits _ _).seq fun _ _ faulty => ?_
    refine ((keeps _ _).keeps _ faulty).seq fun _ _ => reports_L
  exact rest.seq fun _ _ reported => ends_change (reported.of_eq rfl)

end OsCompiler.LabParser
