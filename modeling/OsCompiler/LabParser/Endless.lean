/-
Which runs of `lab_parser.c` never return, and the termination of its error recovery.

At a factor that `T` does not consume, `S_` calls `T` again without end, or `T` itself
comes back to the same place through `Z`. Behind `EOF` the entries are empty, and `M_`
returns at `end` and `EOF` only. So the two steps of `Event.GoesWrong` are exactly what
keeps a run from its end.
-/

import OsCompiler.LabParser.Recovery
import OsCompiler.LabParser.Invariants
import OsCompiler.LabParser.Grammar

namespace OsCompiler.LabParser

open OsCompiler.Action

variable {input : List Entry} {eof index depth : Nat} {state : State}

/-! ### A factor that is not consumed -/

structure Stands (index : Nat) (state : State) : Prop where
  pToken : state.pToken = index
  pChar : state.pChar = 0

theorem Stands.logged (stands : Stands index state) (event : Event) :
    Stands index (state.logged event) :=
  ⟨stands.pToken, stands.pChar⟩

theorem Stands.current (stands : Stands index state) :
    state.current input = entryAt input index := by
  rw [State.current, stands.pToken]

theorem ends_stays {Result : Type} (action : Parser Result) [stays : Stays action]
    (stands : Stands index state) : Ends (Stands index) action state := by
  rcases stays.returns state with ⟨result, after, run, pToken, pChar, _⟩
  exact (wp_of_outcome run).mpr ⟨pToken.trans stands.pToken, pChar.trans stands.pChar⟩

private theorem ends_G (other : (entryAt input index).kind ≠ 10) (stands : Stands index state) :
    Ends (Stands index) (invoke input depth .G) state := by
  refine ends_invoke fun _ _ => ends_current.mpr ?_
  rw [(stands.logged _).current, if_neg other]
  exact ends_pure (stands.logged _)

private theorem ends_F (other : (entryAt input index).kind ≠ 10) (stands : Stands index state) :
    Ends (Stands index) (invoke input depth .F) state :=
  ends_invoke fun _ _ => ends_G other (stands.logged _)

private theorem ends_U (other : (entryAt input index).kind ≠ 11) (stands : Stands index state) :
    Ends (Stands index) (invoke input depth .U) state := by
  refine ends_invoke fun _ _ => ends_current.mpr ?_
  rw [(stands.logged _).current, if_neg other]
  exact ends_pure (stands.logged _)

/-- Neither the word nor an entry to be skipped. -/
theorem ends_expect {word : String} {skips : Entry → Bool}
    (other : (entryAt input index).text ≠ word) (kept : skips (entryAt input index) = false)
    (stands : Stands index state) : Ends (Stands index) (expect input word skips) state := by
  refine ends_current.mpr ?_
  rw [stands.current, if_neg other]
  refine (ends_stays _ stands).seq fun _ _ reached => ?_
  rw [kept]
  exact ends_pure reached

/-- No depth suffices for the call. -/
def Endless (input : List Entry) (index depth : Nat) (procedure : Procedure) : Prop :=
  ∀ state, Stands index state → Ends (fun _ => False) (invoke input depth procedure) state

/-- `T` calls `Z`, which finds no name and no bracket and goes on with `R`, `S` and `T`. -/
theorem endless_bracket (number : (entryAt input index).kind = 11)
    (noDigit : digitAt (entryAt input index) 0 = false) (bracket : bracketBehind input index)
    (other : (entryAt input index).text ≠ "(") (depth : Nat) :
    Endless input index depth .T ∧ Endless input index depth .Z ∧
      Endless input index depth .R ∧ Endless input index depth .S := by
  induction depth with
  | zero => exact ⟨fun _ _ => trivial, fun _ _ => trivial, fun _ _ => trivial, fun _ _ => trivial⟩
  | succ depth ih =>
      rcases ih with ⟨fromT, fromZ, fromR, fromS⟩
      have noName : (entryAt input index).kind ≠ 10 := by
        rw [number]
        decide
      have operand : isOperand (entryAt input index) = true := by simp [isOperand, number]
      refine ⟨fun state stands => ?_, fun state stands => ?_, fun state stands => ?_,
        fun state stands => ?_⟩
      · refine ends_succ (ends_get.mpr ?_)
        have stands := stands.logged (.entered .T state.pToken)
        have behind : (entryAt input ((state.logged (.entered .T state.pToken)).getNextToken
            input)).text = "(" := by
          rw [State.getNextToken, stands.pToken]
          exact bracket
        rw [stands.current, stands.pChar, noDigit, if_neg Bool.false_ne_true, if_pos behind]
        exact fromZ _ stands
      · refine ends_succ ?_
        have stands := stands.logged (.entered .Z state.pToken)
        refine (ends_stays (checkPro input) stands).seq fun _ _ stands => ?_
        refine (ends_G noName stands).seq fun _ _ stands => ?_
        refine (ends_expect other (by rw [operand]; rfl) stands).seq fun _ _ stands => ?_
        exact (fromR _ stands).seq fun _ _ => False.elim
      · refine ends_succ ?_
        exact (fromS _ (stands.logged _)).seq fun _ _ => False.elim
      · refine ends_succ ?_
        exact (fromT _ (stands.logged _)).seq fun _ _ => False.elim

theorem Stuck.isOperand (stuck : Stuck input index) : isOperand (entryAt input index) = true := by
  rcases stuck with ⟨name, _⟩ | ⟨number, _⟩
  · simp [LabParser.isOperand, name]
  · simp [LabParser.isOperand, number]

/-- A call of `T` that returns has consumed nothing, and there is an operand. -/
theorem stuck_T (stuck : Stuck input index) (stands : Stands index state) :
    Ends (fun after => Stands index after ∧ (entryAt input index).text ≠ "*")
      (invoke input depth .T) state := by
  rcases stuck with ⟨name, digit⟩ | ⟨number, noDigit, noOpening, noStar⟩
  · have noNumber : (entryAt input index).kind ≠ 11 := by
      rw [name]
      decide
    have noStar : (entryAt input index).text ≠ "*" := by
      intro star
      rw [digitAt, star] at digit
      exact absurd digit (by decide)
    refine ends_invoke fun _ _ => ends_get.mpr ?_
    have stands := stands.logged (.entered .T state.pToken)
    rw [stands.current, stands.pChar, digit, if_pos rfl]
    exact (ends_U noNumber stands).weaken fun _ stands => ⟨stands, noStar⟩
  · by_cases bracket : bracketBehind input index
    · have endless := (endless_bracket number noDigit bracket (noOpening bracket) depth).1
      exact (endless state stands).weaken fun _ => False.elim
    · have noName : (entryAt input index).kind ≠ 10 := by
        rw [number]
        decide
      refine ends_invoke fun _ _ => ends_get.mpr ?_
      have stands := stands.logged (.entered .T state.pToken)
      have behind : ¬ (entryAt input ((state.logged (.entered .T state.pToken)).getNextToken
          input)).text = "(" := by
        rw [State.getNextToken, stands.pToken]
        exact bracket
      rw [stands.current, stands.pChar, noDigit, if_neg Bool.false_ne_true, if_neg behind]
      refine (ends_stays (checkVar input) stands).seq fun _ _ stands => ?_
      exact (ends_F noName stands).weaken fun _ stands => ⟨stands, noStar bracket⟩

private theorem stuck_S_ (stuck : Stuck input index) (noStar : (entryAt input index).text ≠ "*")
    (depth : Nat) : Endless input index depth .S_ := by
  induction depth with
  | zero => exact fun _ _ => trivial
  | succ depth ih =>
      intro state stands
      refine ends_succ (ends_current.mpr ?_)
      have stands := stands.logged (.entered .S_ state.pToken)
      rw [stands.current, if_neg noStar, if_pos stuck.isOperand]
      exact (stuck_T stuck stands).seq fun _ after reached => ih after reached.1

/-! ### Runs that return -/

/-- `T` has not been entered at a factor that it does not consume. -/
structure Clean (input : List Entry) (state : State) : Prop where
  pChar : state.pChar = 0
  trace : ∀ index, .entered .T index ∈ state.trace → ¬ Stuck input index

theorem Clean.logged {event : Event} (clean : Clean input state)
    (fine : ∀ index, event = .entered .T index → ¬ Stuck input index) :
    Clean input (state.logged event) := by
  refine ⟨clean.pChar, fun index member => ?_⟩
  rcases List.mem_append.mp member with member | member
  · exact clean.trace index member
  · exact fine index (List.mem_singleton.mp member).symm

theorem Clean.of_eq {after : State} (clean : Clean input state) (pChar : after.pChar = state.pChar)
    (trace : after.trace = state.trace) : Clean input after :=
  ⟨pChar.trans clean.pChar, trace ▸ clean.trace⟩

instance : KeptByTokens input (Clean input) where
  next state clean := by
    have logged : Clean input (state.logged (.next state.pToken)) := clean.logged nofun
    exact ⟨moved_pChar _, by rw [moved_trace]; exact logged.trace⟩
  error _ _ clean := clean.of_eq rfl rfl

instance : KeptByTables (Clean input) where
  describeVar _ _ clean := clean.of_eq rfl rfl
  enterVar _ clean := clean.of_eq rfl rfl
  enterPro _ clean := clean.of_eq rfl rfl

instance : KeptByFunctions (Clean input) where
  describePro _ _ clean := clean.of_eq rfl rfl
  noteParameter _ clean := clean.of_eq rfl rfl
  restorePro _ _ clean := clean.of_eq rfl rfl

def others (call : Procedure → Parser Unit) (callee : Procedure) : Parser Unit :=
  if callee = .T then throw .tooDeep else call callee

/-- `S` and `S_` alone call `T`. -/
theorem body_others (call : Procedure → Parser Unit) {procedure : Procedure}
    (noTerm : procedure ≠ .S) (noRest : procedure ≠ .S_) :
    body input (others call) procedure = body input call procedure := by
  cases procedure
  case S => exact absurd rfl noTerm
  case S_ => exact absurd rfl noRest
  all_goals rfl

/-- The calls at a depth, `T` where it consumes the factor. -/
def CallsClean (input : List Entry) (depth : Nat) : Prop :=
  ∀ procedure state, Clean input state → (procedure = .T → ¬ Stuck input state.pToken) →
    Ends (Clean input) (invoke input depth procedure) state

/-- With `S_` behind it, `T` comes to an end only where it consumes the factor. -/
theorem CallsClean.factor (calls : CallsClean input depth) (clean : Clean input state) :
    Ends (Clean input) (do invoke input depth .T; invoke input depth .S_) state := by
  by_cases stuck : Stuck input state.pToken
  · have stands : Stands state.pToken state := ⟨rfl, clean.pChar⟩
    refine (stuck_T stuck stands).seq fun _ after reached => ?_
    exact (stuck_S_ stuck reached.2 depth after reached.1).weaken fun _ => False.elim
  · refine (calls .T state clean fun _ => stuck).seq fun _ after reached => ?_
    exact calls .S_ after reached nofun

theorem CallsClean.body (calls : CallsClean input depth) (procedure : Procedure)
    (clean : Clean input state) :
    Ends (Clean input) (body input (invoke input depth) procedure) state := by
  by_cases term : procedure = .S
  · rw [term]
    exact calls.factor clean
  by_cases rest : procedure = .S_
  · rw [rest]
    have nextClean : Keeps (Clean input) (nextToken input) := inferInstance
    refine ends_current.mpr ?_
    split
    · exact (nextClean.keeps state clean).seq fun _ _ => calls.factor
    · split
      · exact calls.factor clean
      · exact ends_pure clean
  · have each (callee : Procedure) : Keeps (Clean input) (others (invoke input depth) callee) := by
      refine ⟨fun state clean => ?_⟩
      unfold others
      split
      · exact trivial
      · rename_i other
        exact calls callee state clean fun isT => absurd isT other
    have keeps : Keeps (Clean input)
        (LabParser.body input (others (invoke input depth)) procedure) :=
      keeps_body (keeps_J inferInstance) procedure
    rw [← body_others _ term rest]
    exact keeps.keeps state clean

private theorem callsClean (depth : Nat) : CallsClean input depth := by
  induction depth with
  | zero => exact fun _ _ _ _ => trivial
  | succ depth ih =>
      intro procedure state clean notStuck
      refine ends_succ (ih.body procedure (clean.logged ?_))
      intro index same
      cases same
      exact notStuck rfl

/-- `M_` goes on up to one of these words. -/
theorem ends_M_ (depth : Nat) (state : State) :
    Ends (fun after => (after.current input).text = "end" ∨ (after.current input).text = "EOF")
      (invoke input depth .M_) state := by
  induction depth generalizing state with
  | zero => exact trivial
  | succ depth ih =>
      refine ends_succ (ends_current.mpr ?_)
      split
      · exact ends_any.seq fun _ _ _ => ends_any.seq fun _ after _ => ih after
      · split
        · exact ends_any.seq fun _ _ _ => ends_any.seq fun _ after _ => ih after
        · rename_i noMore
          exact ends_pure (Classical.byContradiction fun neither =>
            noMore ⟨fun word => neither (Or.inl word), fun word => neither (Or.inr word)⟩)

theorem EndsAt.le_of_ne (ends : EndsAt input eof) (word : (entryAt input index).text ≠ "") :
    index ≤ eof :=
  Nat.le_of_not_lt fun beyond => word (ends.beyond index beyond)

/-- Where the run returns, `EOF` has not been passed. -/
theorem ends_A (ends : EndsAt input eof) (depth : Nat) (state : State) :
    Ends (fun after => after.pToken ≤ eof) (invoke input depth .A) state := by
  refine ends_invoke fun depth _ => ends_invoke fun depth _ => ?_
  refine ends_any.seq fun _ _ _ => ends_any.seq fun _ _ _ => ends_any.seq fun _ state _ => ?_
  refine Ends.seq (ends_invoke fun depth _ => ends_any.seq fun _ after _ => ends_M_ depth after)
    fun _ after word => ends_current.mpr ?_
  have upper : after.pToken ≤ eof := by
    refine ends.le_of_ne ?_
    rcases word with word | word
    · rw [← State.current, word]
      decide
    · rw [← State.current, word]
      decide
  split
  · rename_i last
    refine ends_change ?_
    rw [moved_pToken]
    refine skipLines_le (by rw [ends.last]; decide) (Nat.lt_of_le_of_ne upper fun same => ?_)
    have same : after.pToken = eof := same
    rw [State.current, same, ends.last] at last
    exact absurd last (by decide)
  · exact upper

/-- A run that returns has the events of every run that is cut short. -/
theorem wentWrong_of_returns {after : State}
    (run : outcome (invoke input depth .A) start = (.ok (), after)) {depth' : Nat}
    (wrong : WentWrong input eof (outcome (invoke input depth' .A) start).2) :
    WentWrong input eof after := by
  rcases Nat.le_total depth depth' with deeper | shallower
  · rwa [(invoke_deeper input deeper .A).returns run] at wrong
  · have goesOn := invoke_deeper input shallower .A
    have later := goesOn.later Onward.refl start
    rw [run] at later
    exact wrong.onward later

theorem not_wrong_of_returns (ends : EndsAt input eof) {after : State}
    (run : outcome (invoke input depth .A) start = (.ok (), after)) :
    after.pToken ≤ eof ∧ ¬ WentWrong input eof after := by
  have upper : after.pToken ≤ eof := (wp_of_outcome run).mp (ends_A ends depth start)
  have clean : Clean input after :=
    (wp_of_outcome run).mp (callsClean depth .A start ⟨rfl, nofun⟩ nofun)
  have onward := onward_invoke input depth .A start
  rw [run] at onward
  rcases onward.events with ⟨events, trace, between⟩
  refine ⟨upper, ?_⟩
  rintro ⟨event, member, wrong⟩
  cases event with
  | entered procedure pToken =>
      rcases wrong with ⟨rfl, stuck⟩
      exact clean.trace pToken member stuck
  | next pToken =>
      rw [trace] at member
      have behind : pToken + 1 ≤ after.pToken := (between _ member).2
      have last : pToken = eof := wrong
      omega

/-- The calls come to an end, and none of them takes `pToken` beyond the entry after `EOF`. -/
def RecoveryEnds (input : List Entry) (eof : Nat) : Prop :=
  (∃ depth after, outcome (invoke input depth .A) start = (.ok (), after)) ∧
    ∀ depth, (outcome (invoke input depth .A) start).2.pToken ≤ eof + 1

theorem recoveryEnds_iff (ends : EndsAt input eof) :
    RecoveryEnds input eof ↔
      ∀ depth, ¬ WentWrong input eof (outcome (invoke input depth .A) start).2 := by
  constructor
  · rintro ⟨⟨depth, after, run⟩, _⟩ depth' wrong
    exact (not_wrong_of_returns ends run).2 (wentWrong_of_returns run wrong)
  · intro fine
    rcases returns_of_not_wrong ends fine with ⟨depth, after, run, upper⟩
    refine ⟨⟨depth, after, run⟩, fun depth' => ?_⟩
    rcases Nat.le_total depth depth' with deeper | shallower
    · rw [(invoke_deeper input deeper .A).returns run]
      exact Nat.le_succ_of_le upper
    · have goesOn := invoke_deeper input shallower .A
      have later := goesOn.later Onward.refl start
      rw [run] at later
      exact Nat.le_trans later.pToken (Nat.le_succ_of_le upper)

theorem recoveryEnds_read : RecoveryEnds (readProgram ++ [⟨"EOF", 25⟩]) 10 := by
  generalize input_eq : readProgram ++ [⟨"EOF", 25⟩] = input
  have ends : EndsAt input 10 := by
    rw [← input_eq]
    refine ⟨rfl, fun index beyond => ?_⟩
    rw [entryAt_outside (Nat.not_lt_of_le beyond)]
  have returns : (outcome (invoke input 10 .A) start).1.isOk = true := by
    rw [← input_eq]
    decide +kernel
  refine (recoveryEnds_iff ends).mpr fun depth wrong => ?_
  rcases run : outcome (invoke input 10 .A) start with ⟨raise | result, after⟩
  · rw [run] at returns
    cases returns
  · exact (not_wrong_of_returns ends run).2 (wentWrong_of_returns run wrong)

def cutProgram : List Entry :=
  [⟨"begin", 1⟩, ⟨"integer", 3⟩, ⟨"x", 10⟩, ⟨";", 23⟩, ⟨"EOF", 25⟩]

/-- `N` takes `EOF` for a statement. -/
theorem cutProgram_endless : EndsAt cutProgram 4 ∧ ¬ RecoveryEnds cutProgram 4 := by
  have ends : EndsAt cutProgram 4 := by
    refine ⟨rfl, fun index beyond => ?_⟩
    rw [entryAt_outside (Nat.not_lt_of_le beyond)]
  refine ⟨ends, ?_⟩
  rintro ⟨⟨depth, after, run⟩, _⟩
  have passed : .next 4 ∈ (outcome (invoke cutProgram 10 .A) start).2.trace := by decide +kernel
  exact (not_wrong_of_returns ends run).2 (wentWrong_of_returns run ⟨_, passed, rfl⟩)

end OsCompiler.LabParser
