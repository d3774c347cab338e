/-
When the error recovery of `lab_parser.c` comes to an end.

Two steps go wrong. A call of `nextToken` on the last entry `EOF` passes it, and behind it
`M_` finds neither `end` nor `EOF` again. A factor that `T` does not consume although its
kind is that of an operand is parsed again and again. A run without these steps consumes
an entry at least every `callRanks` calls inside one another.
-/

import OsCompiler.LabParser.Runs

namespace OsCompiler.LabParser

open OsCompiler.Action

variable {input : List Entry} {eof : Nat}

structure EndsAt (input : List Entry) (eof : Nat) : Prop where
  last : (entryAt input eof).text = "EOF"
  beyond : ∀ index, eof < index → (entryAt input index).text = ""

def bracketBehind (input : List Entry) (index : Nat) : Prop :=
  (entryAt input (skipLines input (index + 1))).text = "("

/-- The kind is that of an operand, but `T` does not consume the entry: a name that begins
with a digit, or a number that does not, unless a `*` or `(` takes the parser on. -/
def Stuck (input : List Entry) (index : Nat) : Prop :=
  (entryAt input index).kind = 10 ∧ digitAt (entryAt input index) 0 = true ∨
    (entryAt input index).kind = 11 ∧ digitAt (entryAt input index) 0 = false ∧
      (bracketBehind input index → (entryAt input index).text ≠ "(") ∧
      (¬ bracketBehind input index → (entryAt input index).text ≠ "*")

def Event.GoesWrong (input : List Entry) (eof : Nat) : Event → Prop
  | .next pToken => pToken = eof
  | .entered procedure pToken => procedure = .T ∧ Stuck input pToken

def WentWrong (input : List Entry) (eof : Nat) (state : State) : Prop :=
  ∃ event ∈ state.trace, event.GoesWrong input eof

theorem WentWrong.onward {before after : State} (wrong : WentWrong input eof before)
    (onward : Onward before after) : WentWrong input eof after := by
  rcases wrong with ⟨event, member, wrong⟩
  exact ⟨event, onward.mem_trace member, wrong⟩

/-! ### Positions -/

theorem entryAt_eq (inside : eof < input.length) : entryAt input eof = input[eof] := by
  simp [entryAt, inside]

theorem entryAt_outside (outside : ¬ eof < input.length) : entryAt input eof = ⟨"", 0⟩ := by
  simp [entryAt, outside]

private theorem skipLines_of_ne {index : Nat} (other : (entryAt input index).text ≠ "EOLN") :
    skipLines input index = index := by
  rw [skipLines]
  split
  · rename_i inside
    rw [entryAt_eq inside] at other
    rw [if_neg other]
  · rfl

theorem skipLines_le {index : Nat} (notLine : (entryAt input eof).text ≠ "EOLN")
    (before : index ≤ eof) : skipLines input index ≤ eof := by
  induction index using skipLines.induct input with
  | case1 index inside line ih =>
      rw [skipLines, dif_pos inside, if_pos line]
      refine ih (Nat.lt_of_le_of_ne before ?_)
      rintro rfl
      rw [entryAt_eq inside] at notLine
      exact notLine line
  | case2 index inside noLine =>
      rw [skipLines, dif_pos inside, if_neg noLine]
      exact before
  | case3 index outside =>
      rw [skipLines, dif_neg outside]
      exact before

theorem moved_pToken (state : State) :
    (state.moved input).pToken = skipLines input (state.pToken + 1) := by
  simp only [State.moved]
  split
  · rename_i last
    rw [skipLines_of_ne (by rw [last]; decide)]
  · rfl

/-- `pToken` has passed this position and not `EOF`. -/
structure Within (eof lower : Nat) (state : State) : Prop where
  upper : state.pToken ≤ eof
  lower : lower ≤ state.pToken
  pChar : state.pChar = 0

theorem Within.mono {lower lower' : Nat} {state : State} (within : Within eof lower state)
    (le : lower' ≤ lower) : Within eof lower' state :=
  ⟨within.upper, Nat.le_trans le within.lower, within.pChar⟩

theorem Within.here {lower : Nat} {state : State} (within : Within eof lower state) :
    Within eof state.pToken state :=
  ⟨within.upper, Nat.le_refl _, within.pChar⟩

theorem Within.of_eq {lower : Nat} {state after : State} (within : Within eof lower state)
    (pToken : after.pToken = state.pToken) (pChar : after.pChar = state.pChar) :
    Within eof lower after :=
  ⟨pToken ▸ within.upper, pToken ▸ within.lower, pChar.trans within.pChar⟩

/-! ### Runs that do not go wrong -/

section Safe

variable {Result Other : Type}

def Safe (input : List Entry) (eof : Nat) (returns : Result → State → Prop)
    (action : Parser Result) (state : State) : Prop :=
  wp action (fun result after => WentWrong input eof after ∨ returns result after)
    (fun _ after => WentWrong input eof after) state

theorem Safe.of_wrong {returns : Result → State → Prop} {action : Parser Result} {state : State}
    [onward : GoesOnward action action] (wrong : WentWrong input eof state) :
    Safe input eof returns action state := by
  have later := wrong.onward (onward.goesOn.keeps state)
  unfold Safe wp
  rcases run : outcome action state with ⟨raise | result, after⟩
  · rwa [run] at later
  · rw [run] at later
    exact Or.inl later

theorem Safe.seq {returns : Result → State → Prop} {middle : Other → State → Prop}
    {action : Parser Other} {next : Other → Parser Result} {state : State}
    [∀ other, GoesOnward (next other) (next other)] (first : Safe input eof middle action state)
    (second : ∀ other after, middle other after → Safe input eof returns (next other) after) :
    Safe input eof returns (action >>= next) state := by
  refine wp_seq first ?_
  rintro other after (wrong | reached)
  · exact Safe.of_wrong wrong
  · exact second other after reached

theorem Safe.weaken {returns returns' : Result → State → Prop} {action : Parser Result}
    {state : State} (safe : Safe input eof returns action state)
    (weaker : ∀ result after, returns result after → returns' result after) :
    Safe input eof returns' action state :=
  wp_mono safe (fun result after reached => reached.imp_right (weaker result after))
    fun _ _ wrong => wrong

theorem Safe.returned {returns : Result → State → Prop} {result : Result} {state : State}
    (holds : returns result state) : Safe input eof returns (pure result) state :=
  Or.inr holds

theorem safe_stays {lower : Nat} {state : State} (action : Parser Result) [stays : Stays action]
    (within : Within eof lower state) :
    Safe input eof (fun _ after => Within eof lower after ∧ after.pToken = state.pToken)
      action state := by
  rcases stays.returns state with ⟨result, after, run, pToken, pChar, _⟩
  refine (wp_of_outcome run).mpr (Or.inr ⟨within.of_eq pToken pChar, pToken⟩)

/-- A look at the state before an action. -/
theorem safe_get {returns : Result → State → Prop} {next : State → Parser Result} {state : State} :
    Safe input eof returns (get >>= next) state ↔ Safe input eof returns (next state) state := by
  rw [Safe, wp_bind, wp_get]
  rfl

theorem safe_current {returns : Result → State → Prop} {next : Entry → Parser Result}
    {state : State} : Safe input eof returns (current input >>= next) state ↔
      Safe input eof returns (next (state.current input)) state := by
  have run : outcome (current input) state = (.ok (state.current input), state) := rfl
  rw [Safe, wp_bind, wp_of_outcome run]
  rfl

end Safe

section Consuming

variable {lower : Nat} {state : State}

theorem safe_nextToken (ends : EndsAt input eof) (within : Within eof lower state) :
    Safe input eof (fun _ => Within eof (lower + 1)) (nextToken input) state := by
  have run : outcome (nextToken input) state =
      (.ok (), (state.logged (.next state.pToken)).moved input) := rfl
  refine (wp_of_outcome run).mpr ?_
  rcases Nat.lt_or_eq_of_le within.upper with before | last
  · right
    have later := lt_moved_pToken input (state.logged (.next state.pToken))
    refine ⟨?_, Nat.lt_of_le_of_lt within.lower later, moved_pChar _⟩
    rw [moved_pToken]
    exact skipLines_le (by rw [ends.last]; decide) before
  · left
    exact ⟨.next state.pToken, by simp [State.logged], last⟩

/-- Where the word is there or its place is skipped, an entry is consumed. -/
theorem safe_expect (ends : EndsAt input eof) (within : Within eof lower state) (word : String)
    (skips : Entry → Bool) :
    Safe input eof (fun _ after => Within eof lower after ∧
      ((state.current input).text = word ∨ skips (state.current input) = true →
        Within eof (lower + 1) after)) (expect input word skips) state := by
  have consumed : ∀ after, Within eof (lower + 1) after → Within eof lower after ∧
      ((state.current input).text = word ∨ skips (state.current input) = true →
        Within eof (lower + 1) after) :=
    fun after next => ⟨next.mono (Nat.le_succ lower), fun _ => next⟩
  refine safe_current.mpr ?_
  by_cases there : (state.current input).text = word
  · rw [if_pos there]
    exact (safe_nextToken ends within).weaken fun _ => consumed
  · rw [if_neg there]
    refine (safe_stays _ within).seq fun _ after reached => ?_
    by_cases skip : skips (state.current input) = true
    · rw [if_pos skip]
      exact (safe_nextToken ends reached.1).weaken fun _ => consumed
    · rw [if_neg skip]
      exact Safe.returned ⟨reached.1, fun either => (either.elim there skip).elim⟩

theorem safe_expect_le (ends : EndsAt input eof) (within : Within eof lower state) (word : String)
    (skips : Entry → Bool) :
    Safe input eof (fun _ => Within eof lower) (expect input word skips) state :=
  (safe_expect ends within word skips).weaken fun _ _ reached => reached.1

end Consuming

/-! ### The ranks of the procedures -/

/-- While no entry is consumed a procedure calls those of lower rank. -/
def Procedure.rank : Procedure → Nat
  | .G | .U | .Y => 0
  | .F => 1
  | .E | .K | .O | .P | .Z => 2
  | .T => 3
  | .S_ => 4
  | .S => 5
  | .R_ => 6
  | .R => 7
  | .Q | .X => 8
  | .W => 9
  | .N => 10
  | .M_ => 11
  | .M => 12
  | .J => 13
  | .D => 14
  | .C_ => 15
  | .C => 16
  | .B | .L => 17
  | .A => 18

def callRanks : Nat := 19

theorem Procedure.rank_lt (procedure : Procedure) : procedure.rank < callRanks := by
  cases procedure <;> decide

def Ready (input : List Entry) : Procedure → State → Prop
  | .W, state => (state.current input).text = "if"
  | .Z, state => (state.current input).kind = 11 → (state.current input).text = "("
  | _, _ => True

def Consumes (input : List Entry) : Procedure → State → Prop
  | .C, _ | .D, _ | .E, _ | .J, _ | .M, _ | .N, _ | .W, _ | .Z, _ => True
  | .F, state | .G, state | .K, state | .Q, state => (state.current input).kind = 10
  | .U, state => (state.current input).kind = 11
  | .O, state => (state.current input).text = "read"
  | .P, state => (state.current input).text = "write"
  | .S, state => isOperand (state.current input) = true
  | .S_, state => (state.current input).text = "*"
  | .T, state => isOperand (state.current input) = true ∧ (state.current input).text ≠ "*"
  | _, _ => False

/-- `pToken` stands where it stood or behind, and behind if the entry is consumed. -/
structure Passes (eof : Nat) (from_ : Nat) (consumes : Prop) (after : State) : Prop where
  within : Within eof from_ after
  consumed : consumes → Within eof (from_ + 1) after

theorem Within.passes {eof from_ : Nat} {consumes : Prop} {after : State}
    (within : Within eof (from_ + 1) after) : Passes eof from_ consumes after :=
  ⟨within.mono (Nat.le_succ from_), fun _ => within⟩

theorem Within.passes_of_not {eof from_ : Nat} {consumes : Prop} {after : State}
    (within : Within eof from_ after) (not : ¬ consumes) : Passes eof from_ consumes after :=
  ⟨within, fun consumes => (not consumes).elim⟩

theorem Within.moved_or {eof lower : Nat} {after : State} (within : Within eof lower after) :
    after.pToken = lower ∨ Within eof (lower + 1) after := by
  rcases Nat.lt_or_eq_of_le within.lower with later | same
  · exact Or.inr ⟨within.upper, later, within.pChar⟩
  · exact Or.inl same.symm

theorem current_eq {state after : State} (same : after.pToken = state.pToken) :
    after.current input = state.current input := by
  rw [State.current, State.current, same]

private theorem isOperand_cases {entry : Entry} (operand : isOperand entry = true) :
    entry.kind = 10 ∨ entry.kind = 11 := by
  simpa [isOperand] using operand

theorem kind_current {state after : State} {kind : Int} (same : after.pToken = state.pToken)
    (here : (state.current input).kind = kind) : (after.current input).kind = kind := by
  rwa [current_eq same]

/-- Calls from this depth on down return, unless something goes wrong. -/
def CallsReturn (input : List Entry) (eof depth : Nat) : Prop :=
  ∀ (procedure : Procedure) (state : State), Within eof state.pToken state →
    Ready input procedure state →
    callRanks * (eof - state.pToken) + procedure.rank < depth →
    Safe input eof (fun _ => Passes eof state.pToken (Consumes input procedure state))
      (invoke input depth procedure) state

section Bodies

variable {depth from_ : Nat} (calls : CallsReturn input eof depth)

include calls

/-- A call of lower rank. -/
theorem CallsReturn.lower {caller : Procedure} {state : State} (callee : Procedure)
    (within : Within eof from_ state) (budget : callRanks * (eof - from_) + caller.rank ≤ depth)
    (lower : callee.rank < caller.rank) (ready : Ready input callee state) :
    Safe input eof (fun _ => Passes eof state.pToken (Consumes input callee state))
      (invoke input depth callee) state := by
  refine calls callee state within.here ready ?_
  have fewer := Nat.mul_le_mul_left callRanks (Nat.sub_le_sub_left within.lower eof)
  omega

theorem CallsReturn.lower_le {caller : Procedure} {state : State} (callee : Procedure)
    (within : Within eof from_ state) (budget : callRanks * (eof - from_) + caller.rank ≤ depth)
    (lower : callee.rank < caller.rank) (ready : Ready input callee state) :
    Safe input eof (fun _ => Within eof from_) (invoke input depth callee) state :=
  (calls.lower callee within budget lower ready).weaken fun _ _ passes =>
    passes.within.mono within.lower

/-- A call behind a consumed entry. -/
theorem CallsReturn.later {caller : Procedure} {state : State} (callee : Procedure)
    (within : Within eof (from_ + 1) state)
    (budget : callRanks * (eof - from_) + caller.rank ≤ depth)
    (ready : Ready input callee state) :
    Safe input eof (fun _ => Within eof (from_ + 1)) (invoke input depth callee) state := by
  have fewer : callRanks * (eof - state.pToken) + callRanks ≤ callRanks * (eof - from_) := by
    have step : eof - state.pToken + 1 ≤ eof - from_ := by
      have upper := within.upper
      have lower := within.lower
      omega
    calc
      callRanks * (eof - state.pToken) + callRanks = callRanks * (eof - state.pToken + 1) := rfl
      _ ≤ callRanks * (eof - from_) := Nat.mul_le_mul_left callRanks step
  have rank := callee.rank_lt
  refine (calls callee state within.here ready (by omega)).weaken fun _ after passes => ?_
  exact passes.within.mono within.lower

/-! ### One procedure after the other -/

variable (ends : EndsAt input eof) {state : State} (here : Within eof state.pToken state)

/-- The result that is stated for a body. -/
abbrev SafeBody (input : List Entry) (eof depth : Nat) (procedure : Procedure) (state : State) :
    Prop :=
  Safe input eof (fun _ => Passes eof state.pToken (Consumes input procedure state))
    (body input (invoke input depth) procedure) state

include here

private theorem safe_A (budget : callRanks * (eof - state.pToken) + Procedure.A.rank ≤ depth) :
    SafeBody input eof depth .A state :=
  (calls.lower_le .B here budget (by decide) trivial).weaken fun _ _ within =>
    within.passes_of_not id

include ends

private theorem safe_B (budget : callRanks * (eof - state.pToken) + Procedure.B.rank ≤ depth) :
    SafeBody input eof depth .B state := by
  unfold SafeBody body B
  refine (safe_expect_le ends here _ _).seq fun _ _ within => ?_
  refine (calls.lower_le .C within budget (by decide) trivial).seq fun _ _ within => ?_
  refine (safe_expect_le ends within _ _).seq fun _ _ within => ?_
  refine (calls.lower_le .M within budget (by decide) trivial).seq fun _ _ within => ?_
  exact (safe_expect_le ends within _ _).weaken fun _ _ within => within.passes_of_not id

omit ends in
private theorem safe_C (budget : callRanks * (eof - state.pToken) + Procedure.C.rank ≤ depth) :
    SafeBody input eof depth .C state := by
  unfold SafeBody body C
  refine (calls.lower .D here budget (by decide) trivial).seq fun _ _ passes => ?_
  exact (calls.later .C_ (passes.consumed trivial) budget trivial).weaken fun _ _ => Within.passes

private theorem safe_C_ (budget : callRanks * (eof - state.pToken) + Procedure.C_.rank ≤ depth) :
    SafeBody input eof depth .C_ state := by
  unfold SafeBody body C_
  refine safe_get.mpr ?_
  split
  · refine (safe_nextToken ends here).seq fun _ _ within => ?_
    refine (calls.later .D within budget trivial).seq fun _ _ within => ?_
    exact (calls.later .C_ within budget trivial).weaken fun _ _ => Within.passes
  · split
    · refine (safe_stays _ here).seq fun _ _ stays => ?_
      refine (calls.lower .D stays.1 budget (by decide) trivial).seq fun _ _ passes => ?_
      rw [stays.2] at passes
      exact (calls.later .C_ (passes.consumed trivial) budget trivial).weaken
        fun _ _ => Within.passes
    · exact Safe.returned (here.passes_of_not id)

omit ends in
private theorem safe_D (budget : callRanks * (eof - state.pToken) + Procedure.D.rank ≤ depth) :
    SafeBody input eof depth .D state := by
  unfold SafeBody body D
  refine safe_get.mpr ?_
  split
  · exact calls.lower .J here budget (by decide) trivial
  · exact calls.lower .E here budget (by decide) trivial

private theorem safe_E (budget : callRanks * (eof - state.pToken) + Procedure.E.rank ≤ depth) :
    SafeBody input eof depth .E state := by
  unfold SafeBody body E
  refine (safe_expect ends here _ _).seq fun _ _ passed => ?_
  refine (safe_stays _ (passed.2 (Or.inr rfl))).seq fun _ _ stays => ?_
  exact (calls.later .F stays.1 budget trivial).weaken fun _ _ => Within.passes

omit ends in
private theorem safe_F (budget : callRanks * (eof - state.pToken) + Procedure.F.rank ≤ depth) :
    SafeBody input eof depth .F state :=
  calls.lower .G here budget (by decide) trivial

omit calls in
private theorem safe_G : SafeBody input eof depth .G state := by
  unfold SafeBody body G
  refine safe_current.mpr ?_
  split
  · exact (safe_nextToken ends here).weaken fun _ _ => Within.passes
  · rename_i other
    exact Safe.returned (here.passes_of_not other)

/-- One of the first two words is consumed, or skipped to the other. -/
theorem safe_functionHead (budget : callRanks * (eof - state.pToken) + Procedure.J.rank ≤ depth) :
    Safe input eof (fun _ => Within eof (state.pToken + 1))
      (functionHead input (invoke input depth)) state := by
  unfold functionHead
  refine (safe_expect ends here _ _).seq fun _ first passed => ?_
  have second : Safe input eof (fun _ => Within eof (state.pToken + 1))
      (expect input "function" fun entry => entry.kind ≠ 10) first := by
    rcases passed.1.moved_or with same | moved
    · by_cases skipped : (state.current input).text = "integer" ∨
          decide ((state.current input).text ≠ "function") = true
      · exact safe_expect_le ends (passed.2 skipped) _ _
      · have there : (first.current input).text = "function" := by
          rw [current_eq same]
          simpa using (not_or.mp skipped).2
        exact (safe_expect ends passed.1 _ _).weaken fun _ _ reached => reached.2 (Or.inl there)
    · exact safe_expect_le ends moved _ _
  refine second.seq fun _ _ within => ?_
  refine (safe_stays _ within).seq fun _ _ stays => ?_
  refine (calls.later .G stays.1 budget trivial).seq fun _ _ within => ?_
  refine (safe_expect_le ends within _ _).seq fun _ _ within => ?_
  exact (safe_stays _ within).weaken fun _ _ stays => stays.1

private theorem safe_J (budget : callRanks * (eof - state.pToken) + Procedure.J.rank ≤ depth) :
    SafeBody input eof depth .J state := by
  unfold SafeBody body J
  refine safe_get.mpr ?_
  refine (safe_functionHead calls ends here budget).seq fun _ _ within => ?_
  have rest {middle : State} (within : Within eof (state.pToken + 1) middle) :
      Safe input eof (fun _ => Within eof (state.pToken + 1))
        (functionRest input (invoke input depth)) middle := by
    unfold functionRest
    refine (calls.later .K within budget trivial).seq fun _ _ within => ?_
    refine (safe_expect_le ends within _ _).seq fun _ _ within => ?_
    refine (safe_expect_le ends within _ _).seq fun _ _ within => ?_
    exact calls.later .L within budget trivial
  refine (rest within).seq fun _ _ within => ?_
  exact (safe_stays _ within).weaken fun _ _ stays => stays.1.passes

omit ends in
private theorem safe_K (budget : callRanks * (eof - state.pToken) + Procedure.K.rank ≤ depth) :
    SafeBody input eof depth .K state :=
  calls.lower .F here budget (by decide) trivial

private theorem safe_L (budget : callRanks * (eof - state.pToken) + Procedure.L.rank ≤ depth) :
    SafeBody input eof depth .L state := by
  unfold SafeBody body L
  refine (safe_expect_le ends here _ _).seq fun _ _ within => ?_
  refine (calls.lower_le .C within budget (by decide) trivial).seq fun _ _ within => ?_
  refine (safe_stays _ within).seq fun _ _ stays => ?_
  refine (safe_stays _ stays.1).seq fun _ _ stays => ?_
  refine (safe_expect_le ends stays.1 _ _).seq fun _ _ within => ?_
  refine (calls.lower_le .M within budget (by decide) trivial).seq fun _ _ within => ?_
  exact (safe_expect_le ends within _ _).weaken fun _ _ within => within.passes_of_not id

omit ends in
private theorem safe_M (budget : callRanks * (eof - state.pToken) + Procedure.M.rank ≤ depth) :
    SafeBody input eof depth .M state := by
  unfold SafeBody body M
  refine (calls.lower .N here budget (by decide) trivial).seq fun _ _ passes => ?_
  exact (calls.later .M_ (passes.consumed trivial) budget trivial).weaken fun _ _ => Within.passes

private theorem safe_M_ (budget : callRanks * (eof - state.pToken) + Procedure.M_.rank ≤ depth) :
    SafeBody input eof depth .M_ state := by
  unfold SafeBody body M_
  refine safe_current.mpr ?_
  split
  · refine (safe_nextToken ends here).seq fun _ _ within => ?_
    refine (calls.later .N within budget trivial).seq fun _ _ within => ?_
    exact (calls.later .M_ within budget trivial).weaken fun _ _ => Within.passes
  · split
    · refine (safe_stays _ here).seq fun _ _ stays => ?_
      refine (calls.lower .N stays.1 budget (by decide) trivial).seq fun _ _ passes => ?_
      rw [stays.2] at passes
      exact (calls.later .M_ (passes.consumed trivial) budget trivial).weaken
        fun _ _ => Within.passes
    · exact Safe.returned (here.passes_of_not id)

/-- Behind its first word the rest of `O` and `P` needs the rank of `F` only. -/
theorem safe_inBrackets {caller : Procedure} (word : String)
    (above : Procedure.F.rank < caller.rank)
    (budget : callRanks * (eof - state.pToken) + caller.rank ≤ depth) :
    Safe input eof (fun _ => Passes eof state.pToken ((state.current input).text = word))
      (inBrackets input (invoke input depth) word) state := by
  have rest {from_ : Nat} {middle : State} (lower : state.pToken ≤ from_)
      (within : Within eof from_ middle) : Safe input eof (fun _ => Within eof from_) (do
        expect input "(" fun entry => entry.kind ≠ 10
        checkVar input
        invoke input depth .F
        expect input ")" fun entry => entry.text ≠ ";" ∧ entry.text ≠ "end") middle := by
    have fewer := Nat.mul_le_mul_left callRanks (Nat.sub_le_sub_left lower eof)
    have budget' : callRanks * (eof - from_) + caller.rank ≤ depth := by omega
    refine (safe_expect_le ends within _ _).seq fun _ _ within => ?_
    refine (safe_stays _ within).seq fun _ _ stays => ?_
    refine (calls.lower_le .F stays.1 budget' above trivial).seq fun _ _ within => ?_
    exact safe_expect_le ends within _ _
  unfold inBrackets
  refine (safe_expect ends here _ _).seq fun _ _ passed => ?_
  by_cases there : (state.current input).text = word
  · exact (rest (Nat.le_succ _) (passed.2 (Or.inl there))).weaken fun _ _ => Within.passes
  · exact (rest (Nat.le_refl _) passed.1).weaken fun _ _ within => within.passes_of_not there

private theorem safe_O (budget : callRanks * (eof - state.pToken) + Procedure.O.rank ≤ depth) :
    SafeBody input eof depth .O state :=
  safe_inBrackets calls ends here "read" (by decide) budget

private theorem safe_P (budget : callRanks * (eof - state.pToken) + Procedure.P.rank ≤ depth) :
    SafeBody input eof depth .P state :=
  safe_inBrackets calls ends here "write" (by decide) budget

private theorem safe_N (budget : callRanks * (eof - state.pToken) + Procedure.N.rank ≤ depth) :
    SafeBody input eof depth .N state := by
  unfold SafeBody body N
  refine safe_current.mpr ?_
  split
  · rename_i word
    exact (calls.lower .O here budget (by decide) trivial).weaken fun _ _ passes =>
      (passes.consumed word).passes
  · split
    · rename_i word
      exact (calls.lower .P here budget (by decide) trivial).weaken fun _ _ passes =>
        (passes.consumed word).passes
    · split
      · rename_i word
        exact calls.lower .W here budget (by decide) word
      · split
        · rename_i name
          exact (calls.lower .Q here budget (by decide) trivial).weaken fun _ _ passes =>
            (passes.consumed name).passes
        · refine (safe_stays _ here).seq fun _ _ stays => ?_
          exact (safe_nextToken ends stays.1).weaken fun _ _ => Within.passes

private theorem safe_Q (budget : callRanks * (eof - state.pToken) + Procedure.Q.rank ≤ depth) :
    SafeBody input eof depth .Q state := by
  unfold SafeBody body Q
  refine (safe_stays _ here).seq fun _ _ stays => ?_
  refine (calls.lower .F stays.1 budget (by decide) trivial).seq fun _ _ passes => ?_
  rw [stays.2] at passes
  by_cases name : (state.current input).kind = 10
  · have within := passes.consumed (kind_current stays.2 name)
    refine (safe_expect_le ends within _ _).seq fun _ _ within => ?_
    exact (calls.later .R within budget trivial).weaken fun _ _ => Within.passes
  · refine (safe_expect_le ends passes.within _ _).seq fun _ _ within => ?_
    exact (calls.lower_le .R within budget (by decide) trivial).weaken fun _ _ within =>
      within.passes_of_not name

omit ends in
private theorem safe_R (budget : callRanks * (eof - state.pToken) + Procedure.R.rank ≤ depth) :
    SafeBody input eof depth .R state := by
  unfold SafeBody body R
  refine (calls.lower_le .S here budget (by decide) trivial).seq fun _ _ within => ?_
  exact (calls.lower_le .R_ within budget (by decide) trivial).weaken fun _ _ within =>
    within.passes_of_not id

private theorem safe_R_ (budget : callRanks * (eof - state.pToken) + Procedure.R_.rank ≤ depth) :
    SafeBody input eof depth .R_ state := by
  unfold SafeBody body R_
  refine safe_current.mpr ?_
  split
  · refine (safe_nextToken ends here).seq fun _ _ within => ?_
    refine (calls.later .S within budget trivial).seq fun _ _ within => ?_
    exact (calls.later .R_ within budget trivial).weaken fun _ _ => Within.passes
  · split
    · rename_i operand
      refine (calls.lower .S here budget (by decide) trivial).seq fun _ _ passes => ?_
      exact (calls.later .R_ (passes.consumed operand) budget trivial).weaken
        fun _ _ => Within.passes
    · exact Safe.returned (here.passes_of_not id)

omit ends in
private theorem safe_S (budget : callRanks * (eof - state.pToken) + Procedure.S.rank ≤ depth) :
    SafeBody input eof depth .S state := by
  unfold SafeBody body S
  refine (calls.lower .T here budget (by decide) trivial).seq fun _ middle passes => ?_
  by_cases operand : isOperand (state.current input) = true
  · by_cases star : (state.current input).text = "*"
    · rcases passes.within.moved_or with same | moved
      · -- `T` has left the `*` to `S_`.
        have there : (middle.current input).text = "*" := by rwa [current_eq same]
        refine (calls.lower .S_ passes.within budget (by decide) trivial).weaken ?_
        intro _ _ passes
        rw [same] at passes
        exact (passes.consumed there).passes
      · exact (calls.later .S_ moved budget trivial).weaken fun _ _ => Within.passes
    · exact (calls.later .S_ (passes.consumed ⟨operand, star⟩) budget trivial).weaken
        fun _ _ => Within.passes
  · exact (calls.lower_le .S_ passes.within budget (by decide) trivial).weaken
      fun _ _ within => within.passes_of_not operand

private theorem safe_S_ (budget : callRanks * (eof - state.pToken) + Procedure.S_.rank ≤ depth) :
    SafeBody input eof depth .S_ state := by
  unfold SafeBody body S_
  refine safe_current.mpr ?_
  split
  · refine (safe_nextToken ends here).seq fun _ _ within => ?_
    refine (calls.later .T within budget trivial).seq fun _ _ within => ?_
    exact (calls.later .S_ within budget trivial).weaken fun _ _ => Within.passes
  · rename_i noStar
    split
    · rename_i operand
      refine (calls.lower .T here budget (by decide) trivial).seq fun _ _ passes => ?_
      exact (calls.later .S_ (passes.consumed ⟨operand, noStar⟩) budget trivial).weaken
        fun _ _ => Within.passes
    · exact Safe.returned (here.passes_of_not noStar)

omit ends in
private theorem safe_T (notStuck : ¬ Stuck input state.pToken)
    (budget : callRanks * (eof - state.pToken) + Procedure.T.rank ≤ depth) :
    SafeBody input eof depth .T state := by
  have zero := here.pChar
  unfold SafeBody body T
  refine safe_get.mpr ?_
  rw [zero]
  split
  · rename_i digit
    refine (calls.lower .U here budget (by decide) trivial).weaken fun _ _ passes => ?_
    refine ⟨passes.within, fun consumes => passes.consumed ?_⟩
    rcases isOperand_cases consumes.1 with name | number
    · exact absurd (Or.inl ⟨name, digit⟩) notStuck
    · exact number
  · rename_i noDigit
    have noDigit : digitAt (entryAt input state.pToken) 0 = false := Bool.eq_false_iff.mpr noDigit
    split
    · rename_i bracket
      have ready : Ready input .Z state := by
        refine fun number => Classical.byContradiction fun other => ?_
        exact notStuck (Or.inr ⟨number, noDigit, fun _ => other, fun none => absurd bracket none⟩)
      exact (calls.lower .Z here budget (by decide) ready).weaken fun _ _ passes =>
        (passes.consumed trivial).passes
    · rename_i noBracket
      refine (safe_stays _ here).seq fun _ _ stays => ?_
      refine (calls.lower .F stays.1 budget (by decide) trivial).weaken fun _ _ passes => ?_
      rw [stays.2] at passes
      refine ⟨passes.within, fun consumes => passes.consumed ?_⟩
      rcases isOperand_cases consumes.1 with name | number
      · exact kind_current stays.2 name
      · exact absurd (Or.inr ⟨number, noDigit, fun bracket => absurd bracket noBracket,
          fun _ => consumes.2⟩) notStuck

omit calls in
private theorem safe_U : SafeBody input eof depth .U state := by
  unfold SafeBody body U
  refine safe_current.mpr ?_
  split
  · exact (safe_nextToken ends here).weaken fun _ _ => Within.passes
  · rename_i other
    exact Safe.returned (here.passes_of_not other)

private theorem safe_W (ready : Ready input .W state)
    (budget : callRanks * (eof - state.pToken) + Procedure.W.rank ≤ depth) :
    SafeBody input eof depth .W state := by
  unfold SafeBody body W
  refine (safe_expect ends here _ _).seq fun _ _ passed => ?_
  refine (calls.later .X (passed.2 (Or.inl ready)) budget trivial).seq fun _ _ within => ?_
  refine (safe_expect_le ends within _ _).seq fun _ _ within => ?_
  refine (calls.later .N within budget trivial).seq fun _ _ within => ?_
  refine (safe_expect_le ends within _ _).seq fun _ _ within => ?_
  exact (calls.later .N within budget trivial).weaken fun _ _ => Within.passes

omit ends in
private theorem safe_X (budget : callRanks * (eof - state.pToken) + Procedure.X.rank ≤ depth) :
    SafeBody input eof depth .X state := by
  unfold SafeBody body X
  refine (calls.lower_le .R here budget (by decide) trivial).seq fun _ _ within => ?_
  refine (calls.lower_le .Y within budget (by decide) trivial).seq fun _ _ within => ?_
  exact (calls.lower_le .R within budget (by decide) trivial).weaken fun _ _ within =>
    within.passes_of_not id

omit calls in
private theorem safe_Y : SafeBody input eof depth .Y state := by
  unfold SafeBody body Y
  refine safe_current.mpr ?_
  split
  · exact (safe_nextToken ends here).weaken fun _ _ => Within.passes
  · refine (safe_stays _ here).seq fun _ _ stays => ?_
    split
    · exact (safe_nextToken ends stays.1).weaken fun _ _ => Within.passes
    · exact Safe.returned (stays.1.passes_of_not id)

private theorem safe_Z (ready : Ready input .Z state)
    (budget : callRanks * (eof - state.pToken) + Procedure.Z.rank ≤ depth) :
    SafeBody input eof depth .Z state := by
  unfold SafeBody body Z
  refine (safe_stays _ here).seq fun _ _ stays => ?_
  refine (calls.lower .G stays.1 budget (by decide) trivial).seq fun _ middle passes => ?_
  rw [stays.2] at passes
  have bracket : Safe input eof (fun _ => Within eof (state.pToken + 1))
      (expect input "(" fun entry => !isOperand entry) middle := by
    rcases passes.within.moved_or with same | moved
    · by_cases name : (state.current input).kind = 10
      · exact safe_expect_le ends (passes.consumed (kind_current stays.2 name)) _ _
      · refine (safe_expect ends passes.within _ _).weaken fun _ _ passed => passed.2 ?_
        rw [current_eq same]
        by_cases number : (state.current input).kind = 11
        · exact Or.inl (ready number)
        · exact Or.inr (by simp [isOperand, name, number])
    · exact safe_expect_le ends moved _ _
  refine bracket.seq fun _ _ within => ?_
  refine (calls.later .R within budget trivial).seq fun _ _ within => ?_
  exact (safe_expect_le ends within _ _).weaken fun _ _ => Within.passes

end Bodies

private theorem safe_body {depth : Nat} (calls : CallsReturn input eof depth)
    (ends : EndsAt input eof)
    {procedure : Procedure} {state : State} (here : Within eof state.pToken state)
    (ready : Ready input procedure state) (notStuck : procedure = .T → ¬ Stuck input state.pToken)
    (budget : callRanks * (eof - state.pToken) + procedure.rank ≤ depth) :
    SafeBody input eof depth procedure state := by
  cases procedure with
  | A => exact safe_A calls here budget
  | B => exact safe_B calls ends here budget
  | C => exact safe_C calls here budget
  | C_ => exact safe_C_ calls ends here budget
  | D => exact safe_D calls here budget
  | E => exact safe_E calls ends here budget
  | F => exact safe_F calls here budget
  | G => exact safe_G ends here
  | J => exact safe_J calls ends here budget
  | K => exact safe_K calls here budget
  | L => exact safe_L calls ends here budget
  | M => exact safe_M calls here budget
  | M_ => exact safe_M_ calls ends here budget
  | N => exact safe_N calls ends here budget
  | O => exact safe_O calls ends here budget
  | P => exact safe_P calls ends here budget
  | Q => exact safe_Q calls ends here budget
  | R => exact safe_R calls here budget
  | R_ => exact safe_R_ calls ends here budget
  | S => exact safe_S calls here budget
  | S_ => exact safe_S_ calls ends here budget
  | T => exact safe_T calls here (notStuck rfl) budget
  | U => exact safe_U ends here
  | W => exact safe_W calls ends here ready budget
  | X => exact safe_X calls here budget
  | Y => exact safe_Y ends here
  | Z => exact safe_Z calls ends here ready budget

/-- By induction on the depth: a body calls at a smaller rank, or behind a consumed entry. -/
theorem callsReturn (ends : EndsAt input eof) (depth : Nat) : CallsReturn input eof depth := by
  induction depth with
  | zero =>
      intro procedure state _ _ budget
      exact absurd budget (Nat.not_lt_zero _)
  | succ depth ih =>
      intro procedure state here ready budget
      refine wp_bind.mpr ?_
      refine (wp_of_outcome (outcome_change _ _)).mpr ?_
      by_cases stuck : procedure = .T ∧ Stuck input state.pToken
      · refine Safe.of_wrong ⟨.entered procedure state.pToken, ?_, stuck⟩
        exact List.mem_append_right _ List.mem_cons_self
      · have entered : Within eof state.pToken (state.logged (.entered procedure state.pToken)) :=
          here.of_eq rfl rfl
        have same : ∀ consumes : Prop, Consumes input procedure state = consumes → Consumes input
            procedure (state.logged (.entered procedure state.pToken)) = consumes := by
          rintro _ rfl
          cases procedure <;> rfl
        have ready' : Ready input procedure (state.logged (.entered procedure state.pToken)) := by
          cases procedure <;> exact ready
        have safe := safe_body ih ends entered ready' (fun isT isStuck => stuck ⟨isT, isStuck⟩)
          (Nat.le_of_lt_succ budget)
        rw [SafeBody, same _ rfl] at safe
        exact safe

/-- A run in which nothing goes wrong at any depth returns before it passes `EOF`. -/
theorem returns_of_not_wrong (ends : EndsAt input eof)
    (fine : ∀ depth, ¬ WentWrong input eof (outcome (invoke input depth .A) start).2) :
    ∃ depth after, outcome (invoke input depth .A) start = (.ok (), after) ∧
      after.pToken ≤ eof := by
  let depth := callRanks * eof + Procedure.A.rank + 1
  have here : Within eof start.pToken start := ⟨Nat.zero_le eof, Nat.le_refl _, rfl⟩
  have safe := callsReturn ends depth .A start here trivial (Nat.lt_succ_self _)
  have notWrong := fine depth
  unfold Safe wp at safe
  rcases run : outcome (invoke input depth .A) start with ⟨raise | result, after⟩
  · rw [run] at safe notWrong
    exact absurd safe notWrong
  · rw [run] at safe notWrong
    exact ⟨depth, after, run, (safe.resolve_left notWrong).within.upper⟩

end OsCompiler.LabParser
