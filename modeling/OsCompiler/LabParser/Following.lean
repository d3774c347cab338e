/-
How the parse procedures of `lab_parser.c` follow a derivation without functions.

`Parses` says which entries are ahead, line ends left out, and which variables the tables
have. Each procedure consumes the word of its production, whatever stands behind it, as
long as that begins with a sign that may follow.
-/

import OsCompiler.LabParser.Recovery
import OsCompiler.LabParser.Grammar

namespace OsCompiler.LabParser

open OsCompiler.Action

variable {input : List Entry} {names : List String} {word rest : List Entry} {entry : Entry}
variable {state : State}

/-! ### The entries ahead -/

def ahead (input : List Entry) (index : Nat) : List Entry := (input.drop index).filter notLine

def noEntry : Entry := ⟨"", 0⟩

def front (word : List Entry) : Entry := word.headD noEntry

private theorem ahead_of_lt {index : Nat} (inside : index < input.length) :
    ahead input index = if notLine input[index] then input[index] :: ahead input (index + 1)
      else ahead input (index + 1) := by
  rw [ahead, List.drop_eq_getElem_cons inside, List.filter_cons]
  rfl

private theorem ahead_outside {index : Nat} (outside : ¬ index < input.length) :
    ahead input index = [] := by
  rw [ahead, List.drop_eq_nil_of_le (Nat.le_of_not_lt outside)]
  rfl

private theorem ahead_skipLines (input : List Entry) (index : Nat) :
    ahead input (skipLines input index) = ahead input index := by
  induction index using skipLines.induct input with
  | case1 index inside line ih =>
      rw [skipLines, dif_pos inside, if_pos line, ih, ahead_of_lt inside]
      simp [notLine, line]
  | case2 index inside noLine =>
      rw [skipLines, dif_pos inside, if_neg noLine]
  | case3 index outside =>
      rw [skipLines, dif_neg outside]

private theorem skipLines_noLine (input : List Entry) (index : Nat) :
    (entryAt input (skipLines input index)).text ≠ "EOLN" := by
  induction index using skipLines.induct input with
  | case1 index inside line ih =>
      rwa [skipLines, dif_pos inside, if_pos line]
  | case2 index inside noLine =>
      rwa [skipLines, dif_pos inside, if_neg noLine, entryAt_eq inside]
  | case3 index outside =>
      rw [skipLines, dif_neg outside, entryAt_outside outside]
      decide

private theorem skipLines_le_length {index : Nat} (inside : index ≤ input.length) :
    skipLines input index ≤ input.length :=
  skipLines_le (by rw [entryAt_outside (Nat.lt_irrefl _)]; decide) inside

theorem ahead_cons {index : Nat} (noLine : (entryAt input index).text ≠ "EOLN")
    (inside : index < input.length) :
    ahead input index = entryAt input index :: ahead input (index + 1) := by
  rw [ahead_of_lt inside, entryAt_eq inside, if_pos]
  rw [entryAt_eq inside] at noLine
  simpa [notLine] using noLine

private theorem front_ahead {index : Nat} (noLine : (entryAt input index).text ≠ "EOLN") :
    front (ahead input index) = entryAt input index := by
  by_cases inside : index < input.length
  · rw [ahead_cons noLine inside]
    rfl
  · rw [ahead_outside inside, entryAt_outside inside]
    rfl

theorem length_ahead_le (input : List Entry) {index later : Nat} (le : index ≤ later) :
    (ahead input later).length ≤ (ahead input index).length :=
  ((List.drop_sublist_drop_left input le).filter notLine).length_le

/-- The entries ahead determine a position that is no line end. -/
theorem eq_of_ahead_eq {index later : Nat} (noLine : (entryAt input index).text ≠ "EOLN")
    (le : index ≤ later) (upper : later ≤ input.length)
    (same : ahead input index = ahead input later) : index = later := by
  rcases Nat.eq_or_lt_of_le le with eq | before
  · exact eq
  · have inside := Nat.lt_of_lt_of_le before upper
    have fewer := length_ahead_le input before
    rw [← same, ahead_cons noLine inside, List.length_cons] at fewer
    exact absurd fewer (Nat.not_succ_le_self _)

/-! ### The parser on its way -/

/-- Without an error so far; these entries are ahead and these variables declared. -/
structure Parses (input : List Entry) (names : List String) (word : List Entry) (state : State) :
    Prop where
  noLine : (state.current input).text ≠ "EOLN"
  upper : state.pToken ≤ input.length
  ahead : ahead input state.pToken = word
  pChar : state.pChar = 0
  errors : state.errors = []
  parameter : state.currentPro.parameter = 0
  known : ∀ name, state.isVarExisted name state.currentPro.pname false = true ↔ name ∈ names

theorem Parses.current (parses : Parses input names word state) :
    state.current input = front word := by
  rw [← parses.ahead, front_ahead parses.noLine]
  rfl

theorem Parses.inside (parses : Parses input names (entry :: word) state) :
    state.pToken < input.length := by
  refine Classical.byContradiction fun outside => ?_
  have none := parses.ahead
  rw [ahead_outside outside] at none
  cases none

theorem Parses.behind (parses : Parses input names (entry :: word) state) :
    LabParser.ahead input (state.pToken + 1) = word := by
  have whole := parses.ahead
  rw [ahead_cons parses.noLine parses.inside] at whole
  exact (List.cons.inj whole).2

theorem Parses.logged (parses : Parses input names word state) (event : Event) :
    Parses input names word (state.logged event) :=
  ⟨parses.noLine, parses.upper, parses.ahead, parses.pChar, parses.errors, parses.parameter,
    parses.known⟩

theorem Parses.moved (parses : Parses input names (entry :: word) state) :
    Parses input names word (state.moved input) := by
  constructor
  · rw [State.current, moved_pToken]
    exact skipLines_noLine input _
  · rw [moved_pToken]
    exact skipLines_le_length parses.inside
  · rw [moved_pToken, ahead_skipLines]
    exact parses.behind
  · exact moved_pChar state
  · rw [moved_errors]
    exact parses.errors
  · rw [moved_currentPro]
    exact parses.parameter
  · intro name
    rw [State.isVarExisted, moved_currentPro, moved_var, moved_pro]
    exact parses.known name

/-- The entry that `getNextToken` finds. -/
theorem Parses.next (parses : Parses input names (entry :: word) state) :
    entryAt input (state.getNextToken input) = front word := by
  rw [← parses.moved.current, State.current, moved_pToken]
  rfl

/-- The entry right behind is the next one or the end of a line. -/
theorem Parses.right_behind (parses : Parses input names (entry :: word) state) :
    (entryAt input (state.pToken + 1)).text = "EOLN" ∨
      entryAt input (state.pToken + 1) = front word := by
  by_cases line : (entryAt input (state.pToken + 1)).text = "EOLN"
  · exact Or.inl line
  · rw [← parses.behind, front_ahead line]
    exact Or.inr rfl

section Steps

variable {Result : Type} {returns : State → Prop}

theorem leads_invoke {procedure : Procedure}
    (behind : Leads returns (fun depth => body input (invoke input depth) procedure)
      (state.logged (.entered procedure state.pToken))) :
    Leads returns (fun depth => invoke input depth procedure) state := by
  rcases behind with ⟨enough, result, after, holds, run⟩
  refine ⟨enough + 1, result, after, holds, fun depth deep => ?_⟩
  cases depth with
  | zero => exact absurd deep (Nat.not_succ_le_zero enough)
  | succ depth => exact run depth (Nat.le_of_succ_le_succ deep)

theorem leads_current {next : Nat → Entry → Parser Result} :
    Leads returns (fun depth => current input >>= next depth) state ↔
      Leads returns (fun depth => next depth (state.current input)) state :=
  Iff.rfl

theorem leads_done (holds : returns state) :
    Leads returns (fun _ => (pure () : Parser Unit)) state :=
  leads_of_outcome rfl holds

theorem leads_next (parses : Parses input names (entry :: word) state) :
    Leads (Parses input names word) (fun _ => nextToken input) state :=
  leads_of_outcome rfl (parses.logged _).moved

theorem leads_expect {sign : String} (isSign : IsWord sign entry) (skips : Entry → Bool)
    (parses : Parses input names (entry :: word) state) :
    Leads (Parses input names word) (fun _ => expect input sign skips) state := by
  refine leads_current.mpr ?_
  have there : (state.current input).text = sign := by
    rw [parses.current]
    exact isSign.text
  rw [if_pos there]
  exact leads_next parses

/-- A declared variable is known as a local one. -/
theorem Parses.knows (parses : Parses input names (entry :: word) state)
    (declared : entry.text ∈ names) :
    state.knowsVariable (state.current input).text = true := by
  rw [State.knowsVariable, parses.current, Bool.or_eq_true]
  exact Or.inl ((parses.known entry.text).mpr declared)

private theorem leads_checkVar (parses : Parses input names (entry :: word) state)
    (declared : entry.text ∈ names) :
    Leads (Parses input names (entry :: word)) (fun _ => checkVar input) state := by
  refine leads_get.mpr ?_
  rw [if_pos (parses.knows declared)]
  exact leads_done parses

private theorem leads_checkAssigned (parses : Parses input names (entry :: word) state)
    (declared : entry.text ∈ names) :
    Leads (Parses input names (entry :: word)) (fun _ => checkAssigned input) state := by
  refine leads_get.mpr ?_
  rw [if_pos (Or.inl (parses.knows declared))]
  exact leads_done parses

private theorem leads_G (parses : Parses input names (entry :: word) state)
    (name : IsIdentifier entry) :
    Leads (Parses input names word) (fun depth => invoke input depth .G) state := by
  refine leads_invoke (leads_current.mpr ?_)
  rw [(parses.logged _).current]
  have here : (front (entry :: word)).kind = 10 := name.kind
  rw [if_pos here]
  exact leads_next (parses.logged _)

theorem leads_F (parses : Parses input names (entry :: word) state) (name : IsIdentifier entry) :
    Leads (Parses input names word) (fun depth => invoke input depth .F) state :=
  leads_invoke (leads_G (parses.logged _) name)

private theorem leads_U (parses : Parses input names (entry :: word) state)
    (number : IsConstant entry) :
    Leads (Parses input names word) (fun depth => invoke input depth .U) state := by
  refine leads_invoke (leads_current.mpr ?_)
  rw [(parses.logged _).current]
  have here : (front (entry :: word)).kind = 11 := number.kind
  rw [if_pos here]
  exact leads_next (parses.logged _)

end Steps

/-! ### What may follow -/

structure EndsTerm (next : Entry) : Prop where
  bracket : next.text ≠ "("
  times : next.text ≠ "*"
  operand : isOperand next = false

structure EndsExpression (next : Entry) : Prop extends EndsTerm next where
  minus : next.text ≠ "-"

def Follows : Procedure → Entry → Prop
  | .T, next => next.text ≠ "("
  | .S, next | .S_, next => EndsTerm next
  | .M, next | .M_, next => IsWord "end" next
  | _, next => EndsExpression next

theorem IsWord.endsTerm {sign : String} (isSign : IsWord sign entry)
    (other : sign ≠ "(" ∧ sign ≠ "*") : EndsTerm entry := by
  refine ⟨?_, ?_, by simp [isOperand, isSign.noIdentifier, isSign.noConstant]⟩
  · rw [isSign.text]
    exact other.1
  · rw [isSign.text]
    exact other.2

theorem IsWord.endsExpression {sign : String} (isSign : IsWord sign entry)
    (other : sign ≠ "(" ∧ sign ≠ "*" ∧ sign ≠ "-") : EndsExpression entry := by
  refine ⟨isSign.endsTerm ⟨other.1, other.2.1⟩, ?_⟩
  rw [isSign.text]
  exact other.2.2

theorem IsRelation.endsExpression (relation : IsRelation entry) : EndsExpression entry := by
  have different : ∀ sign ∈ ["<", "<=", ">", ">=", "=", "<>"],
      sign ≠ "(" ∧ sign ≠ "*" ∧ sign ≠ "-" := by decide
  exact IsWord.endsExpression ⟨rfl, relation.noIdentifier, relation.noConstant⟩
    (different entry.text relation.text)

def Consumed (input : List Entry) (names : List String) (procedure : Procedure)
    (word : List Entry) : Prop :=
  ∀ rest state, Follows procedure (front rest) → Parses input names (word ++ rest) state →
    Leads (Parses input names rest) (fun depth => invoke input depth procedure) state

def BeginsWith (sign : String) (word : List Entry) : Prop :=
  word = [] ∨ ∃ first others, word = first :: others ∧ IsWord sign first

theorem BeginsWith.front {sign : String} (begins : BeginsWith sign word) (rest : List Entry) :
    front (word ++ rest) = front rest ∨ IsWord sign (front (word ++ rest)) := by
  rcases begins with rfl | ⟨first, others, rfl, isSign⟩
  · exact Or.inl rfl
  · exact Or.inr isSign

section Consumed

variable {item tail : Procedure} {left right first second : List Entry}

/-- Two calls in a row, whether or not a sign is in front of them. -/
theorem leads_pair (consumedItem : Consumed input names item first)
    (consumedTail : Consumed input names tail second)
    (followsItem : Follows item (front (second ++ rest))) (followsTail : Follows tail (front rest))
    (parses : Parses input names (first ++ second ++ rest) state) :
    Leads (Parses input names rest)
      (fun depth => do invoke input depth item; invoke input depth tail) state := by
  rw [List.append_assoc] at parses
  refine (consumedItem (second ++ rest) state followsItem parses).seq fun _ after parses => ?_
  exact consumedTail rest after followsTail parses

/-! ### The expressions -/

theorem isDigit_of_isAlpha {letter : Char} (isLetter : letter.isAlpha = true) :
    letter.isDigit = false := by
  have cases := Bool.or_eq_true_iff.mp isLetter
  refine Bool.eq_false_iff.mpr fun isDigit => ?_
  have digit : '0'.val ≤ letter.val ∧ letter.val ≤ '9'.val :=
    (Bool.and_eq_true_iff.mp isDigit).imp of_decide_eq_true of_decide_eq_true
  rcases cases with upper | lower
  · have bounds := of_decide_eq_true upper
    exact absurd (UInt32.le_trans bounds.1 digit.2) (by decide)
  · have bound := of_decide_eq_true (Bool.and_eq_true_iff.mp lower).1
    exact absurd (UInt32.le_trans bound digit.2) (by decide)

private theorem follows_T (begins : BeginsWith "*" second) (follows : EndsTerm (front rest)) :
    Follows .T (front (second ++ rest)) := by
  rcases begins.front rest with same | times
  · rw [same]
    exact follows.bracket
  · rw [Follows, times.text]
    decide

private theorem consumed_S (factor : Consumed input names .T first)
    (others : Consumed input names .S_ second) (begins : BeginsWith "*" second) :
    Consumed input names .S (first ++ second) :=
  fun _ _ follows parses =>
    leads_invoke (leads_pair factor others (follows_T begins follows) follows (parses.logged _))

private theorem consumed_S_times (times : IsWord "*" entry) (factor : Consumed input names .T first)
    (others : Consumed input names .S_ second) (begins : BeginsWith "*" second) :
    Consumed input names .S_ (entry :: (first ++ second)) := by
  intro rest state follows parses
  refine leads_invoke (leads_current.mpr ?_)
  have there : (front (entry :: (first ++ second) ++ rest)).text = "*" := times.text
  simp only [(parses.logged _).current, if_pos there]
  refine (leads_next (parses.logged _)).seq fun _ _ parses => ?_
  exact leads_pair factor others (follows_T begins follows) follows parses

private theorem consumed_S_empty : Consumed input names .S_ [] := by
  intro rest state follows parses
  refine leads_invoke (leads_current.mpr ?_)
  have noTimes : ¬ (front ([] ++ rest)).text = "*" := follows.times
  have noOperand : ¬ isOperand (front ([] ++ rest)) = true := Bool.eq_false_iff.mp follows.operand
  simp only [(parses.logged _).current, if_neg noTimes, if_neg noOperand]
  exact leads_done (parses.logged _)

private theorem consumed_T_F (name : IsIdentifier entry) (declared : entry.text ∈ names) :
    Consumed input names .T [entry] := by
  intro rest state follows parses
  have parses : Parses input names (entry :: rest) (state.logged (.entered .T state.pToken)) :=
    parses.logged _
  refine leads_invoke (leads_get.mpr ?_)
  have noDigit : ¬ digitAt (front (entry :: rest)) 0 = true := by
    rcases name.letters with ⟨letter, others, text, isLetter, _⟩
    simp [digitAt, front, text, isDigit_of_isAlpha isLetter]
  have noBracket : ¬ (front rest).text = "(" := follows
  simp only [parses.current, parses.pChar, if_neg noDigit, parses.next, if_neg noBracket]
  refine (leads_checkVar parses declared).seq fun _ _ parses => ?_
  exact leads_F parses name

private theorem consumed_T_U (number : IsConstant entry) : Consumed input names .T [entry] := by
  intro rest state follows parses
  have parses : Parses input names (entry :: rest) (state.logged (.entered .T state.pToken)) :=
    parses.logged _
  refine leads_invoke (leads_get.mpr ?_)
  have digit : digitAt (front (entry :: rest)) 0 = true := by
    rcases number.digits with ⟨digit, others, text, isDigit, _⟩
    simp [digitAt, front, text, isDigit]
  simp only [parses.current, parses.pChar, if_pos digit]
  exact leads_U parses number

private theorem follows_S (begins : BeginsWith "-" second) (follows : EndsExpression (front rest)) :
    Follows .S (front (second ++ rest)) := by
  rcases begins.front rest with same | minus
  · rw [same]
    exact follows.toEndsTerm
  · exact minus.endsTerm (by decide)

private theorem consumed_R (term : Consumed input names .S first)
    (others : Consumed input names .R_ second) (begins : BeginsWith "-" second) :
    Consumed input names .R (first ++ second) :=
  fun _ _ follows parses =>
    leads_invoke (leads_pair term others (follows_S begins follows) follows (parses.logged _))

private theorem consumed_R_minus (minus : IsWord "-" entry) (term : Consumed input names .S first)
    (others : Consumed input names .R_ second) (begins : BeginsWith "-" second) :
    Consumed input names .R_ (entry :: (first ++ second)) := by
  intro rest state follows parses
  refine leads_invoke (leads_current.mpr ?_)
  have there : (front (entry :: (first ++ second) ++ rest)).text = "-" := minus.text
  simp only [(parses.logged _).current, if_pos there]
  refine (leads_next (parses.logged _)).seq fun _ _ parses => ?_
  exact leads_pair term others (follows_S begins follows) follows parses

private theorem consumed_R_empty : Consumed input names .R_ [] := by
  intro rest state follows parses
  refine leads_invoke (leads_current.mpr ?_)
  have noMinus : ¬ (front ([] ++ rest)).text = "-" := follows.minus
  have noOperand : ¬ isOperand (front ([] ++ rest)) = true := Bool.eq_false_iff.mp follows.operand
  simp only [(parses.logged _).current, if_neg noMinus, if_neg noOperand]
  exact leads_done (parses.logged _)

private theorem isRelation_of (relation : IsRelation entry) : isRelation entry = true := by
  simpa [isRelation] using relation.text

private theorem consumed_X (less : Consumed input names .R left) (relation : IsRelation entry)
    (more : Consumed input names .R right) : Consumed input names .X (left ++ entry :: right) := by
  intro rest state follows parses
  refine leads_invoke ?_
  have parses := parses.logged (.entered .X state.pToken)
  rw [List.append_assoc] at parses
  refine (less (entry :: (right ++ rest)) _ relation.endsExpression parses).seq
    fun _ after parses => ?_
  have sign : Leads (Parses input names (right ++ rest)) (fun depth => invoke input depth .Y)
      after := by
    refine leads_invoke (leads_current.mpr ?_)
    have there : isRelation (front (entry :: (right ++ rest))) = true := isRelation_of relation
    simp only [(parses.logged _).current, if_pos there]
    exact leads_next (parses.logged _)
  refine sign.seq fun _ after parses => ?_
  exact more rest after follows parses

/-! ### The statements -/

theorem leads_inBrackets {word : String} {opening name closing : Entry}
    (isWord : IsWord word entry) (bracket : IsWord "(" opening) (identifier : IsIdentifier name)
    (declared : name.text ∈ names) (bracket' : IsWord ")" closing)
    (parses : Parses input names (entry :: opening :: name :: closing :: rest) state) :
    Leads (Parses input names rest) (fun depth => inBrackets input (invoke input depth) word)
      state := by
  refine (leads_expect isWord _ parses).seq fun _ _ parses => ?_
  refine (leads_expect bracket _ parses).seq fun _ _ parses => ?_
  refine (leads_checkVar parses declared).seq fun _ _ parses => ?_
  refine (leads_F parses identifier).seq fun _ _ parses => ?_
  exact leads_expect bracket' _ parses

private theorem consumed_O {opening name closing : Entry} (read : IsWord "read" entry)
    (bracket : IsWord "(" opening) (identifier : IsIdentifier name)
    (declared : name.text ∈ names) (bracket' : IsWord ")" closing) :
    Consumed input names .O [entry, opening, name, closing] :=
  fun _ _ _ parses =>
    leads_invoke (leads_inBrackets read bracket identifier declared bracket' (parses.logged _))

private theorem consumed_P {opening name closing : Entry} (write : IsWord "write" entry)
    (bracket : IsWord "(" opening) (identifier : IsIdentifier name)
    (declared : name.text ∈ names) (bracket' : IsWord ")" closing) :
    Consumed input names .P [entry, opening, name, closing] :=
  fun _ _ _ parses =>
    leads_invoke (leads_inBrackets write bracket identifier declared bracket' (parses.logged _))

private theorem consumed_Q {assign : Entry} (identifier : IsIdentifier entry)
    (declared : entry.text ∈ names) (sign : IsWord ":=" assign)
    (value : Consumed input names .R right) :
    Consumed input names .Q (entry :: assign :: right) := by
  intro rest state follows parses
  have parses : Parses input names (entry :: assign :: (right ++ rest))
      (state.logged (.entered .Q state.pToken)) := parses.logged _
  refine leads_invoke ((leads_checkAssigned parses declared).seq fun _ _ parses => ?_)
  refine (leads_F parses identifier).seq fun _ _ parses => ?_
  refine (leads_expect sign _ parses).seq fun _ after parses => ?_
  exact value rest after follows parses

private theorem consumed_N_O (read : IsWord "read" entry)
    (statement : Consumed input names .O (entry :: word)) :
    Consumed input names .N (entry :: word) := by
  intro rest state follows parses
  refine leads_invoke (leads_current.mpr ?_)
  have there : (front (entry :: word ++ rest)).text = "read" := read.text
  simp only [(parses.logged _).current, if_pos there]
  exact statement rest _ follows (parses.logged _)

private theorem consumed_N_P (write : IsWord "write" entry)
    (statement : Consumed input names .P (entry :: word)) :
    Consumed input names .N (entry :: word) := by
  intro rest state follows parses
  refine leads_invoke (leads_current.mpr ?_)
  have there : (front (entry :: word ++ rest)).text = "write" := write.text
  have noRead : ¬ (front (entry :: word ++ rest)).text = "read" := by
    rw [there]
    decide
  simp only [(parses.logged _).current, if_neg noRead, if_pos there]
  exact statement rest _ follows (parses.logged _)

private theorem consumed_N_W (isIf : IsWord "if" entry)
    (statement : Consumed input names .W (entry :: word)) :
    Consumed input names .N (entry :: word) := by
  intro rest state follows parses
  refine leads_invoke (leads_current.mpr ?_)
  have there : (front (entry :: word ++ rest)).text = "if" := isIf.text
  have others : ¬ (front (entry :: word ++ rest)).text = "read" ∧
      ¬ (front (entry :: word ++ rest)).text = "write" := by
    rw [there]
    decide
  simp only [(parses.logged _).current, if_neg others.1, if_neg others.2, if_pos there]
  exact statement rest _ follows (parses.logged _)

private theorem consumed_N_Q (identifier : IsIdentifier entry)
    (statement : Consumed input names .Q (entry :: word)) :
    Consumed input names .N (entry :: word) := by
  intro rest state follows parses
  refine leads_invoke (leads_current.mpr ?_)
  have others : ∀ reserved ∈ reservedWords, ¬ (front (entry :: word ++ rest)).text = reserved := by
    rintro reserved member rfl
    exact identifier.notReserved member
  have there : (front (entry :: word ++ rest)).kind = 10 := identifier.kind
  simp only [(parses.logged _).current, if_neg (others "read" (by decide)),
    if_neg (others "write" (by decide)), if_neg (others "if" (by decide)), if_pos there]
  exact statement rest _ follows (parses.logged _)

private theorem consumed_W {then_ else_ : Entry} {condition yes no : List Entry}
    (isIf : IsWord "if" entry)
    (test : Consumed input names .X condition) (isThen : IsWord "then" then_)
    (onTrue : Consumed input names .N yes) (isElse : IsWord "else" else_)
    (onFalse : Consumed input names .N no) :
    Consumed input names .W (entry :: (condition ++ then_ :: (yes ++ else_ :: no))) := by
  intro rest state follows parses
  have order : entry :: (condition ++ then_ :: (yes ++ else_ :: no)) ++ rest =
      entry :: (condition ++ then_ :: (yes ++ else_ :: (no ++ rest))) := by simp
  rw [order] at parses
  refine leads_invoke ((leads_expect isIf _ (parses.logged _)).seq fun _ after parses => ?_)
  refine (test (then_ :: (yes ++ else_ :: (no ++ rest))) after
    (isThen.endsExpression (by decide)) parses).seq fun _ _ parses => ?_
  refine (leads_expect isThen _ parses).seq fun _ after parses => ?_
  refine (onTrue (else_ :: (no ++ rest)) after
    (isElse.endsExpression (by decide)) parses).seq fun _ _ parses => ?_
  refine (leads_expect isElse _ parses).seq fun _ after parses => ?_
  exact onFalse rest after follows parses

private theorem follows_N (begins : BeginsWith ";" second) (follows : IsWord "end" (front rest)) :
    Follows .N (front (second ++ rest)) := by
  rcases begins.front rest with same | semicolon
  · rw [same]
    exact follows.endsExpression (by decide)
  · exact semicolon.endsExpression (by decide)

private theorem consumed_M (statement : Consumed input names .N first)
    (others : Consumed input names .M_ second) (begins : BeginsWith ";" second) :
    Consumed input names .M (first ++ second) :=
  fun _ _ follows parses =>
    leads_invoke (leads_pair statement others (follows_N begins follows) follows (parses.logged _))

private theorem consumed_M_next (semicolon : IsWord ";" entry)
    (statement : Consumed input names .N first)
    (others : Consumed input names .M_ second) (begins : BeginsWith ";" second) :
    Consumed input names .M_ (entry :: (first ++ second)) := by
  intro rest state follows parses
  refine leads_invoke (leads_current.mpr ?_)
  have there : (front (entry :: (first ++ second) ++ rest)).text = ";" := semicolon.text
  simp only [(parses.logged _).current, if_pos there]
  refine (leads_next (parses.logged _)).seq fun _ _ parses => ?_
  exact leads_pair statement others (follows_N begins follows) follows parses

private theorem consumed_M_empty : Consumed input names .M_ [] := by
  intro rest state follows parses
  refine leads_invoke (leads_current.mpr ?_)
  have there : (front ([] ++ rest)).text = "end" := follows.text
  have noSemicolon : ¬ (front ([] ++ rest)).text = ";" := by
    rw [there]
    decide
  have noMore : ¬ ((front ([] ++ rest)).text ≠ "end" ∧ (front ([] ++ rest)).text ≠ "EOF") :=
    fun more => more.1 there
  simp only [(parses.logged _).current, if_neg noSemicolon, if_neg noMore]
  exact leads_done (parses.logged _)

end Consumed

/-! ### Derivations -/

variable {scope : Scope}

theorem Executes.begins_M_ (executes : Executes scope .M_ word) : BeginsWith ";" word := by
  cases executes with
  | M_next sign _ _ => exact Or.inr ⟨_, _, rfl, sign⟩
  | M_empty => exact Or.inl rfl

theorem Executes.begins_R_ (executes : Executes scope .R_ word) : BeginsWith "-" word := by
  cases executes with
  | R_minus sign _ _ => exact Or.inr ⟨_, _, rfl, sign⟩
  | R_empty => exact Or.inl rfl

theorem Executes.begins_S_ (executes : Executes scope .S_ word) : BeginsWith "*" word := by
  cases executes with
  | S_times sign _ _ => exact Or.inr ⟨_, _, rfl, sign⟩
  | S_empty => exact Or.inl rfl

/-- The parser follows every derivation; where no function is declared none is called. -/
theorem Executes.consumed {procedure : Procedure} (executes : Executes scope procedure word)
    (none : scope.functionNames = []) : Consumed input scope.variableNames procedure word := by
  have noFunction (name : String) : name ∉ scope.functionNames := by
    rw [none]
    exact List.not_mem_nil
  induction executes with
  | M first rest statement others => exact consumed_M statement others rest.begins_M_
  | M_next sign first rest statement others =>
      exact consumed_M_next sign statement others rest.begins_M_
  | M_empty => exact consumed_M_empty
  | N_O derived statement =>
      cases derived with
      | O first => exact consumed_N_O first statement
  | N_P derived statement =>
      cases derived with
      | P first => exact consumed_N_P first statement
  | N_Q derived statement =>
      cases derived with
      | Q identifier => exact consumed_N_Q identifier statement
  | N_W derived statement =>
      cases derived with
      | W first => exact consumed_N_W first statement
  | O first opening identifier declared closing =>
      exact consumed_O first opening identifier declared closing
  | P first opening identifier declared closing =>
      exact consumed_P first opening identifier declared closing
  | Q identifier declared sign _ value =>
      exact consumed_Q identifier (declared.resolve_right (noFunction _)) sign value
  | R first rest term others => exact consumed_R term others rest.begins_R_
  | R_minus sign first rest term others => exact consumed_R_minus sign term others rest.begins_R_
  | R_empty => exact consumed_R_empty
  | S first rest factor others => exact consumed_S factor others rest.begins_S_
  | S_times sign first rest factor others =>
      exact consumed_S_times sign factor others rest.begins_S_
  | S_empty => exact consumed_S_empty
  | T_F identifier declared => exact consumed_T_F identifier declared
  | T_U number => exact consumed_T_U number
  | T_Z application =>
      cases application with
      | Z _ declared => exact absurd declared (noFunction _)
  | W first _ second _ third _ test onTrue onFalse =>
      exact consumed_W first test second onTrue third onFalse
  | X _ sign _ less more => exact consumed_X less sign more
  | Z _ declared => exact absurd declared (noFunction _)

end OsCompiler.LabParser
