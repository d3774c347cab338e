/-
The frames of the interpreter that `lab_parser.py` runs in.

Every call of a function takes a frame, also the recursive ones of `current_code`,
`current_word` and `now_more_one` on line breaks, and where there are no frames left the call
raises. A run that does not end so is the run with frames without end, and none ends so where
there are frames for the calls of `callDepth` and for the longest run of line breaks.
-/

import OsCompiler.LabPy.Descent

namespace OsCompiler.LabPy

open OsCompiler.Action

def invokeWithin : Nat → Procedure → Parser Unit
  | 0, _ => throw .recursionError
  | frames + 1, procedure =>
      traced procedure (@body (within frames) (invokeWithin frames) procedure)

/-- The run up to the end of `main_procedure` with so many frames. -/
def runWithin (frames : Nat) (dydList : List DydRow) : Except Raise Unit × State :=
  outcome (invokeWithin frames .mainProcedure) (initState dydList)

def leadingBreaks (rows : List DydRow) : Nat :=
  (rows.takeWhile fun row => row.code = eoln).length

def longestRun : List DydRow → Nat
  | [] => 0
  | row :: rows => max (leadingBreaks (row :: rows)) (longestRun rows)

/-! ### Actions that agree -/

/-- On this token list the right action does what the left one does, unless that runs out of
frames. -/
abbrev Agrees (dydList : List DydRow) {Result : Type} (left right : Parser Result) : Prop :=
  Extends (fun state => state.dydList = dydList) .recursionError left right

structure InspectionsAgree (dydList : List DydRow) (left right : Inspections) : Prop where
  currentCode : Agrees dydList left.currentCode right.currentCode
  currentWord : Agrees dydList left.currentWord right.currentWord
  advanced : Agrees dydList left.advanced right.advanced
  nowMoreOneFrom (temp : Nat) :
    Agrees dydList (left.nowMoreOneFrom temp) (right.nowMoreOneFrom temp)
  errPrint (errInfo : Message) : Agrees dydList (left.errPrint errInfo) (right.errPrint errInfo)
  identifier : Agrees dydList left.identifier right.identifier

section Agrees

variable {dydList : List DydRow} {left right : Inspections}

theorem agrees_change {update : Globals → Globals}
    (same : ∀ globals, (update globals).dydList = globals.dydList) :
    Agrees dydList (change update) (change update) :=
  extends_refl fun state tokens => (same state.toGlobals).trans tokens

private theorem agrees_log (event : Globals → Event) : Agrees dydList (log event) (log event) :=
  extends_refl fun _ tokens => tokens

theorem InspectionsAgree.var (inspections : InspectionsAgree dydList left right)
    (defineOrUse : DefineOrUse) (isFormal : Nat) :
    Agrees dydList (@LabPy.var left defineOrUse isFormal)
      (@LabPy.var right defineOrUse isFormal) := by
  refine extends_bind ?_ fun _ => agrees_change fun _ => rfl
  cases defineOrUse with
  | define =>
      exact extends_bind inspections.identifier fun word =>
        agrees_change fun globals => ((Bookkeeping.define word isFormal).tokens globals).1
  | use =>
      refine extends_bind inspections.identifier fun word => extends_bind extends_get fun state => ?_
      refine extends_ite (extends_pure _) ?_
      cases word with
      | some word => exact inspections.errPrint _
      | none => exact extends_throw _

/-- A body agrees with another one if the inspections and calls do. -/
theorem InspectionsAgree.body (inspections : InspectionsAgree dydList left right)
    {call call' : Procedure → Parser Unit}
    (calls : ∀ callee, Agrees dydList (call callee) (call' callee)) (procedure : Procedure) :
    Agrees dydList (@LabPy.body left call procedure) (@LabPy.body right call' procedure) := by
  have named : ∀ word, Agrees dydList (change (Globals.nameProcedure word))
      (change (Globals.nameProcedure word)) := fun word =>
    agrees_change fun globals => ((Bookkeeping.nameProcedure word).tokens globals).1
  cases procedure with
  | mainProcedure | parameter | constant => exact calls _
  | var defineOrUse isFormal => exact inspections.var defineOrUse isFormal
  | _ =>
      simp only [LabPy.body, errFileName, branchProcedure, declareStatementTable, declareStatementTableA,
        declareStatement, varDeclare, funcDeclare, declaredFunction, functionRest, funcBody,
        execStatementTable, execStatementTableA, execStatement, readStatement, writeStatement,
        assignStatement, mathExpression, mathExpressionA, item, itemA, factor, funcCall,
        unsignedInteger, conditionStatement, conditionExpression, relationOperator, nowMoreOne]
      repeat' with_reducible first
        | exact calls _
        | exact inspections.currentCode
        | exact inspections.advanced
        | exact inspections.nowMoreOneFrom 1
        | exact inspections.errPrint _
        | exact inspections.identifier
        | exact named _
        | exact extends_get
        | exact extends_pure _
        | refine extends_bind ?_ fun _ => ?_
        | refine extends_ite ?_ ?_
        | exact agrees_change fun _ => rfl
        | exact extends_throw _

end Agrees

/-! ### The functions with frames without end -/

section Unlimited

variable {dydList : List DydRow} {Column : Type} (column : DydRow → Column)

private theorem skipLines_of_break {globals : Globals} {row : DydRow}
    (here : globals.dydList[globals.pos]? = some row) (lineBreak : row.code = eoln) :
    globals.nextLine.skipLines = globals.skipLines := by
  have cut : globals.dydList.drop globals.pos = row :: globals.dydList.drop (globals.pos + 1) := by
    rcases List.getElem?_eq_some_iff.mp here with ⟨inside, rfl⟩
    exact List.drop_eq_getElem_cons inside
  simp only [Globals.skipLines, Globals.nextLine, cut, lineBreak, decide_true,
    List.takeWhile_cons_of_pos, List.length_cons]
  congr 1 <;> omega

private theorem skipLines_of_other {globals : Globals}
    (other : ∀ row, globals.dydList[globals.pos]? = some row → row.code ≠ eoln) :
    globals.skipLines = globals := by
  have none : (globals.dydList.drop globals.pos).takeWhile (fun row => row.code = eoln) = [] := by
    cases left : globals.dydList.drop globals.pos with
    | nil => rfl
    | cons row rows =>
        have here : (globals.dydList.drop globals.pos)[0]? = some row := by
          rw [left]
          rfl
        rw [List.getElem?_drop, Nat.add_zero] at here
        simp [other row here]
  simp [Globals.skipLines, none]

theorem outcome_skippingColumn_some {state : State} {row : DydRow}
    (here : state.dydList[state.skipLines.pos]? = some row) :
    outcome (skippingColumn column) state = (.ok (column row), state.skipped) := by
  have found : (state.update Globals.skipLines).dydList[(state.update Globals.skipLines).pos]? =
      some row := here
  simp only [skippingColumn, currentRow, outcome_bind, outcome_change, outcome_get, found,
    outcome_pure]
  rfl

theorem outcome_skippingColumn_none {state : State}
    (here : state.dydList[state.skipLines.pos]? = none) :
    outcome (skippingColumn column) state = (.error .indexError, state.skipped) := by
  have missing : (state.update Globals.skipLines).dydList[(state.update Globals.skipLines).pos]? =
      none := here
  simp only [skippingColumn, currentRow, outcome_bind, outcome_change, outcome_get, missing,
    outcome_throw]
  rfl

/-- On a line break the loop does what it does behind it. -/
theorem outcome_skippingColumn_break {state : State} {row : DydRow}
    (here : state.dydList[state.pos]? = some row) (lineBreak : row.code = eoln) :
    outcome (skippingColumn column) (state.update Globals.nextLine) =
      outcome (skippingColumn column) state := by
  have same : state.nextLine.skipLines = state.skipLines := skipLines_of_break here lineBreak
  have after : (state.update Globals.nextLine).skipped = state.skipped :=
    congrArg (fun globals => { state with toGlobals := globals }) same
  cases found : state.dydList[state.skipLines.pos]? with
  | none =>
      have again : state.nextLine.dydList[state.nextLine.skipLines.pos]? = none := by
        rw [same]
        exact found
      rw [outcome_skippingColumn_none column found, ← after]
      exact outcome_skippingColumn_none column again
  | some other =>
      have again : state.nextLine.dydList[state.nextLine.skipLines.pos]? = some other := by
        rw [same]
        exact found
      rw [outcome_skippingColumn_some column found, ← after]
      exact outcome_skippingColumn_some column again

/-- The loop over line breaks is what the recursion does. -/
theorem outcome_currentBody_skipping (state : State) :
    outcome (currentBody column (skippingColumn column)) state =
      outcome (skippingColumn column) state := by
  have stays : (∀ row, state.dydList[state.pos]? = some row → row.code ≠ eoln) →
      state.skipLines = state.toGlobals ∧ state.skipped = state := fun other =>
    ⟨skipLines_of_other other, congrArg (fun globals => { state with toGlobals := globals })
      (skipLines_of_other other)⟩
  cases here : state.dydList[state.pos]? with
  | none =>
      rcases stays (by simp [here]) with ⟨same, after⟩
      rw [outcome_skippingColumn_none column (by rw [same, here]), after]
      simp only [currentBody, outcome_bind, outcome_get, here, outcome_throw]
  | some row =>
      by_cases lineBreak : row.code = eoln
      · rw [← outcome_skippingColumn_break column here lineBreak]
        simp only [currentBody, outcome_bind, outcome_get, here, if_pos lineBreak, outcome_change]
      · rcases stays (by simp [here, lineBreak]) with ⟨same, after⟩
        rw [outcome_skippingColumn_some column (by rw [same, here]), after]
        simp only [currentBody, outcome_bind, outcome_get, here, if_neg lineBreak, outcome_pure]

/-- So is the loop of the look-ahead. -/
theorem outcome_nowMoreOneBody_skipping (temp : Nat) (state : State) :
    outcome (nowMoreOneBody skippingCodeFrom temp) state =
      outcome (skippingCodeFrom temp) state := by
  cases here : state.dydList[state.pos + temp]? with
  | none =>
      have left : state.dydList.drop (state.pos + temp) = [] :=
        List.drop_eq_nil_of_le (List.getElem?_eq_none_iff.mp here)
      simp only [nowMoreOneBody, skippingCodeFrom, outcome_bind, outcome_get, here, left,
        List.dropWhile_nil, outcome_throw]
  | some row =>
      have cut : state.dydList.drop (state.pos + temp) =
          row :: state.dydList.drop (state.pos + (temp + 1)) := by
        rcases List.getElem?_eq_some_iff.mp here with ⟨inside, rfl⟩
        exact List.drop_eq_getElem_cons inside
      by_cases lineBreak : row.code = eoln
      · simp only [nowMoreOneBody, skippingCodeFrom, outcome_bind, outcome_get, here, cut,
          lineBreak, if_true, decide_true, List.dropWhile_cons_of_pos]
      · simp only [nowMoreOneBody, skippingCodeFrom, outcome_bind, outcome_get, here, cut,
          lineBreak, if_false, decide_false, Bool.false_eq_true, not_false_eq_true,
          List.dropWhile_cons_of_neg]

end Unlimited

section Bodies

variable {dydList : List DydRow}

private theorem currentBody_agrees {Column : Type} (column : DydRow → Column)
    {again again' : Parser Column} (calls : Agrees dydList again again') :
    Agrees dydList (currentBody column again) (currentBody column again') := by
  refine extends_bind extends_get fun state => extends_bind extends_get fun state' => ?_
  cases state.dydList[state'.pos]? with
  | none => exact extends_throw _
  | some row =>
      exact extends_ite (extends_bind (agrees_change fun _ => rfl) fun _ => calls) (extends_pure _)

private theorem nowMoreOneBody_agrees {again again' : Nat → Parser Int}
    (calls : ∀ temp, Agrees dydList (again temp) (again' temp)) (temp : Nat) :
    Agrees dydList (nowMoreOneBody again temp) (nowMoreOneBody again' temp) := by
  refine extends_bind extends_get fun state => extends_bind extends_get fun state' => ?_
  cases state.dydList[state'.pos + temp]? with
  | none => exact extends_throw _
  | some row => exact extends_ite (calls (temp + 1)) (extends_pure _)

theorem advancedBody_agrees {currentCode currentCode' : Parser Int}
    (looks : Agrees dydList currentCode currentCode') :
    Agrees dydList (advancedBody currentCode) (advancedBody currentCode') :=
  extends_bind looks fun _ => agrees_change fun _ => rfl

theorem identifierBody_agrees {currentCode currentCode' : Parser Int}
    {currentWord currentWord' : Parser (List Char)} {advanced advanced' : Parser Unit}
    {errPrint errPrint' : Message → Parser Unit} (looks : Agrees dydList currentCode currentCode')
    (words : Agrees dydList currentWord currentWord')
    (moves : Agrees dydList advanced advanced')
    (reports : ∀ errInfo, Agrees dydList (errPrint errInfo) (errPrint' errInfo)) :
    Agrees dydList (identifierBody currentCode currentWord advanced errPrint)
      (identifierBody currentCode' currentWord' advanced' errPrint') := by
  refine extends_bind looks fun _ => extends_ite ?_ ?_
  · exact extends_bind words fun _ => extends_bind moves fun _ => extends_pure _
  · exact extends_bind (reports _) fun _ => extends_pure _

theorem print_agrees (errInfo : Message) :
    Agrees dydList (change (Globals.print errInfo)) (change (Globals.print errInfo)) :=
  agrees_change fun _ => rfl

/-- Where the frames suffice, the functions do what they do with frames without end. -/
theorem within_agrees (dydList : List DydRow) (frames : Nat) :
    InspectionsAgree dydList (within frames) unlimited := by
  induction frames with
  | zero =>
      exact ⟨extends_of_giving, extends_of_giving, extends_of_giving, fun _ => extends_of_giving,
        fun _ => extends_of_giving, extends_of_giving⟩
  | succ frames ih =>
      constructor
      · exact (currentBody_agrees _ ih.currentCode).congr (outcome_currentBody_skipping _)
      · exact (currentBody_agrees _ ih.currentWord).congr (outcome_currentBody_skipping _)
      · exact advancedBody_agrees ih.currentCode
      · exact fun temp => (nowMoreOneBody_agrees ih.nowMoreOneFrom temp).congr
          (outcome_nowMoreOneBody_skipping temp)
      · exact print_agrees
      · exact identifierBody_agrees ih.currentCode ih.currentWord ih.advanced ih.errPrint

end Bodies

/-! ### Frames enough for the line breaks -/

theorem leadingBreaks_drop_le (rows : List DydRow) (position : Nat) :
    leadingBreaks (rows.drop position) ≤ longestRun rows := by
  induction rows generalizing position with
  | nil => simp [leadingBreaks, longestRun]
  | cons row rows ih =>
      cases position with
      | zero => exact Nat.le_max_left _ _
      | succ position => exact (ih position).trans (Nat.le_max_right _ _)

theorem leadingBreaks_drop_of_break {rows : List DydRow} {position : Nat} {row : DydRow}
    (here : rows[position]? = some row) (lineBreak : row.code = eoln) :
    leadingBreaks (rows.drop position) = leadingBreaks (rows.drop (position + 1)) + 1 := by
  rcases List.getElem?_eq_some_iff.mp here with ⟨inside, rfl⟩
  rw [List.drop_eq_getElem_cons inside]
  simp only [leadingBreaks, lineBreak, decide_true, List.takeWhile_cons_of_pos, List.length_cons]

private theorem leadingBreaks_drop_of_other {rows : List DydRow} {position : Nat}
    (other : ∀ row, rows[position]? = some row → row.code ≠ eoln) :
    leadingBreaks (rows.drop position) = 0 := by
  cases left : rows.drop position with
  | nil => rfl
  | cons row rest =>
      have here : (rows.drop position)[0]? = some row := by
        rw [left]
        rfl
      rw [List.getElem?_drop, Nat.add_zero] at here
      simp [leadingBreaks, other row here]

section Recursion

variable {Column : Type} {column : DydRow → Column} (again : Nat → Parser Column)
variable (unfolds : ∀ frames, again (frames + 1) = currentBody column (again frames))

include unfolds

/-- With a frame for each line break and one more, `current_code` reaches the token. -/
theorem outcome_again {frames : Nat} {state : State}
    (enough : leadingBreaks (state.dydList.drop state.pos) < frames) :
    outcome (again frames) state = outcome (skippingColumn column) state := by
  induction frames generalizing state with
  | zero => exact absurd enough (Nat.not_lt_zero _)
  | succ frames ih =>
      rw [unfolds, ← outcome_currentBody_skipping]
      simp only [currentBody, outcome_bind, outcome_get]
      cases here : state.dydList[state.pos]? with
      | none => rfl
      | some row =>
          by_cases lineBreak : row.code = eoln
          · simp only [if_pos lineBreak, outcome_bind, outcome_change]
            rw [leadingBreaks_drop_of_break here lineBreak] at enough
            exact ih (Nat.lt_of_succ_lt_succ enough)
          · simp only [if_neg lineBreak]

/-- With no more frames than line breaks it does not. -/
theorem outcome_again_short (none : again 0 = throw .recursionError) {frames : Nat}
    {state : State} (short : frames ≤ leadingBreaks (state.dydList.drop state.pos)) :
    (outcome (again frames) state).1 = .error .recursionError := by
  induction frames generalizing state with
  | zero => rw [none, outcome_throw]
  | succ frames ih =>
      have lineBreak : ∃ row, state.dydList[state.pos]? = some row ∧ row.code = eoln := by
        by_contra others
        have nothing := leadingBreaks_drop_of_other fun row here same => others ⟨row, here, same⟩
        omega
      rcases lineBreak with ⟨row, here, lineBreak⟩
      rw [leadingBreaks_drop_of_break here lineBreak] at short
      rw [unfolds]
      simp only [currentBody, outcome_bind, outcome_get, here, if_pos lineBreak, outcome_change]
      exact ih (Nat.le_of_succ_le_succ short)

end Recursion

private theorem outcome_nowMoreOneFrom {frames temp : Nat} {state : State}
    (enough : leadingBreaks (state.dydList.drop (state.pos + temp)) < frames) :
    outcome ((within frames).nowMoreOneFrom temp) state =
      outcome (skippingCodeFrom temp) state := by
  induction frames generalizing temp with
  | zero => exact absurd enough (Nat.not_lt_zero _)
  | succ frames ih =>
      change outcome (nowMoreOneBody (within frames).nowMoreOneFrom temp) state = _
      rw [← outcome_nowMoreOneBody_skipping]
      simp only [nowMoreOneBody, outcome_bind, outcome_get]
      cases here : state.dydList[state.pos + temp]? with
      | none => rfl
      | some row =>
          by_cases lineBreak : row.code = eoln
          · simp only [if_pos lineBreak]
            rw [leadingBreaks_drop_of_break here lineBreak] at enough
            exact ih (Nat.lt_of_succ_lt_succ enough)
          · simp only [if_neg lineBreak]

private theorem skippingColumn_keeps {Column : Type} (column : DydRow → Column) (state : State) :
    (outcome (skippingColumn column) state).2.dydList = state.dydList := by
  cases found : state.dydList[state.skipLines.pos]? with
  | none => rw [outcome_skippingColumn_none column found]; rfl
  | some row => rw [outcome_skippingColumn_some column found]; rfl

private theorem skippingCodeFrom_keeps (temp : Nat) (state : State) :
    (outcome (skippingCodeFrom temp) state).2 = state := by
  simp only [skippingCodeFrom, outcome_bind, outcome_get]
  cases (state.dydList.drop (state.pos + temp)).dropWhile fun row => row.code = eoln with
  | nil => rfl
  | cons row rest => rfl

/-- With frames for the longest run of line breaks and the functions inside `identifier`, the
functions do what they do with frames without end. -/
theorem unlimited_agrees {dydList : List DydRow} {frames : Nat}
    (enough : longestRun dydList + 3 ≤ frames) :
    InspectionsAgree dydList unlimited (within frames) := by
  have looks : ∀ {Column : Type} {column : DydRow → Column} {again : Nat → Parser Column},
      (∀ frames, again (frames + 1) = currentBody column (again frames)) →
      ∀ frames, longestRun dydList < frames →
        Agrees dydList (skippingColumn column) (again frames) := by
    intro Column column again unfolds frames enough state tokens goes
    have short := leadingBreaks_drop_le state.dydList state.pos
    rw [tokens] at short
    refine ⟨outcome_again again unfolds ?_, (skippingColumn_keeps column state).trans tokens⟩
    rw [tokens]
    omega
  have code : ∀ frames, longestRun dydList < frames →
      Agrees dydList (skippingColumn DydRow.code) (within frames).currentCode :=
    looks fun _ => rfl
  have word : ∀ frames, longestRun dydList < frames →
      Agrees dydList (skippingColumn DydRow.word) (within frames).currentWord :=
    looks fun _ => rfl
  obtain ⟨frames, rfl⟩ : ∃ fewer, frames = fewer + 2 := ⟨frames - 2, by omega⟩
  constructor
  · exact code _ (by omega)
  · exact word _ (by omega)
  · exact advancedBody_agrees (code _ (by omega))
  · intro temp state tokens goes
    have short := leadingBreaks_drop_le state.dydList (state.pos + temp)
    refine ⟨outcome_nowMoreOneFrom ?_, ?_⟩
    · rw [tokens] at short ⊢
      omega
    · exact (congrArg (fun after : State => after.dydList)
        (skippingCodeFrom_keeps temp state)).trans tokens
  · exact print_agrees
  · obtain ⟨fewer, rfl⟩ : ∃ fewer, frames = fewer + 1 := ⟨frames - 1, by omega⟩
    exact identifierBody_agrees (code _ (by omega)) (word _ (by omega))
      (advancedBody_agrees (code _ (by omega))) print_agrees

/-! ### The runs -/

section Runs

variable {dydList : List DydRow}

theorem traced_agrees (procedure : Procedure) {callee callee' : Parser Unit}
    (calls : Agrees dydList callee callee') :
    Agrees dydList (traced procedure callee) (traced procedure callee') :=
  extends_bind (agrees_log _) fun _ => extends_bind calls fun _ => agrees_log _

private theorem inspectionsAgree_refl (dydList : List DydRow) :
    InspectionsAgree dydList unlimited unlimited := by
  have looks : ∀ {Column : Type} (column : DydRow → Column),
      Agrees dydList (skippingColumn column) (skippingColumn column) := fun column =>
    extends_refl fun state tokens => (skippingColumn_keeps column state).trans tokens
  constructor
  · exact looks _
  · exact looks _
  · exact advancedBody_agrees (looks _)
  · exact fun temp => extends_refl fun state tokens =>
      (congrArg (fun after : State => after.dydList) (skippingCodeFrom_keeps temp state)).trans tokens
  · exact print_agrees
  · exact identifierBody_agrees (looks _) (looks _) (advancedBody_agrees (looks _)) print_agrees

/-- Where the calls do not go too deep, further ones change nothing. -/
theorem invoke_agrees (dydList : List DydRow) (depth : Nat) (procedure : Procedure) :
    Agrees dydList (invoke depth procedure) (invoke (depth + 1) procedure) := by
  induction depth generalizing procedure with
  | zero => exact extends_of_giving
  | succ depth ih =>
      exact traced_agrees procedure ((inspectionsAgree_refl dydList).body ih procedure)

private theorem outcome_invoke_deeper {depth deeper : Nat} (le : depth ≤ deeper)
    {procedure : Procedure}
    {state : State} (goes : (outcome (invoke depth procedure) state).1 ≠ .error .recursionError) :
    outcome (invoke deeper procedure) state = outcome (invoke depth procedure) state := by
  induction deeper, le using Nat.le_induction with
  | base => rfl
  | succ deeper _ ih =>
      rw [← ih] at goes ⊢
      exact (invoke_agrees state.dydList deeper procedure state rfl goes).1

/-- Deeper calls are never made. -/
theorem run_deeper (dydList : List DydRow) {depth : Nat} (deep : callDepth dydList ≤ depth) :
    outcome (invoke depth .mainProcedure) (initState dydList) = run dydList :=
  outcome_invoke_deeper deep (run_ne_recursionError dydList)

private theorem invokeWithin_agrees (dydList : List DydRow) (frames : Nat) (procedure : Procedure) :
    Agrees dydList (invokeWithin frames procedure) (invoke frames procedure) := by
  induction frames generalizing procedure with
  | zero => exact extends_of_giving
  | succ frames ih =>
      exact traced_agrees procedure ((within_agrees dydList frames).body ih procedure)

/-- A run that does not end for want of frames is the run with frames without end. -/
theorem runWithin_eq_run {frames : Nat}
    (goes : (runWithin frames dydList).1 ≠ .error .recursionError) :
    runWithin frames dydList = run dydList := by
  have same := (invokeWithin_agrees dydList frames .mainProcedure (initState dydList) rfl goes).1
  have reached : (outcome (invoke frames .mainProcedure) (initState dydList)).1 ≠
      .error .recursionError := same ▸ goes
  have deeper := outcome_invoke_deeper (Nat.le_add_right frames (callDepth dydList)) reached
  rw [run_deeper dydList (Nat.le_add_left _ _)] at deeper
  exact (deeper.trans same).symm

private theorem invoke_agrees_within {room : Nat} (enough : longestRun dydList + 3 ≤ room)
    (depth : Nat)
    (procedure : Procedure) :
    Agrees dydList (invoke depth procedure) (invokeWithin (depth + room) procedure) := by
  induction depth generalizing procedure with
  | zero => exact extends_of_giving
  | succ depth ih =>
      rw [Nat.add_right_comm]
      refine traced_agrees procedure (InspectionsAgree.body (unlimited_agrees ?_) ih procedure)
      omega

/-- With frames for the calls, for the longest run of line breaks and for the functions inside
`identifier` no run ends for want of frames. -/
theorem runWithin_enough {frames : Nat}
    (enough : callDepth dydList + longestRun dydList + 3 ≤ frames) :
    runWithin frames dydList = run dydList := by
  obtain ⟨room, rfl⟩ := Nat.exists_eq_add_of_le (by omega : callDepth dydList ≤ frames)
  have agrees : Agrees dydList (invoke (callDepth dydList) .mainProcedure)
      (invokeWithin (callDepth dydList + room) .mainProcedure) :=
    invoke_agrees_within (by omega) _ _
  exact (agrees (initState dydList) rfl (run_ne_recursionError dydList)).1

/-- A list that begins with as many line breaks as there are frames behind `branch_procedure`. -/
theorem runWithin_short {frames : Nat} (short : frames ≤ leadingBreaks dydList) :
    (runWithin (frames + 2) dydList).1 = .error .recursionError := by
  let state := ((initState dydList).logged (.entered .mainProcedure)).logged
    (.entered .branchProcedure)
  have unfolds : ∀ frames, (within (frames + 1)).currentCode =
      currentBody DydRow.code (within frames).currentCode := fun _ => rfl
  have looks : (outcome (within frames).currentCode state).1 = .error .recursionError :=
    outcome_again_short (fun frames => (within frames).currentCode) unfolds rfl short
  rcases ended : outcome (within frames).currentCode state with ⟨raise | code, after⟩
  · rw [ended] at looks
    simp only [runWithin, invokeWithin, traced, body, mainProcedure, branchProcedure,
      outcome_bind, outcome_log]
    rw [ended]
    cases looks
    rfl
  · rw [ended] at looks
    cases looks

end Runs

end OsCompiler.LabPy
