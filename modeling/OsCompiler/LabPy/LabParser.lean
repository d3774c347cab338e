/-
The parse procedures of `lab_parser.py`.

The procedures call one another without end in sight, so each is written over a
parameter `call` and `invoke` closes the recursion down to a depth. `Built` says
what the bodies are built of: it is what every property of all procedures is
proved along. The first of them is that `callDepth` calls deep is deep enough.
-/

import OsCompiler.LabPy.ParserState

namespace OsCompiler.LabPy

open OsCompiler.TextLines OsCompiler.Action

section Procedures

variable [Inspections] (call : Procedure → Parser Unit)

def mainProcedure : Parser Unit :=
  call .branchProcedure

def branchProcedure : Parser Unit := do
  if (← currentCode) = beginCode then
    advanced
    call .declareStatementTable
    if (← currentCode) = semicolonCode then
      advanced
      call .execStatementTable
      if (← currentCode) = endCode then
        advanced
      else
        errPrint .branchEnd
    else
      errPrint .branchSemicolon
  else
    errPrint .branchBegin

def declareStatementTable : Parser Unit := do
  call .declareStatement
  call .declareStatementTableA

def declareStatementTableA : Parser Unit := do
  if (← currentCode) = 23 then
    if (← nowMoreOne) = integerCode then
      advanced
      call .declareStatement
      call .declareStatementTableA
    else
      pure ()
  else
    pure ()

def declareStatement : Parser Unit := do
  if (← currentCode) = integerCode then
    if (← nowMoreOne) = 7 then
      call .funcDeclare
    else
      call .varDeclare
  else
    errPrint .statementInteger

def varDeclare : Parser Unit := do
  if (← currentCode) = 3 then
    advanced
    call (.var .define 0)
  else
    errPrint .variableInteger

def varDefine (isFormal : Nat) : Parser Unit := do
  let word ← identifier
  change (Globals.define word isFormal)

/-- The second branch of `var`; a missing name cannot be joined to the text of the message. -/
def varUse : Parser Unit := do
  let word ← identifier
  if (← get).Knows word then
    pure ()
  else
    match word with
    | some word => errPrint (.undefinedSymbol word)
    | none => throw .typeError

def var (defineOrUse : DefineOrUse) (isFormal : Nat) : Parser Unit := do
  (match defineOrUse with
    | .define => varDefine isFormal
    | .use => varUse)
  change Globals.touchLines

def functionRest : Parser Unit := do
  if (← currentCode) = leftBraketCode then
    advanced
    call .parameter
    if (← currentCode) = rightBraketCode then
      advanced
      if (← currentCode) = semicolonCode then
        advanced
        call .funcBody
      else
        errPrint .functionSemicolon
    else
      errPrint .functionRight
  else
    errPrint .functionLeft

def declaredFunction : Parser Unit := do
  if (← currentCode) = integerCode then
    advanced
    if (← currentCode) = functionCode then
      advanced
      let name ← identifier
      change (Globals.nameProcedure name)
      functionRest call
    else
      errPrint .functionFunction
  else
    errPrint .functionInteger

def funcDeclare : Parser Unit := do
  change fun globals => { globals with procedureLevel := globals.procedureLevel + 1 }
  let lastProcedure := (← get).nowProcedure
  declaredFunction call
  change fun globals => { globals with nowProcedure := lastProcedure }
  change fun globals => { globals with procedureLevel := globals.procedureLevel - 1 }

def parameter : Parser Unit :=
  call (.var .define 1)

def funcBody : Parser Unit := do
  if (← currentCode) = beginCode then
    advanced
    call .declareStatementTable
    if (← currentCode) = semicolonCode then
      advanced
      call .execStatementTable
      if (← currentCode) = endCode then
        advanced
      else
        errPrint .bodyEnd
    else
      errPrint .bodySemicolon
  else
    errPrint .bodyBegin

def execStatementTable : Parser Unit := do
  call .execStatement
  call .execStatementTableA

def execStatementTableA : Parser Unit := do
  if (← currentCode) = semicolonCode then
    if (← nowMoreOne) ∈ [readCode, writeCode, ifCode, identifierCode] then
      advanced
      call .execStatement
      call .execStatementTableA
    else
      pure ()
  else
    pure ()

def execStatement : Parser Unit := do
  let execState ← currentCode
  if execState = readCode then
    call .readStatement
  else if execState = writeCode then
    call .writeStatement
  else if execState = ifCode then
    call .conditionStatement
  else if execState = identifierCode then
    call .assignStatement
  else
    errPrint .execStatement

def readStatement : Parser Unit := do
  if (← currentCode) = 8 then
    advanced
    if (← currentCode) = 21 then
      advanced
      call (.var .use 0)
      if (← currentCode) = 22 then
        advanced
      else
        errPrint .read
    else
      errPrint .read
  else
    errPrint .read

def writeStatement : Parser Unit := do
  if (← currentCode) = 9 then
    advanced
    if (← currentCode) = 21 then
      advanced
      call (.var .use 0)
      if (← currentCode) = 22 then
        advanced
        if (← currentCode) = semicolonCode then
          advanced
        else
          errFileName .writeSemicolon
      else
        errPrint .write
    else
      errPrint .write
  else
    errPrint .write

def assignStatement : Parser Unit := do
  call (.var .use 0)
  if (← currentCode) = 20 then
    advanced
    call .mathExpression
  else
    errPrint .assign

def mathExpression : Parser Unit := do
  call .item
  call .mathExpressionA

def mathExpressionA : Parser Unit := do
  if (← currentCode) = 18 then
    advanced
    call .item
    call .mathExpressionA
  else
    pure ()

def item : Parser Unit := do
  call .factor
  call .itemA

def itemA : Parser Unit := do
  if (← currentCode) = 19 then
    advanced
    call .factor
    call .itemA
  else
    pure ()

def factor : Parser Unit := do
  if (← currentCode) = 11 then
    call .constant
  else if (← nowMoreOne) = 21 then
    call .funcCall
  else
    call (.var .use 0)

def funcCall : Parser Unit := do
  let _ ← identifier
  if (← currentCode) = 21 then
    advanced
    call .mathExpression
    if (← currentCode) = 22 then
      advanced
    else
      errPrint .call
  else
    errPrint .call

def constant : Parser Unit :=
  call .unsignedInteger

def unsignedInteger : Parser Unit := do
  if (← currentCode) = 11 then
    advanced
  else
    errPrint .constant

def conditionStatement : Parser Unit := do
  if (← currentCode) = 4 then
    advanced
    call .conditionExpression
    if (← currentCode) = 5 then
      advanced
      call .execStatement
      if (← currentCode) = 6 then
        advanced
        call .execStatement
      else
        errPrint .condition
    else
      errPrint .condition
  else
    errPrint .condition

def conditionExpression : Parser Unit := do
  call .mathExpression
  call .relationOperator
  call .mathExpression

def relationOperator : Parser Unit := do
  if (← currentCode) ∈ [15, 14, 17, 16, 12, 13] then
    advanced
  else
    errPrint .relation

def body : Procedure → Parser Unit
  | .mainProcedure => mainProcedure call
  | .branchProcedure => branchProcedure call
  | .declareStatementTable => declareStatementTable call
  | .declareStatementTableA => declareStatementTableA call
  | .declareStatement => declareStatement call
  | .varDeclare => varDeclare call
  | .var defineOrUse isFormal => var defineOrUse isFormal
  | .funcDeclare => funcDeclare call
  | .parameter => parameter call
  | .funcBody => funcBody call
  | .execStatementTable => execStatementTable call
  | .execStatementTableA => execStatementTableA call
  | .execStatement => execStatement call
  | .readStatement => readStatement call
  | .writeStatement => writeStatement call
  | .assignStatement => assignStatement call
  | .mathExpression => mathExpression call
  | .mathExpressionA => mathExpressionA call
  | .item => item call
  | .itemA => itemA call
  | .factor => factor call
  | .funcCall => funcCall call
  | .constant => constant call
  | .unsignedInteger => unsignedInteger
  | .conditionStatement => conditionStatement call
  | .conditionExpression => conditionExpression call
  | .relationOperator => relationOperator

end Procedures

/-- A call with the trace it leaves; a call that raises does not return. -/
def traced (procedure : Procedure) (callee : Parser Unit) : Parser Unit := do
  log (.entered procedure)
  callee
  log (.returned procedure)

/-- The call of a procedure, with so many calls inside one another at most. -/
def invoke : Nat → Procedure → Parser Unit
  | 0, _ => throw .recursionError
  | depth + 1, procedure => traced procedure (body (invoke depth) procedure)

/-- Six calls without consuming a token are the most there are. -/
def callDepth (dydList : List DydRow) : Nat := 6 * (strip dydList).length + 2

def tokensOf (text : String) : List DydRow :=
  (lexMain text.toList).printed.map fun row => ⟨row.1, row.2, []⟩

/-- The run of the program up to the end of `main_procedure`. -/
def run (dydList : List DydRow) : Except Raise Unit × State :=
  outcome (invoke (callDepth dydList) .mainProcedure) (initState dydList)

theorem wp_invoke_succ {depth : Nat} {procedure : Procedure} {returns : Unit → State → Prop}
    {raises : Raise → State → Prop} {state : State} :
    wp (invoke (depth + 1) procedure) returns raises state ↔
      wp (body (invoke depth) procedure)
        (fun _ after => returns () (after.logged (.returned procedure))) raises
        (state.logged (.entered procedure)) := by
  rw [invoke, traced, wp_bind, wp_of_outcome (outcome_log _ _), wp_bind]
  rfl

/-! ### What `var` does -/

section VarOutcome

variable {state : State} {token : List Char × Int} {rest : List (List Char × Int)}
variable (isFormal : Nat)

theorem outcome_var_define_name (ahead : state.ahead = token :: rest)
    (name : token.2 = identifierCode) :
    outcome (var .define isFormal) state =
      (.ok (), (state.moved.update (Globals.define (some token.1) isFormal)).update
        Globals.touchLines) := by
  have found := outcome_identifier ahead
  rw [if_pos name] at found
  simp only [var, varDefine, outcome_bind, found, outcome_change]

theorem outcome_var_define_other (ahead : state.ahead = token :: rest)
    (other : token.2 ≠ identifierCode) :
    outcome (var .define isFormal) state =
      (.ok (), ((state.skipped.update (Globals.print .identifier)).update
        (Globals.define none isFormal)).update Globals.touchLines) := by
  have found := outcome_identifier ahead
  rw [if_neg other] at found
  simp only [var, varDefine, outcome_bind, found, outcome_change]

theorem outcome_var_use_name (ahead : state.ahead = token :: rest)
    (name : token.2 = identifierCode) :
    outcome (var .use isFormal) state =
      (.ok (), State.update Globals.touchLines
        (if state.Knows (some token.1) then state.moved
          else state.moved.update (Globals.print (.undefinedSymbol token.1)))) := by
  have found := outcome_identifier ahead
  rw [if_pos name] at found
  have same : state.moved.Knows (some token.1) ↔ state.Knows (some token.1) := Iff.rfl
  simp only [var, varUse, outcome_bind, found, outcome_get]
  by_cases known : state.Knows (some token.1)
  · rw [if_pos known, if_pos (same.mpr known)]
    rfl
  · rw [if_neg known, if_neg fun moved => known (same.mp moved)]
    rfl

theorem outcome_var_use_other (ahead : state.ahead = token :: rest)
    (other : token.2 ≠ identifierCode) :
    outcome (var .use isFormal) state =
      if state.Knows none then
        (.ok (), (state.skipped.update (Globals.print .identifier)).update Globals.touchLines)
      else (.error .typeError, state.skipped.update (Globals.print .identifier)) := by
  have found := outcome_identifier ahead
  rw [if_neg other] at found
  have same : (state.skipped.update (Globals.print .identifier)).Knows none ↔ state.Knows none :=
    Iff.rfl
  simp only [var, varUse, outcome_bind, found, outcome_get]
  by_cases known : state.Knows none
  · rw [if_pos known, if_pos (same.mpr known)]
    rfl
  · rw [if_neg known, if_neg fun printed => known (same.mp printed)]
    rfl

end VarOutcome

/-! ### What the bodies are built of -/

/-- Where a part of a body stands: what `current_code` has just returned, if nothing came after
it, and whether no token has been consumed since the call. -/
structure Context where
  standing : Option Int
  fresh : Bool

/-- How many calls deep a procedure can go before a token is consumed. -/
def Procedure.rank : Procedure → Nat
  | .conditionExpression => 5
  | .mathExpression => 4
  | .item | .execStatementTable => 3
  | .factor | .execStatement | .declareStatementTable => 2
  | .mainProcedure | .declareStatement | .parameter | .assignStatement | .constant => 1
  | _ => 0

/-- The parts that the body of a procedure consists of. -/
inductive Built (call : Procedure → Parser Unit) (procedure : Procedure) :
    Context → Parser Unit → Prop
  | done {context : Context} : Built call procedure context (pure ())
  | look {context : Context} {rest : Int → Parser Unit}
      (next : ∀ code, Built call procedure ⟨some code, context.fresh⟩ (rest code)) :
      Built call procedure context (currentCode >>= rest)
  | lookAhead {code : Int} {fresh : Bool} {rest : Int → Parser Unit}
      (notLast : code ≠ eof ∨ procedure = .factor)
      (next : ∀ ahead, Built call procedure ⟨some code, fresh⟩ (rest ahead)) :
      Built call procedure ⟨some code, fresh⟩ (nowMoreOne >>= rest)
  | advance {code : Int} {fresh : Bool} {rest : Parser Unit} (notLast : code ≠ eof)
      (next : Built call procedure ⟨none, false⟩ rest) :
      Built call procedure ⟨some code, fresh⟩ (advanced >>= fun _ => rest)
  | report {context : Context} (errInfo : Message) (defined : errInfo.isUndefined = false) :
      Built call procedure context (errPrint errInfo)
  | stop {context : Context} (errInfo : Message) (write : procedure = .writeStatement) :
      Built call procedure context (errFileName errInfo)
  | call {context : Context} (callee : Procedure)
      (bounded : context.fresh = false ∨ callee.rank < procedure.rank) :
      Built call procedure context (call callee)
  | seq {context : Context} {first second : Parser Unit}
      (before : Built call procedure context first)
      (after : Built call procedure ⟨none, context.fresh⟩ second) :
      Built call procedure context (first >>= fun _ => second)
  | identify {context : Context} {rest : Parser Unit} (called : procedure = .funcCall)
      (next : Built call procedure ⟨none, context.fresh⟩ rest) :
      Built call procedure context (identifier >>= fun _ => rest)
  | var {context : Context} (defineOrUse : DefineOrUse) (isFormal : Nat)
      (same : procedure = .var defineOrUse isFormal) :
      Built call procedure context (var defineOrUse isFormal)
  | name {context : Context} {rest : Parser Unit} (declared : procedure = .funcDeclare)
      (next : Built call procedure ⟨none, context.fresh⟩ rest) :
      Built call procedure context
        (identifier >>= fun name => change (Globals.nameProcedure name) >>= fun _ => rest)
  | within {context : Context} (declared : procedure = .funcDeclare)
      (inner : Built call procedure ⟨none, context.fresh⟩ (declaredFunction call)) :
      Built call procedure context (funcDeclare call)

section BuiltBodies

variable {call : Procedure → Parser Unit} {procedure : Procedure} {context : Context}

theorem Built.ite {condition : Prop} [Decidable condition] {yes no : Parser Unit}
    (onTrue : condition → Built call procedure context yes)
    (onFalse : ¬condition → Built call procedure context no) :
    Built call procedure context (if condition then yes else no) := by
  split
  · exact onTrue ‹_›
  · exact onFalse ‹_›

theorem Built.advanceLast {code : Int} {fresh : Bool} (notLast : code ≠ eof) :
    Built call procedure ⟨some code, fresh⟩ advanced := by
  have step : Built call procedure ⟨some code, fresh⟩ (advanced >>= fun _ => pure ()) :=
    .advance notLast .done
  simpa using step

/-- A test of the current code, the step over it and an error message otherwise. -/
theorem Built.expect {expected : Int} (notLast : expected ≠ eof) {rest : Parser Unit}
    {errInfo : Message} (defined : errInfo.isUndefined = false)
    (next : Built call procedure ⟨none, false⟩ rest) :
    Built call procedure context
      (currentCode >>= fun code =>
        if code = expected then advanced >>= fun _ => rest else errPrint errInfo) :=
  .look fun _ => .ite (fun found => .advance (found.trans_ne notLast) next)
    fun _ => .report errInfo defined

theorem Built.expectLast {expected : Int} (notLast : expected ≠ eof) {errInfo : Message}
    (defined : errInfo.isUndefined = false) :
    Built call procedure context
      (currentCode >>= fun code => if code = expected then advanced else errPrint errInfo) :=
  .look fun _ => .ite (fun found => .advanceLast (found.trans_ne notLast))
    fun _ => .report errInfo defined

private theorem block_built {endInfo semicolonInfo beginInfo : Message}
    (definedEnd : endInfo.isUndefined = false)
    (definedSemicolon : semicolonInfo.isUndefined = false)
    (definedBegin : beginInfo.isUndefined = false) :
    Built call procedure context (do
      if (← currentCode) = beginCode then
        advanced
        call .declareStatementTable
        if (← currentCode) = semicolonCode then
          advanced
          call .execStatementTable
          if (← currentCode) = endCode then
            advanced
          else
            errPrint endInfo
        else
          errPrint semicolonInfo
      else
        errPrint beginInfo) :=
  .expect (by decide) definedBegin <| .seq (.call _ (.inl rfl)) <|
    .expect (by decide) definedSemicolon <| .seq (.call _ (.inl rfl)) <|
    .expectLast (by decide) definedEnd

/-- The part of `func_declare` behind the name calls nothing before it has read `(`. -/
theorem functionRest_built :
    Built call procedure context (functionRest call) :=
  .expect (by decide) rfl <| .seq (.call _ (.inl rfl)) <| .expect (by decide) rfl <|
    .expect (by decide) rfl (.call _ (.inl rfl))

theorem body_built (call : Procedure → Parser Unit) (procedure : Procedure) :
    Built call procedure ⟨none, true⟩ (body call procedure) := by
  have lower : ∀ {callee : Procedure} {context : Context}, callee.rank < procedure.rank →
      Built call procedure context (call callee) := fun bounded => .call _ (.inr bounded)
  have later : ∀ {callee : Procedure} {standing : Option Int},
      Built call procedure ⟨standing, false⟩ (call callee) := .call _ (.inl rfl)
  cases procedure with
  | mainProcedure | parameter | constant => exact lower (by decide)
  | branchProcedure => exact block_built rfl rfl rfl
  | funcBody => exact block_built rfl rfl rfl
  | declareStatementTable | execStatementTable | mathExpression | item =>
      exact .seq (lower (by decide)) (lower (by decide))
  | declareStatementTableA =>
      refine .look fun code => .ite (fun semicolon => ?_) fun _ => .done
      refine .lookAhead (.inl (semicolon.trans_ne (by decide))) fun ahead => .ite (fun _ => ?_) fun _ => .done
      exact .advance (semicolon.trans_ne (by decide)) (.seq later later)
  | declareStatement =>
      refine .look fun code => .ite (fun integer => ?_) fun _ => .report _ rfl
      refine .lookAhead (.inl (integer.trans_ne (by decide))) fun ahead => ?_
      exact .ite (fun _ => lower (by decide)) fun _ => lower (by decide)
  | varDeclare => exact .expect (by decide) rfl later
  | var defineOrUse isFormal => exact .var defineOrUse isFormal rfl
  | funcDeclare =>
      exact .within rfl <| .expect (by decide) rfl <| .expect (by decide) rfl <|
        .name rfl functionRest_built
  | execStatementTableA =>
      refine .look fun code => .ite (fun semicolon => ?_) fun _ => .done
      refine .lookAhead (.inl (semicolon.trans_ne (by decide))) fun ahead => .ite (fun _ => ?_) fun _ => .done
      exact .advance (semicolon.trans_ne (by decide)) (.seq later later)
  | execStatement =>
      exact .look fun code => .ite (fun _ => lower (by decide)) fun _ =>
        .ite (fun _ => lower (by decide)) fun _ =>
        .ite (fun _ => lower (by decide)) fun _ =>
        .ite (fun _ => lower (by decide)) fun _ => .report _ rfl
  | readStatement =>
      exact .expect (by decide) rfl <| .expect (by decide) rfl <| .seq later <| .expectLast (by decide) rfl
  | writeStatement =>
      refine .expect (by decide) rfl <| .expect (by decide) rfl <| .seq later <| .expect (by decide) rfl ?_
      exact .look fun code => .ite (fun semicolon => .advanceLast (semicolon.trans_ne (by decide)))
        fun _ => .stop _ rfl
  | assignStatement => exact .seq (lower (by decide)) (.expect (by decide) rfl later)
  | mathExpressionA | itemA =>
      refine .look fun code => .ite (fun operator => ?_) fun _ => .done
      exact .advance (operator.trans_ne (by decide)) (.seq later later)
  | factor =>
      refine .look fun code => .ite (fun _ => lower (by decide)) fun _ => ?_
      refine .lookAhead (.inr rfl) fun ahead => ?_
      exact .ite (fun _ => lower (by decide)) fun _ => lower (by decide)
  | funcCall =>
      exact .identify rfl <| .expect (by decide) rfl <| .seq later <| .expectLast (by decide) rfl
  | unsignedInteger => exact .expectLast (by decide) rfl
  | conditionStatement =>
      exact .expect (by decide) rfl <| .seq later <| .expect (by decide) rfl <| .seq later <|
        .expect (by decide) rfl later
  | conditionExpression =>
      exact .seq (lower (by decide)) <| .seq (lower (by decide)) (lower (by decide))
  | relationOperator =>
      refine .look fun code => .ite (fun operator => .advanceLast ?_) fun _ => .report _ rfl
      rintro rfl
      exact absurd operator (by decide)

end BuiltBodies

end OsCompiler.LabPy
