/-
The globals of `lab_parser.py`, its messages and the functions by which the parse
procedures inspect the tokens and change the globals.

The procedures see the tokens through `ahead`, the tokens from the current position
on without the line breaks: each lemma about an inspection says what it does there.
-/

import OsCompiler.Lib.Action
import OsCompiler.LabPy.DydFormat

namespace OsCompiler.LabPy

open OsCompiler.TextLines OsCompiler.Action

abbrev beginCode : Int := 1
abbrev endCode : Int := 2
abbrev integerCode : Int := 3
abbrev ifCode : Int := 4
abbrev thenCode : Int := 5
abbrev elseCode : Int := 6
abbrev functionCode : Int := 7
abbrev readCode : Int := 8
abbrev writeCode : Int := 9
abbrev identifierCode : Int := 10
abbrev constantCode : Int := 11
abbrev leftBraketCode : Int := 21
abbrev rightBraketCode : Int := 22
abbrev semicolonCode : Int := 23
abbrev eoln : Int := 24
abbrev eof : Int := 25

/-- The arguments of `err_print`, and the one that a `write` without `;` passes to a string. -/
inductive Message
  | branchEnd
  | branchSemicolon
  | branchBegin
  | statementInteger
  | variableInteger
  | undefinedSymbol (word : List Char)
  | identifier
  | functionSemicolon
  | functionRight
  | functionLeft
  | functionFunction
  | functionInteger
  | bodyEnd
  | bodySemicolon
  | bodyBegin
  | execStatement
  | read
  | write
  | writeSemicolon
  | assign
  | call
  | constant
  | condition
  | relation
  | notFinished
  deriving DecidableEq

def Message.text : Message → List Char
  | .branchEnd => "分程序错误，是否缺少 end".toList
  | .branchSemicolon => "分程序错误，是否缺少 ;".toList
  | .branchBegin => "分程序错误，是否缺少 begin".toList
  | .statementInteger => "说明语句出错,是否缺少integer".toList
  | .variableInteger => "变量说明出错，是否缺少integer".toList
  | .undefinedSymbol word => "符号".toList ++ word ++ "无定义".toList
  | .identifier => "标识符出错".toList
  | .functionSemicolon => "函数说明出错，缺少;".toList
  | .functionRight => "函数说明出错，缺少)".toList
  | .functionLeft => "函数说明出错，缺少(".toList
  | .functionFunction => "函数说明出错，缺少function".toList
  | .functionInteger => "函数说明出错，缺少integer".toList
  | .bodyEnd => "函数体出错，缺少end".toList
  | .bodySemicolon => "函数体出错，缺少;".toList
  | .bodyBegin => "函数体错误，缺少begin".toList
  | .execStatement => "执行语句出错，不知道该走哪里".toList
  | .read => "读语句出错".toList
  | .write => "写语句出错".toList
  | .writeSemicolon => "写语句缺少 ;".toList
  | .assign => "赋值语句出错".toList
  | .call => "函数调用出错".toList
  | .constant => "常数调用出错，遇到非数字".toList
  | .condition => "条件语句出错".toList
  | .relation => "关系运算符出错".toList
  | .notFinished => "规约完成，但函数未结束".toList

def Message.isUndefined : Message → Bool
  | .undefinedSymbol _ => true
  | _ => false

structure VarRow where
  name : Option (List Char)
  procedure : Option (List Char)
  isFormal : Nat
  type : String
  level : Int
  address : Nat
  deriving DecidableEq

structure ProcedureRow where
  name : Option (List Char)
  type : String
  level : Int
  firstLine : Int
  lastLine : Int
  deriving DecidableEq

/-- The globals; `err_TXT` is kept as the messages and lines that `err_print` appends. -/
structure Globals where
  dydList : List DydRow
  pos : Nat
  line : Nat
  errTXT : List (Message × Nat)
  varTable : List VarRow
  varCount : Nat
  procedureTable : List ProcedureRow
  nowProcedure : Option (List Char)
  procedureLevel : Int
  deriving DecidableEq

def initGlobals (dydList : List DydRow) : Globals :=
  ⟨dydList, 0, 1, [], [], 0, [], some ['m', 'a', 'i', 'n'], 0⟩

inductive DefineOrUse
  | define
  | use
  deriving DecidableEq

inductive Procedure
  | mainProcedure
  | branchProcedure
  | declareStatementTable
  | declareStatementTableA
  | declareStatement
  | varDeclare
  | var (defineOrUse : DefineOrUse) (isFormal : Nat)
  | funcDeclare
  | parameter
  | funcBody
  | execStatementTable
  | execStatementTableA
  | execStatement
  | readStatement
  | writeStatement
  | assignStatement
  | mathExpression
  | mathExpressionA
  | item
  | itemA
  | factor
  | funcCall
  | constant
  | unsignedInteger
  | conditionStatement
  | conditionExpression
  | relationOperator
  deriving DecidableEq

/-- A call of a parse procedure and its return, with the globals at that moment. -/
inductive Event
  | entered (procedure : Procedure) (globals : Globals)
  | returned (procedure : Procedure) (globals : Globals)
  deriving DecidableEq

/-- The globals, and the calls made so far. No procedure reads the trace. -/
structure State extends Globals where
  trace : List Event
  deriving DecidableEq

def initState (dydList : List DydRow) : State := ⟨initGlobals dydList, []⟩

inductive Raise
  | indexError
  | typeError
  | recursionError
  deriving DecidableEq

abbrev Parser := Action State Raise

/-! ### The globals -/

def strip (rows : List DydRow) : List (List Char × Int) :=
  (rows.filter fun row => row.code ≠ eoln).map fun row => (row.word, row.code)

def Globals.ahead (globals : Globals) : List (List Char × Int) :=
  strip (globals.dydList.drop globals.pos)

def Globals.codes (globals : Globals) : List Int := globals.ahead.map Prod.snd

theorem Globals.codes_of_ahead {globals : Globals} {tokens : List (List Char × Int)}
    (ahead : globals.ahead = tokens) : globals.codes = tokens.map Prod.snd := by
  rw [codes, ahead]

/-- The recursive calls of `current_code` and `current_word` on line breaks. -/
def Globals.skipLines (globals : Globals) : Globals :=
  let lines := ((globals.dydList.drop globals.pos).takeWhile fun row => row.code = eoln).length
  { globals with pos := globals.pos + lines, line := globals.line + lines }

def Globals.print (errInfo : Message) (globals : Globals) : Globals :=
  { globals with errTXT := globals.errTXT ++ [(errInfo, globals.line)] }

def Globals.define (word : Option (List Char)) (isFormal : Nat) (globals : Globals) : Globals :=
  if word ∈ globals.varTable.map VarRow.name then globals
  else
    { globals with
      varTable := globals.varTable ++
        [⟨word, globals.nowProcedure, isFormal, "integer", globals.procedureLevel,
          globals.varCount⟩]
      varCount := globals.varCount + 1 }

/-- `use_word` after the two loops of `var`. -/
def Globals.Knows (globals : Globals) (word : Option (List Char)) : Prop :=
  word ∈ globals.varTable.map VarRow.name ∨ word ∈ globals.procedureTable.map ProcedureRow.name

instance (globals : Globals) (word : Option (List Char)) : Decidable (globals.Knows word) :=
  inferInstanceAs (Decidable (_ ∨ _))

def ProcedureRow.touch (line : Nat) (row : ProcedureRow) : ProcedureRow :=
  let begun := if row.firstLine = -1 then { row with firstLine := line } else row
  if begun.lastLine < line then { begun with lastLine := line + 1 } else begun

def Globals.touchLines (globals : Globals) : Globals :=
  { globals with
    procedureTable := globals.procedureTable.map fun row =>
      if row.name = globals.nowProcedure then row.touch globals.line else row }

/-- The assignment to `now_Procedure` in `func_declare` and the new row of `procedure_Table`,
unless the name is there. -/
def Globals.nameProcedure (word : Option (List Char)) (globals : Globals) : Globals :=
  if word ∈ globals.procedureTable.map ProcedureRow.name then
    { globals with nowProcedure := word }
  else
    { globals with
      nowProcedure := word
      procedureTable := globals.procedureTable ++
        [⟨word, "integer", globals.procedureLevel, -1, -1⟩] }

/-! ### Inspections -/

def State.update (change : Globals → Globals) (state : State) : State :=
  { state with toGlobals := change state.toGlobals }

def change (update : Globals → Globals) : Parser Unit := modify (State.update update)

def State.logged (event : Globals → Event) (state : State) : State :=
  { state with trace := state.trace ++ [event state.toGlobals] }

def log (event : Globals → Event) : Parser Unit := modify (State.logged event)

def currentRow : Parser DydRow := do
  change Globals.skipLines
  match (← get).dydList[(← get).pos]? with
  | some row => pure row
  | none => throw .indexError

/-- The functions by which a procedure inspects the tokens and reports, as it can call them:
each call takes a frame of the interpreter. -/
class Inspections where
  currentCode : Parser Int
  currentWord : Parser (List Char)
  advanced : Parser Unit
  nowMoreOneFrom (temp : Nat) : Parser Int
  errPrint (errInfo : Message) : Parser Unit
  identifier : Parser (Option (List Char))

export Inspections (currentCode currentWord advanced nowMoreOneFrom errPrint identifier)

def nowMoreOne [Inspections] : Parser Int := nowMoreOneFrom 1

def Globals.nextLine (globals : Globals) : Globals :=
  { globals with pos := globals.pos + 1, line := globals.line + 1 }

/-- The text of `current_code` and `current_word`, which return one column of the row. -/
def currentBody {Column : Type} (column : DydRow → Column) (again : Parser Column) :
    Parser Column := do
  match (← get).dydList[(← get).pos]? with
  | some row =>
      if row.code = eoln then
        change Globals.nextLine
        again
      else
        pure (column row)
  | none => throw .indexError

def advancedBody (currentCode : Parser Int) : Parser Unit := do
  let _ ← currentCode
  change fun globals => { globals with pos := globals.pos + 1 }

def nowMoreOneBody (again : Nat → Parser Int) (temp : Nat) : Parser Int := do
  match (← get).dydList[(← get).pos + temp]? with
  | some row => if row.code = eoln then again (temp + 1) else pure row.code
  | none => throw .indexError

def identifierBody (currentCode : Parser Int) (currentWord : Parser (List Char))
    (advanced : Parser Unit) (errPrint : Message → Parser Unit) :
    Parser (Option (List Char)) := do
  if (← currentCode) = identifierCode then
    let tempWord ← currentWord
    advanced
    pure (some tempWord)
  else
    errPrint .identifier
    pure none

def skippingColumn {Column : Type} (column : DydRow → Column) : Parser Column := do
  let row ← currentRow
  pure (column row)

def skippingCodeFrom (temp : Nat) : Parser Int := do
  match ((← get).dydList.drop ((← get).pos + temp)).dropWhile fun row => row.code = eoln with
  | row :: _ => pure row.code
  | [] => throw .indexError

/-- With frames without end: the recursive calls on line breaks are loops. -/
instance unlimited : Inspections where
  currentCode := skippingColumn DydRow.code
  currentWord := skippingColumn DydRow.word
  advanced := advancedBody (skippingColumn DydRow.code)
  nowMoreOneFrom := skippingCodeFrom
  errPrint errInfo := change (Globals.print errInfo)
  identifier := identifierBody (skippingColumn DydRow.code) (skippingColumn DydRow.word)
    (advancedBody (skippingColumn DydRow.code)) fun errInfo => change (Globals.print errInfo)

/-- With so many frames left: a function runs with one frame less for the functions it calls. -/
@[reducible] def within : Nat → Inspections
  | 0 =>
    { currentCode := throw .recursionError
      currentWord := throw .recursionError
      advanced := throw .recursionError
      nowMoreOneFrom := fun _ => throw .recursionError
      errPrint := fun _ => throw .recursionError
      identifier := throw .recursionError }
  | frames + 1 =>
    { currentCode := currentBody DydRow.code (within frames).currentCode
      currentWord := currentBody DydRow.word (within frames).currentWord
      advanced := advancedBody (within frames).currentCode
      nowMoreOneFrom := nowMoreOneBody (within frames).nowMoreOneFrom
      errPrint := fun errInfo => change (Globals.print errInfo)
      identifier := identifierBody (within frames).currentCode (within frames).currentWord
        (within frames).advanced (within frames).errPrint }

/-- `err_file_name` is a string, which cannot be called. -/
def errFileName (_errInfo : Message) : Parser Unit := throw .typeError

/-! ### What the inspections do to the tokens ahead -/

def Globals.Standing (code : Int) (globals : Globals) : Prop :=
  code ≠ eoln ∧ (globals.dydList[globals.pos]?).map DydRow.code = some code

def State.skipped (state : State) : State := state.update Globals.skipLines

def State.moved (state : State) : State :=
  state.skipped.update fun globals => { globals with pos := globals.pos + 1 }

@[simp] theorem strip_nil : strip [] = [] := rfl

private theorem strip_cons_eoln {row : DydRow} (rest : List DydRow) (lineBreak : row.code = eoln) :
    strip (row :: rest) = strip rest := by
  simp [strip, lineBreak]

private theorem strip_cons {row : DydRow} (rest : List DydRow) (other : row.code ≠ eoln) :
    strip (row :: rest) = (row.word, row.code) :: strip rest := by
  simp [strip, other]

private theorem strip_dropWhile (rows : List DydRow) :
    strip (rows.dropWhile fun row => row.code = eoln) = strip rows := by
  induction rows with
  | nil => rfl
  | cons row rows ih =>
      by_cases lineBreak : row.code = eoln
      · rw [strip_cons_eoln rows lineBreak, ← ih]
        simp [lineBreak]
      · simp [lineBreak]

/-- The tokens without line breaks begin with the first row that is none. -/
theorem dropWhile_cases (rows : List DydRow) :
    (rows.dropWhile fun row => row.code = eoln) = [] ∧ strip rows = [] ∨
      ∃ row rest, (rows.dropWhile fun row => row.code = eoln) = row :: rest ∧
        row.code ≠ eoln ∧ strip rows = (row.word, row.code) :: strip rest := by
  rw [← strip_dropWhile rows]
  cases left : rows.dropWhile fun row => row.code = eoln with
  | nil => exact .inl ⟨rfl, rfl⟩
  | cons row rest =>
      have other : row.code ≠ eoln := by
        have head := List.head?_dropWhile_not (fun row : DydRow => decide (row.code = eoln)) rows
        simpa [left] using head
      exact .inr ⟨row, rest, rfl, other, strip_cons rest other⟩

private theorem drop_length_takeWhile {Row : Type} (skip : Row → Bool) (rows : List Row) :
    rows.drop (rows.takeWhile skip).length = rows.dropWhile skip := by
  induction rows with
  | nil => rfl
  | cons row rows ih =>
      by_cases skipped : skip row = true
      · simp [skipped, ih]
      · simp [skipped]

theorem Globals.drop_skipLines (globals : Globals) :
    globals.dydList.drop globals.skipLines.pos =
      (globals.dydList.drop globals.pos).dropWhile fun row => row.code = eoln := by
  rw [skipLines, ← List.drop_drop, drop_length_takeWhile]

@[simp] theorem State.skipped_ahead (state : State) : state.skipped.ahead = state.ahead := by
  change strip (state.dydList.drop state.skipLines.pos) = strip (state.dydList.drop state.pos)
  rw [Globals.drop_skipLines, strip_dropWhile]

@[simp] theorem outcome_change (update : Globals → Globals) (state : State) :
    outcome (change update) state = (.ok (), state.update update) :=
  rfl

@[simp] theorem outcome_log (event : Globals → Event) (state : State) :
    outcome (log event) state = (.ok (), state.logged event) :=
  rfl

/-- What `dyd_list[pos]` is after the line breaks. -/
theorem currentRow_cases (state : State) :
    state.ahead = [] ∧ outcome currentRow state = (.error .indexError, state.skipped) ∨
      ∃ row rest, state.skipped.dydList.drop state.skipped.pos = row :: rest ∧
        row.code ≠ eoln ∧ state.ahead = (row.word, row.code) :: strip rest ∧
        outcome currentRow state = (.ok row, state.skipped) := by
  have inspected : outcome currentRow state =
      match (state.dydList.drop state.skipLines.pos)[0]? with
      | some row => (.ok row, state.skipped)
      | none => (.error .indexError, state.skipped) := by
    rw [List.getElem?_drop, Nat.add_zero]
    simp only [currentRow, outcome_bind, outcome_change, outcome_get]
    change outcome (match state.dydList[state.skipLines.pos]? with
      | some row => _
      | none => _) state.skipped = _
    cases state.dydList[state.skipLines.pos]? <;> rfl
  have split := dropWhile_cases (state.dydList.drop state.pos)
  rw [← Globals.drop_skipLines] at split
  rcases split with ⟨left, none⟩ | ⟨row, rest, left, other, some⟩
  · rw [left] at inspected
    exact .inl ⟨none, inspected⟩
  · rw [left] at inspected
    exact .inr ⟨row, rest, left, other, some, inspected⟩

private theorem skipped_standing {state : State} {row : DydRow} {rest : List DydRow}
    (left : state.skipped.dydList.drop state.skipped.pos = row :: rest)
    (other : row.code ≠ eoln) : state.skipped.Standing row.code := by
  have here : (state.skipped.dydList.drop state.skipped.pos)[0]? =
      state.skipped.dydList[state.skipped.pos + 0]? := List.getElem?_drop
  rw [left, Nat.add_zero] at here
  exact ⟨other, by rw [← here]; rfl⟩

theorem outcome_currentCode {state : State} {token : List Char × Int}
    {rest : List (List Char × Int)} (ahead : state.ahead = token :: rest) :
    outcome currentCode state = (.ok token.2, state.skipped) ∧
      state.skipped.Standing token.2 := by
  rcases currentRow_cases state with ⟨none, -⟩ | ⟨row, later, left, other, some, run⟩
  · rw [ahead] at none
    cases none
  · rw [ahead] at some
    cases some
    refine ⟨?_, skipped_standing left other⟩
    simp only [currentCode, skippingColumn, outcome_bind, run, outcome_pure]

private theorem outcome_currentWord {state : State} {token : List Char × Int}
    {rest : List (List Char × Int)} (ahead : state.ahead = token :: rest) :
    outcome currentWord state = (.ok token.1, state.skipped) := by
  rcases currentRow_cases state with ⟨none, -⟩ | ⟨row, later, left, other, some, run⟩
  · rw [ahead] at none
    cases none
  · rw [ahead] at some
    cases some
    simp only [currentWord, skippingColumn, outcome_bind, run, outcome_pure]

theorem outcome_currentCode_nil {state : State} (ahead : state.ahead = []) :
    outcome currentCode state = (.error .indexError, state.skipped) := by
  rcases currentRow_cases state with ⟨-, run⟩ | ⟨row, later, left, other, some, run⟩
  · simp only [currentCode, skippingColumn, outcome_bind, run]
  · rw [ahead] at some
    cases some

theorem outcome_advanced {state : State} {token : List Char × Int}
    {rest : List (List Char × Int)} (ahead : state.ahead = token :: rest) :
    outcome advanced state = (.ok (), state.moved) ∧ state.moved.ahead = rest := by
  refine ⟨?_, ?_⟩
  · change outcome (advancedBody currentCode) state = _
    simp only [advancedBody, outcome_bind, (outcome_currentCode ahead).1, outcome_change]
    rfl
  · rcases currentRow_cases state with ⟨none, -⟩ | ⟨row, later, left, other, some, -⟩
    · rw [ahead] at none
      cases none
    · rw [ahead] at some
      cases some
      change strip (state.skipped.dydList.drop (state.skipped.pos + 1)) = strip later
      rw [← List.drop_drop, left]
      rfl

theorem State.skipped_skipped {state : State} (nonempty : state.ahead ≠ []) :
    state.skipped.skipped = state.skipped := by
  rcases currentRow_cases state with ⟨none, -⟩ | ⟨row, later, left, other, -, -⟩
  · exact absurd none nonempty
  · have noLines : ((state.skipped.dydList.drop state.skipped.pos).takeWhile
        fun row => row.code = eoln).length = 0 := by
      rw [left]
      simp [other]
    change state.skipped.update Globals.skipLines = state.skipped
    simp only [update, Globals.skipLines, noLines, Nat.add_zero]

theorem State.skipped_moved {state : State} (nonempty : state.ahead ≠ []) :
    state.skipped.moved = state.moved := by
  rw [moved, skipped_skipped nonempty, moved]

theorem outcome_identifier {state : State} {token : List Char × Int}
    {rest : List (List Char × Int)} (ahead : state.ahead = token :: rest) :
    outcome identifier state =
      if token.2 = identifierCode then (.ok (some token.1), state.moved)
      else (.ok none, state.skipped.update (Globals.print .identifier)) := by
  have again : state.skipped.ahead = token :: rest := by rw [State.skipped_ahead, ahead]
  have same : state.skipped.skipped = state.skipped := State.skipped_skipped (by simp [ahead])
  change outcome (identifierBody currentCode currentWord advanced errPrint) state = _
  simp only [identifierBody, outcome_bind, (outcome_currentCode ahead).1]
  split
  · simp only [outcome_bind, outcome_currentWord again, same, (outcome_advanced again).1,
      State.skipped_moved (by simp [ahead] : state.ahead ≠ []), outcome_pure]
  · simp only [outcome_bind, errPrint, outcome_change, outcome_pure]

theorem outcome_identifier_nil {state : State} (ahead : state.ahead = []) :
    outcome identifier state = (.error .indexError, state.skipped) := by
  change outcome (identifierBody currentCode currentWord advanced errPrint) state = _
  simp only [identifierBody, outcome_bind, outcome_currentCode_nil ahead]

theorem outcome_nowMoreOne {state : State} {code : Int} (standing : state.Standing code) :
    ∃ word rest, state.ahead = (word, code) :: rest ∧
      outcome nowMoreOne state =
        match rest with
        | [] => (.error .indexError, state)
        | next :: _ => (.ok next.2, state) := by
  rcases standing with ⟨other, here⟩
  rcases found : state.dydList[state.pos]? with _ | row
  · rw [found] at here
    cases here
  · rw [found] at here
    cases here
    have cut : state.dydList.drop state.pos = row :: state.dydList.drop (state.pos + 1) := by
      rcases List.getElem?_eq_some_iff.mp found with ⟨inside, rfl⟩
      exact List.drop_eq_getElem_cons inside
    refine ⟨row.word, strip (state.dydList.drop (state.pos + 1)), ?_, ?_⟩
    · rw [Globals.ahead, cut, strip_cons _ other]
    · simp only [nowMoreOne, nowMoreOneFrom, skippingCodeFrom, outcome_bind, outcome_get]
      rcases dropWhile_cases (state.dydList.drop (state.pos + 1)) with
        ⟨left, none⟩ | ⟨next, later, left, -, some⟩
      · rw [left, none]
        rfl
      · rw [left, some]
        rfl

/-! ### The same as preconditions -/

section Preconditions

variable {Result : Type} {returns : Result → State → Prop} {raises : Raise → State → Prop}
variable {state : State}

theorem wp_look {next : Int → Parser Result}
    (none : state.ahead = [] → raises .indexError state.skipped)
    (some : ∀ token rest, state.ahead = token :: rest → state.skipped.Standing token.2 →
      wp (next token.2) returns raises state.skipped) :
    wp (currentCode >>= next) returns raises state := by
  rw [wp_bind]
  cases ahead : state.ahead with
  | nil => exact (wp_of_raise (outcome_currentCode_nil ahead)).mpr (none ahead)
  | cons token rest =>
      have found := outcome_currentCode ahead
      exact (wp_of_outcome found.1).mpr (some token rest ahead found.2)

theorem wp_lookAhead {next : Int → Parser Result} {code : Int} (standing : state.Standing code)
    (last : ∀ word, state.ahead = [(word, code)] → raises .indexError state)
    (more : ∀ word token rest, state.ahead = (word, code) :: token :: rest →
      wp (next token.2) returns raises state) :
    wp (nowMoreOne >>= next) returns raises state := by
  rw [wp_bind]
  rcases outcome_nowMoreOne standing with ⟨word, _ | ⟨token, rest⟩, ahead, found⟩
  · exact (wp_of_raise found).mpr (last word ahead)
  · exact (wp_of_outcome found).mpr (more word token rest ahead)

theorem wp_advance {code : Int} {next : Unit → Parser Result}
    (standing : state.Standing code)
    (step : ∀ word rest, state.ahead = (word, code) :: rest → state.moved.ahead = rest →
      wp (next ()) returns raises state.moved) :
    wp (advanced >>= next) returns raises state := by
  rcases outcome_nowMoreOne standing with ⟨word, rest, ahead, -⟩
  rw [wp_bind]
  have found := outcome_advanced ahead
  exact (wp_of_outcome found.1).mpr (step word rest ahead found.2)

/-- A test of the current code and the step over it. -/
theorem wp_expect {code : Int} {yes : Unit → Parser Result} {no : Parser Result}
    (none : state.ahead = [] → raises .indexError state.skipped)
    (found : ∀ word rest, state.ahead = (word, code) :: rest → state.moved.ahead = rest →
      wp (yes ()) returns raises state.moved)
    (other : ∀ token rest, state.ahead = token :: rest → token.2 ≠ code →
      wp no returns raises state.skipped) :
    wp (currentCode >>= fun current => if current = code then advanced >>= yes else no)
      returns raises state := by
  refine wp_look none fun token rest ahead standing => ?_
  split
  · rename_i same
    have moved : state.skipped.moved = state.moved := State.skipped_moved (by simp [ahead])
    refine wp_advance standing fun word tail again left => ?_
    rw [moved] at left ⊢
    rw [State.skipped_ahead, same] at again
    exact found word tail again left
  · exact other token rest ahead ‹_›

theorem wp_expectLast {code : Int} {returns : Unit → State → Prop} {no : Parser Unit}
    (none : state.ahead = [] → raises .indexError state.skipped)
    (found : ∀ word rest, state.ahead = (word, code) :: rest → state.moved.ahead = rest →
      returns () state.moved)
    (other : ∀ token rest, state.ahead = token :: rest → token.2 ≠ code →
      wp no returns raises state.skipped) :
    wp (currentCode >>= fun current => if current = code then advanced else no)
      returns raises state := by
  have step : wp (currentCode >>= fun current =>
      if current = code then advanced >>= pure else no) returns raises state :=
    wp_expect none found other
  simpa using step

theorem wp_identify {next : Option (List Char) → Parser Result}
    (none : state.ahead = [] → raises .indexError state.skipped)
    (name : ∀ word rest, state.ahead = (word, identifierCode) :: rest →
      state.moved.ahead = rest → wp (next (some word)) returns raises state.moved)
    (other : ∀ token rest, state.ahead = token :: rest → token.2 ≠ identifierCode →
      wp (next Option.none) returns raises
        (state.skipped.update (Globals.print .identifier))) :
    wp (identifier >>= next) returns raises state := by
  rw [wp_bind]
  cases ahead : state.ahead with
  | nil => exact (wp_of_raise (outcome_identifier_nil ahead)).mpr (none ahead)
  | cons token rest =>
      have found := outcome_identifier ahead
      by_cases identifier : token.2 = identifierCode
      · rw [if_pos identifier] at found
        refine (wp_of_outcome found).mpr (name token.1 rest ?_ (outcome_advanced ahead).2)
        rw [ahead, ← identifier]
      · rw [if_neg identifier] at found
        exact (wp_of_outcome found).mpr (other token rest ahead identifier)

end Preconditions

end OsCompiler.LabPy
