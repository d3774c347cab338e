/-
Line breaks do not matter to `lab_parser.py`.

Two runs are compared whose states show the same tokens ahead and the same tables up
to line numbers. Every inspection looks over the line breaks, so the two runs inspect
the same tokens, make the same calls and change the tables alike, as long as neither runs
out of frames: looking over line breaks takes one for each of them.
-/

import OsCompiler.LabPy.Frames

namespace OsCompiler.LabPy

open OsCompiler.Action

def ProcedureRow.outline (row : ProcedureRow) : Option (List Char) × String × Int :=
  (row.name, row.type, row.level)

/-- The same tokens ahead, and the same messages and tables up to line numbers. -/
structure Alike (left right : State) : Prop where
  ahead : left.ahead = right.ahead
  messages : left.errTXT.map Prod.fst = right.errTXT.map Prod.fst
  varTable : left.varTable = right.varTable
  varCount : left.varCount = right.varCount
  procedures : left.procedureTable.map ProcedureRow.outline =
    right.procedureTable.map ProcedureRow.outline
  nowProcedure : left.nowProcedure = right.nowProcedure
  procedureLevel : left.procedureLevel = right.procedureLevel

section Alike

variable {left right : State} (alike : Alike left right)

include alike

theorem Alike.names :
    left.procedureTable.map ProcedureRow.name = right.procedureTable.map ProcedureRow.name := by
  simpa [ProcedureRow.outline, Function.comp_def] using
    congrArg (List.map Prod.fst) alike.procedures

theorem Alike.knows (word : Option (List Char)) : left.Knows word ↔ right.Knows word := by
  rw [Globals.Knows, Globals.Knows, alike.varTable, alike.names]

theorem Alike.skipped : Alike left.skipped right.skipped :=
  { alike with ahead := by rw [State.skipped_ahead, State.skipped_ahead, alike.ahead] }

theorem Alike.moved {token : List Char × Int} {rest : List (List Char × Int)}
    (ahead : left.ahead = token :: rest) : Alike left.moved right.moved :=
  { alike with
    ahead := (outcome_advanced ahead).2.trans (outcome_advanced (alike.ahead ▸ ahead)).2.symm }

theorem Alike.logged (event : Globals → Event) : Alike (left.logged event) (right.logged event) :=
  { alike with }

theorem Alike.update {change : Globals → Globals} (listed : Bookkeeping change) :
    Alike (left.update change) (right.update change) := by
  have ahead : (left.update change).ahead = (right.update change).ahead :=
    (listed.ahead _).trans (alike.ahead.trans (listed.ahead _).symm)
  cases listed with
  | print errInfo =>
      refine { alike with ahead := ahead, messages := ?_ }
      simp [State.update, Globals.print, alike.messages]
  | define word isFormal =>
      by_cases found : word ∈ left.varTable.map VarRow.name
      · have found' : word ∈ right.varTable.map VarRow.name := alike.varTable ▸ found
        rw [State.update, State.update, Globals.define, Globals.define, if_pos found, if_pos found']
        exact alike
      · have found' : word ∉ right.varTable.map VarRow.name := alike.varTable ▸ found
        rw [State.update, State.update, Globals.define, Globals.define, if_neg found, if_neg found']
        refine { alike with varTable := ?_, varCount := congrArg (· + 1) alike.varCount }
        rw [alike.varTable, alike.nowProcedure, alike.procedureLevel, alike.varCount]
  | touchLines =>
      have outlines : ∀ state : State, (state.update Globals.touchLines).procedureTable.map
          ProcedureRow.outline = state.procedureTable.map ProcedureRow.outline := by
        intro state
        simp only [State.update, Globals.touchLines, List.map_map]
        refine List.map_congr_left fun row _ => ?_
        simp only [Function.comp_apply, ProcedureRow.touch, ProcedureRow.outline]
        split_ifs <;> rfl
      exact { alike with ahead := ahead, procedures := by rw [outlines, outlines, alike.procedures] }
  | nameProcedure word =>
      by_cases found : word ∈ left.procedureTable.map ProcedureRow.name
      · have found' : word ∈ right.procedureTable.map ProcedureRow.name := alike.names ▸ found
        rw [State.update, State.update, Globals.nameProcedure, Globals.nameProcedure,
          if_pos found, if_pos found']
        exact { alike with nowProcedure := rfl }
      · have found' : word ∉ right.procedureTable.map ProcedureRow.name := alike.names ▸ found
        rw [State.update, State.update, Globals.nameProcedure, Globals.nameProcedure,
          if_neg found, if_neg found']
        refine { alike with nowProcedure := rfl, procedures := ?_ }
        simp [alike.procedures, ProcedureRow.outline, alike.procedureLevel]
  | restore name => exact { alike with nowProcedure := rfl }
  | level step => exact { alike with procedureLevel := congrArg (· + step) alike.procedureLevel }

/-! ### Two runs of a procedure -/

theorem Alike.change {update : Globals → Globals} (listed : Bookkeeping update) :
    Simulates Alike (LabPy.change update) (LabPy.change update) left right :=
  ⟨rfl, alike.update listed⟩

theorem Alike.identify {Result : Type} {next : Option (List Char) → Parser Result}
    (second : ∀ word left' right', Alike left' right' →
      Simulates Alike (next word) (next word) left' right') :
    Simulates Alike (identifier >>= next) (identifier >>= next) left right := by
  cases ahead : left.ahead with
  | nil =>
      exact simulates_raise (outcome_identifier_nil ahead)
        (outcome_identifier_nil (alike.ahead ▸ ahead)) alike.skipped
  | cons token rest =>
      have leftRun := outcome_identifier ahead
      have rightRun := outcome_identifier (alike.ahead ▸ ahead)
      by_cases identifier : token.2 = identifierCode
      · rw [if_pos identifier] at leftRun rightRun
        exact simulates_after leftRun rightRun (second _ _ _ (alike.moved ahead))
      · rw [if_neg identifier] at leftRun rightRun
        exact simulates_after leftRun rightRun
          (second _ _ _ (alike.skipped.update (.print .identifier)))

theorem Alike.var (defineOrUse : DefineOrUse) (isFormal : Nat) :
    Simulates Alike (LabPy.var defineOrUse isFormal) (LabPy.var defineOrUse isFormal)
      left right := by
  refine simulates_bind ?_ fun _ _ _ after => after.change .touchLines
  cases defineOrUse with
  | define => exact alike.identify fun word _ _ after => after.change (.define word _)
  | use =>
      refine alike.identify fun word left' right' after => ?_
      refine simulates_after (outcome_get left') (outcome_get right') ?_
      by_cases known : left'.Knows word
      · rw [if_pos known, if_pos ((after.knows word).mp known)]
        exact ⟨rfl, after⟩
      · rw [if_neg known, if_neg fun other => known ((after.knows word).mpr other)]
        cases word with
        | some word => exact after.change (.print _)
        | none => exact ⟨rfl, after⟩

end Alike

theorem Built.alike {call : Procedure → Parser Unit} {procedure : Procedure}
    (calls : ∀ callee left right, Alike left right →
      Simulates Alike (call callee) (call callee) left right)
    {context : Context} {part : Parser Unit} (built : Built call procedure context part) :
    ∀ left right, Alike left right → context.Holds left → context.Holds right →
      Simulates Alike part part left right := by
  induction built with
  | done => exact fun left right alike _ _ => ⟨rfl, alike⟩
  | look next ih =>
      intro left right alike _ _
      cases ahead : left.ahead with
      | nil =>
          exact simulates_raise (outcome_currentCode_nil ahead)
            (outcome_currentCode_nil (alike.ahead ▸ ahead)) alike.skipped
      | cons token rest =>
          have leftRun := outcome_currentCode ahead
          have rightRun := outcome_currentCode (alike.ahead ▸ ahead)
          exact simulates_after leftRun.1 rightRun.1 (ih token.2 _ _ alike.skipped
            (Context.holds_some leftRun.2 _) (Context.holds_some rightRun.2 _))
  | lookAhead notLast next ih =>
      intro left right alike holds holds'
      rcases outcome_nowMoreOne (holds _ rfl) with ⟨word, rest, ahead, leftRun⟩
      rcases outcome_nowMoreOne (holds' _ rfl) with ⟨word', rest', ahead', rightRun⟩
      have same : rest = rest' := by
        rw [alike.ahead, ahead'] at ahead
        exact (List.cons.inj ahead).2.symm
      subst same
      cases rest with
      | nil => exact simulates_raise leftRun rightRun alike
      | cons token rest =>
          exact simulates_after leftRun rightRun (ih token.2 _ _ alike holds holds')
  | advance notLast next ih =>
      intro left right alike holds _
      rcases outcome_nowMoreOne (holds _ rfl) with ⟨word, rest, ahead, -⟩
      exact simulates_after (outcome_advanced ahead).1
        (outcome_advanced (alike.ahead ▸ ahead)).1 (ih _ _ (alike.moved ahead)
          (Context.holds_none _ _) (Context.holds_none _ _))
  | report errInfo defined => exact fun _ _ alike _ _ => alike.change (.print errInfo)
  | stop => exact fun _ _ alike _ _ => ⟨rfl, alike⟩
  | call callee => exact fun left right alike _ _ => calls callee left right alike
  | seq before after ihBefore ihAfter =>
      exact fun left right alike holds holds' =>
        simulates_bind (ihBefore left right alike holds holds') fun _ left' right' alike' =>
          ihAfter left' right' alike' (Context.holds_none _ _) (Context.holds_none _ _)
  | identify called next ih =>
      exact fun left right alike _ _ => alike.identify fun _ left' right' alike' =>
        ih left' right' alike' (Context.holds_none _ _) (Context.holds_none _ _)
  | var defineOrUse isFormal => exact fun _ _ alike _ _ => alike.var defineOrUse isFormal
  | name declared next ih =>
      exact fun left right alike _ _ => alike.identify fun name left' right' alike' =>
        simulates_bind (alike'.change (.nameProcedure name)) fun _ left' right' alike' =>
          ih left' right' alike' (Context.holds_none _ _) (Context.holds_none _ _)
  | within declared inner ih =>
      intro left right alike _ _
      refine simulates_bind (alike.change (.level 1)) fun _ left' right' raised => ?_
      refine simulates_after (outcome_get left') (outcome_get right') ?_
      refine simulates_bind (ih left' right' raised (Context.holds_none _ _)
        (Context.holds_none _ _)) fun _ _ _ inside => ?_
      rw [raised.nowProcedure]
      exact simulates_bind (inside.change (.restore _)) fun _ _ _ restored =>
        restored.change (.level (-1))

theorem invoke_alike (depth : Nat) (procedure : Procedure) {left right : State}
    (alike : Alike left right) :
    Simulates Alike (invoke depth procedure) (invoke depth procedure) left right := by
  induction depth generalizing procedure left right with
  | zero => exact ⟨rfl, alike⟩
  | succ depth ih =>
      refine simulates_after (outcome_log _ _) (outcome_log _ _) ?_
      refine simulates_bind ?_ fun _ _ _ after => ⟨rfl, after.logged _⟩
      exact (body_built (invoke depth) procedure).alike (fun callee _ _ => ih callee) _ _
        (alike.logged _) (Context.holds_none _ _) (Context.holds_none _ _)

/-- With frames without end token lists that differ in their line breaks alone have the same
outcome, the same messages and the same tables up to line numbers. -/
theorem lineBreaks_insensitive {left right : List DydRow} (same : strip left = strip right) :
    (run left).1 = (run right).1 ∧
      (run left).2.errTXT.map Prod.fst = (run right).2.errTXT.map Prod.fst ∧
      (run left).2.varTable = (run right).2.varTable ∧
      (run left).2.procedureTable.map ProcedureRow.outline =
        (run right).2.procedureTable.map ProcedureRow.outline := by
  have start : Alike (initState left) (initState right) := ⟨same, rfl, rfl, rfl, rfl, rfl, rfl⟩
  have depth : callDepth left = callDepth right := by rw [callDepth, callDepth, same]
  have runs := invoke_alike (callDepth left) .mainProcedure start
  rw [run, run, ← depth]
  exact ⟨runs.1, runs.2.messages, runs.2.varTable, runs.2.procedures⟩

/-- With any number of frames they have so too, unless one of the two runs ends for want of
frames. Neither does where there are frames for the calls, for the longest run of line breaks and
for the functions inside `identifier`. -/
theorem lineBreaks_insensitive_within (frames : Nat) {left right : List DydRow}
    (same : strip left = strip right) :
    ((runWithin frames left).1 ≠ .error .recursionError →
      (runWithin frames right).1 ≠ .error .recursionError →
      (runWithin frames left).1 = (runWithin frames right).1 ∧
        (runWithin frames left).2.errTXT.map Prod.fst =
          (runWithin frames right).2.errTXT.map Prod.fst ∧
        (runWithin frames left).2.varTable = (runWithin frames right).2.varTable ∧
        (runWithin frames left).2.procedureTable.map ProcedureRow.outline =
          (runWithin frames right).2.procedureTable.map ProcedureRow.outline) ∧
      (callDepth left + max (longestRun left) (longestRun right) + 3 ≤ frames →
        (runWithin frames left).1 ≠ .error .recursionError ∧
          (runWithin frames right).1 ≠ .error .recursionError) := by
  constructor
  · intro leftGoes rightGoes
    rw [runWithin_eq_run leftGoes, runWithin_eq_run rightGoes]
    exact lineBreaks_insensitive same
  · intro enough
    have depth : callDepth left = callDepth right := by rw [callDepth, callDepth, same]
    have leftRun := Nat.le_max_left (longestRun left) (longestRun right)
    have rightRun := Nat.le_max_right (longestRun left) (longestRun right)
    rw [runWithin_enough (by omega : callDepth left + longestRun left + 3 ≤ frames),
      runWithin_enough (by omega : callDepth right + longestRun right + 3 ≤ frames)]
    exact ⟨run_ne_recursionError left, run_ne_recursionError right⟩

private def missingOperand : List DydRow := tokensOf "begin integer k;k:=m-;end"

private def missingOperandLines : List DydRow :=
  tokensOf "begin\ninteger\nk\n;\nk\n:=\nm\n-\n;\nend"

/-- A line break in front of every token but `EOF`, and a missing operand, in the frames that the
interpreter has by default. -/
theorem lineBreaks_insensitive_missing_operand :
    (runWithin 999 missingOperand).1 = .error .typeError ∧
      (runWithin 999 missingOperandLines).1 = .error .typeError ∧
      (runWithin 999 missingOperandLines).2.errTXT.map Prod.fst =
        (runWithin 999 missingOperand).2.errTXT.map Prod.fst := by
  have both := lineBreaks_insensitive_within 999
    (by decide +kernel : strip missingOperand = strip missingOperandLines)
  rcases both.2 (by decide +kernel) with ⟨leftGoes, rightGoes⟩
  rcases both.1 leftGoes rightGoes with ⟨outcome, messages, _⟩
  have raised : (runWithin 999 missingOperand).1 = .error .typeError := by
    rw [runWithin_eq_run leftGoes]
    decide +kernel
  exact ⟨raised, outcome.symm.trans raised, messages.symm⟩

private def reading : List DydRow := tokensOf "begin integer k;read(k)end"

private def readingBehindLines : List DydRow :=
  List.replicate 1000 ⟨['E', 'O', 'L', 'N'], eoln, []⟩ ++ reading

/-- In the frames that the interpreter has by default, a program is read and the same program
behind a thousand line breaks is not. -/
theorem thousand_line_breaks :
    EndsInEof (reading.map DydRow.code) ∧ EndsInEof (readingBehindLines.map DydRow.code) ∧
      strip reading = strip readingBehindLines ∧ (runWithin 999 reading).1 = .ok () ∧
      (runWithin 999 readingBehindLines).1 = .error .recursionError := by
  refine ⟨by decide +kernel, by decide +kernel, by decide +kernel, ?_, ?_⟩
  · rw [runWithin_enough (by decide +kernel : callDepth reading + longestRun reading + 3 ≤ 999)]
    decide +kernel
  · exact runWithin_short (by decide +kernel : 997 ≤ leadingBreaks readingBehindLines)

end OsCompiler.LabPy
