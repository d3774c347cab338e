/-
How far `lab_parser.py` comes in the token list.

With calls enough inside one another a run is the same for every further allowance, so
its trace has all the calls there are. At every entry and return, and where the run
ends, `pos` has not gone back, `EOF` has not been consumed and `line` counts the line
breaks before `pos`.
-/

import OsCompiler.LabPy.Frames

namespace OsCompiler.LabPy

open OsCompiler.Action

/-! ### The position and the line -/

def lineBreaks (rows : List DydRow) : Nat := rows.countP fun row => row.code = eoln

/-- The globals stand before `EOF`, and `line` counts the line breaks so far. -/
structure Globals.Placed (dydList : List DydRow) (globals : Globals) : Prop where
  tokens : globals.dydList = dydList
  eofLeft : EndsInEof globals.codes
  line : globals.line = 1 + lineBreaks (dydList.take globals.pos)

/-- So did they at every entry and return, and the position never went back. -/
structure Progress (dydList : List DydRow) (state : State) : Prop where
  placed : state.Placed dydList
  past : ∀ event ∈ state.trace, event.globals.Placed dydList
  behind : ∀ event ∈ state.trace, event.globals.pos ≤ state.pos
  order : state.trace.Pairwise fun earlier later => earlier.globals.pos ≤ later.globals.pos

section Steps

variable {dydList : List DydRow} {state : State}

/-- Only the position and the line have changed. -/
theorem Progress.step {after : State} (progress : Progress dydList state)
    (placed : after.Placed dydList) (onward : state.pos ≤ after.pos)
    (calls : after.trace = state.trace) : Progress dydList after where
  placed := placed
  past event member := progress.past event (calls ▸ member)
  behind event member := (progress.behind event (calls ▸ member)).trans onward
  order := calls ▸ progress.order

private theorem lineBreaks_takeWhile (rows : List DydRow) :
    lineBreaks (rows.takeWhile fun row => row.code = eoln) =
      (rows.takeWhile fun row => row.code = eoln).length := by
  refine List.countP_eq_length.mpr fun row member => ?_
  have skipped : decide (row.code = eoln) = true :=
    List.mem_takeWhile_imp (p := fun row : DydRow => decide (row.code = eoln)) member
  exact skipped

theorem Globals.Placed.skipped {globals : Globals} (placed : globals.Placed dydList) :
    globals.skipLines.Placed dydList where
  tokens := placed.tokens
  eofLeft := by
    have same : globals.skipLines.ahead = globals.ahead :=
      State.skipped_ahead ⟨globals, []⟩
    rw [Globals.codes, same]
    exact placed.eofLeft
  line := by
    have passed : (dydList.drop globals.pos).take
        ((dydList.drop globals.pos).takeWhile fun row => row.code = eoln).length =
        (dydList.drop globals.pos).takeWhile fun row => row.code = eoln :=
      List.prefix_iff_eq_take.mp (List.takeWhile_prefix _) |>.symm
    have line := placed.line
    simp only [Globals.skipLines, placed.tokens]
    rw [List.take_add, passed, lineBreaks, List.countP_append, ← lineBreaks, ← lineBreaks,
      lineBreaks_takeWhile]
    omega

/-- A token that is consumed is no line break. -/
theorem Progress.moved (progress : Progress dydList state) {token : List Char × Int}
    {rest : List (List Char × Int)} (ahead : state.ahead = token :: rest)
    (notLast : token.2 ≠ eof) : Progress dydList state.moved := by
  have skipped : state.skipped.Placed dydList := progress.placed.skipped
  rcases currentRow_cases state with ⟨none, -⟩ | ⟨row, later, left, other, some, -⟩
  · rw [ahead] at none
    cases none
  · have here : dydList[state.skipped.pos]? = Option.some row := by
      have head : (state.skipped.dydList.drop state.skipped.pos)[0]? = Option.some row := by
        rw [left]
        rfl
      rwa [List.getElem?_drop, skipped.tokens] at head
    refine progress.step ⟨skipped.tokens, ?_, ?_⟩ ?_ rfl
    · exact (kept_onward.moved ahead notLast).eofLeft progress.placed.eofLeft
    · have passed : dydList.take (state.skipped.pos + 1) =
          dydList.take state.skipped.pos ++ [row] := by
        rw [List.take_add_one, here]
        rfl
      have single : lineBreaks [row] = 0 := by
        simp [lineBreaks, other]
      change state.skipped.line = 1 + lineBreaks (dydList.take (state.skipped.pos + 1))
      rw [passed, lineBreaks, List.countP_append, ← lineBreaks, ← lineBreaks, single]
      exact skipped.line
    · change state.pos ≤ state.pos + _ + 1
      omega

theorem Progress.logged (progress : Progress dydList state) (event : Globals → Event)
    (same : ∀ globals, (event globals).globals = globals) :
    Progress dydList (state.logged event) where
  placed := progress.placed
  past other member := by
    rcases List.mem_append.mp member with earlier | latest
    · exact progress.past other earlier
    · rw [List.mem_singleton.mp latest, same]
      exact progress.placed
  behind other member := by
    rcases List.mem_append.mp member with earlier | latest
    · exact progress.behind other earlier
    · rw [List.mem_singleton.mp latest, same]
      exact le_rfl
  order := by
    refine List.pairwise_append.mpr ⟨progress.order, List.pairwise_singleton _ _, ?_⟩
    intro earlier before latest member
    rw [List.mem_singleton.mp member, same]
    exact progress.behind earlier before

end Steps

theorem Bookkeeping.line {change : Globals → Globals} (listed : Bookkeeping change)
    (globals : Globals) : (change globals).line = globals.line := by
  cases listed with
  | define word isFormal =>
      simp only [Globals.define]
      split <;> rfl
  | nameProcedure word =>
      simp only [Globals.nameProcedure]
      split <;> rfl
  | _ => rfl

private theorem invariant_progress (dydList : List DydRow) : Invariant (Progress dydList) where
  skipped progress := progress.step progress.placed.skipped (Nat.le_add_right _ _) rfl
  moved ahead notLast progress := progress.moved ahead notLast
  bookkeeping {change} listed state progress := by
    have place := listed.tokens state.toGlobals
    refine progress.step ⟨place.1.trans progress.placed.tokens, ?_, ?_⟩ place.2.ge rfl
    · have same : (state.update change).ahead = state.ahead := listed.ahead state.toGlobals
      rw [Globals.codes, same]
      exact progress.placed.eofLeft
    · have position : (state.update change).pos = state.pos := place.2
      have line : (state.update change).line = state.line := listed.line state.toGlobals
      rw [position, line]
      exact progress.placed.line
  logged event same _ progress := progress.logged event same

/-! ### The run of the program -/

/-- Tokens are left only before the index of `EOF`. -/
theorem Globals.Placed.pos_le {dydList : List DydRow} {globals : Globals}
    (placed : globals.Placed dydList) (ends : EndsInEof (dydList.map DydRow.code)) :
    globals.pos ≤ (dydList.map DydRow.code).idxOf eof := by
  rcases ends with ⟨front, same, fresh⟩
  have index : (dydList.map DydRow.code).idxOf eof = front.length := by
    rw [same, List.idxOf_append_of_notMem fresh]
    simp
  have length : dydList.length = front.length + 1 := by
    have lengths := congrArg List.length same
    simpa using lengths
  by_contra beyond
  have nothing : globals.dydList.drop globals.pos = [] := by
    rw [placed.tokens]
    exact List.drop_eq_nil_of_le (by omega)
  have none : globals.codes = [] := by
    rw [Globals.codes, Globals.ahead, nothing]
    rfl
  exact placed.eofLeft.ne_nil none

/-- Where `EOF` is the last token and no other one, every run comes to an end, which no deeper
calls would change. The position never goes back and stays on or before `EOF`, also in a run that
raises, and `line` is the line of the position whenever a procedure is entered or returns. -/
theorem lab_parser_progress {dydList : List DydRow}
    (ends : EndsInEof (dydList.map DydRow.code)) :
    ((run dydList).1 ≠ .error .recursionError ∧
        ∀ depth, callDepth dydList ≤ depth →
          outcome (invoke depth .mainProcedure) (initState dydList) = run dydList) ∧
      ((run dydList).2.trace.map (fun event => event.globals.pos) ++
          [(run dydList).2.pos]).Pairwise (· ≤ ·) ∧
      (∀ event ∈ (run dydList).2.trace,
        event.globals.pos ≤ (dydList.map DydRow.code).idxOf eof) ∧
      (run dydList).2.pos ≤ (dydList.map DydRow.code).idxOf eof ∧
      ∀ event ∈ (run dydList).2.trace,
        event.globals.line = 1 + lineBreaks (dydList.take event.globals.pos) := by
  have start : Progress dydList (initState dydList) :=
    ⟨⟨rfl, initState_endsInEof ends, rfl⟩, nofun, nofun, .nil⟩
  have progress := (invariant_progress dydList).run start
  have order : ((run dydList).2.trace.map fun event => event.globals.pos).Pairwise (· ≤ ·) :=
    List.pairwise_map.mpr progress.order
  have last : (run dydList).2.pos ≤ (dydList.map DydRow.code).idxOf eof :=
    progress.placed.pos_le ends
  refine ⟨⟨run_ne_recursionError dydList, ?_⟩, ?_, ?_, last, ?_⟩
  · exact fun depth deep => run_deeper dydList deep
  · refine List.pairwise_append.mpr ⟨order, List.pairwise_singleton _ _, ?_⟩
    intro earlier before last member
    rcases List.mem_map.mp before with ⟨event, inside, rfl⟩
    rw [List.mem_singleton.mp member]
    exact progress.behind event inside
  · exact fun event member => (progress.past event member).pos_le ends
  · exact fun event member => (progress.past event member).line

private def lonelyUse : List DydRow := tokensOf "begin\ninteger k;\nread(end"

/-- The run raises at the missing variable. -/
theorem lab_parser_progress_missing_variable :
    (((run lonelyUse).1 ≠ .error .recursionError ∧
        ∀ depth, callDepth lonelyUse ≤ depth →
          outcome (invoke depth .mainProcedure) (initState lonelyUse) = run lonelyUse) ∧
      ((run lonelyUse).2.trace.map (fun event => event.globals.pos) ++
          [(run lonelyUse).2.pos]).Pairwise (· ≤ ·) ∧
      (∀ event ∈ (run lonelyUse).2.trace,
        event.globals.pos ≤ (lonelyUse.map DydRow.code).idxOf eof) ∧
      (run lonelyUse).2.pos ≤ (lonelyUse.map DydRow.code).idxOf eof ∧
      ∀ event ∈ (run lonelyUse).2.trace,
        event.globals.line = 1 + lineBreaks (lonelyUse.take event.globals.pos)) ∧
      (run lonelyUse).1 = .error .typeError :=
  ⟨lab_parser_progress (by decide +kernel), by decide +kernel⟩

end OsCompiler.LabPy
