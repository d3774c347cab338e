/-
`lex.py` and `lab_parser.py` one behind the other, from the source text to the files.

Blanks and newlines separate tokens and are nothing else: what the two programs make of
a text depends on the pieces between them, not on how many there are of either, nor on
the line ends of the platform, as long as the parser does not run out of frames.
-/

import OsCompiler.LabPy.Acceptance
import OsCompiler.LabPy.LineBreaks
import OsCompiler.LabPy.LongestMatch
import OsCompiler.LabPy.TokenBoundaries

namespace OsCompiler.LabPy

open OsCompiler.TextLines OsCompiler.Action

/-- The rows that `init_files` finds for the words and codes passed to `Print`. -/
def rowsOf (source : List Char) : List DydRow :=
  (lexMain source).printed.map fun row => ⟨row.1, row.2, []⟩

def endFilesWithin : Nat → Parser Files
  | 0 => throw .recursionError
  | frames + 1 => @endFiles (within frames)

def programWithin (frames : Nat) (dydList : List DydRow) : Except Raise Files × State :=
  outcome (do invokeWithin frames .mainProcedure; endFilesWithin frames) (initState dydList)

/-- `lex.py`, the `.dyd` file in text mode, and `lab_parser.py`; `none` where `init_files` raises. -/
def frontEnd (frames : Nat) (lineEnd : LineEnd) (source : List Char) :
    Option (Except Raise Files × State) :=
  (initFiles (writeText lineEnd (lexMain source).target)).map (programWithin frames)

private theorem initFiles_target (lineEnd : LineEnd) (source : List Char) :
    initFiles (writeText lineEnd (lexMain source).target) = some (rowsOf source) := by
  rcases lexMain_lexemes source with ⟨lexemes, target⟩
  rw [target]
  exact initFiles_targetText lineEnd fun row member => (lexemes row member).solid

theorem frontEnd_eq (frames : Nat) (lineEnd : LineEnd) (source : List Char) :
    frontEnd frames lineEnd source = some (programWithin frames (rowsOf source)) := by
  rw [frontEnd, initFiles_target]
  rfl

/-! ### The frames of the program -/

theorem InspectionsAgree.endFiles {dydList : List DydRow} {left right : Inspections}
    (inspections : InspectionsAgree dydList left right) :
    Agrees dydList (@LabPy.endFiles left) (@LabPy.endFiles right) := by
  refine extends_bind extends_get fun state => ?_
  refine extends_bind (extends_bind inspections.currentCode fun code => ?_) fun _ => extends_pure _
  exact extends_ite (inspections.errPrint _) (extends_pure _)

private theorem endFilesWithin_agrees (dydList : List DydRow) (frames : Nat) :
    Agrees dydList (endFilesWithin frames) endFiles := by
  cases frames with
  | zero => exact extends_of_giving
  | succ frames => exact (within_agrees dydList frames).endFiles

/-- A program that does not end for want of frames does what it does with frames without end. -/
theorem programWithin_eq_program {frames : Nat} {dydList : List DydRow}
    (goes : (programWithin frames dydList).1 ≠ .error .recursionError) :
    programWithin frames dydList = program dydList := by
  have main : outcome (invokeWithin frames .mainProcedure) (initState dydList) =
      runWithin frames dydList := rfl
  have unlimited : outcome (invoke (callDepth dydList) .mainProcedure) (initState dydList) =
      run dydList := rfl
  rw [programWithin, outcome_bind, main] at goes ⊢
  have same := @runWithin_eq_run dydList frames
  rw [program, outcome_bind, unlimited]
  rcases ended : runWithin frames dydList with ⟨raise | result, after⟩
  · rw [ended] at goes same
    rw [← same fun gives => goes (congrArg Except.error (Except.error.inj gives))]
  · rw [ended] at goes same
    rw [← same fun gives => by cases gives]
    exact (endFilesWithin_agrees after.dydList frames after rfl goes).1.symm

/-- No program ends for want of frames where there are frames for the calls, for the longest run
of line breaks and for the functions inside `identifier`. -/
theorem programWithin_enough {frames : Nat} {dydList : List DydRow}
    (ends : EndsInEof (dydList.map DydRow.code))
    (enough : callDepth dydList + longestRun dydList + 3 ≤ frames) :
    programWithin frames dydList = program dydList := by
  have main : outcome (invokeWithin frames .mainProcedure) (initState dydList) =
      run dydList := runWithin_enough enough
  have unlimited : outcome (invoke (callDepth dydList) .mainProcedure) (initState dydList) =
      run dydList := rfl
  have onward := run_onward dydList
  have left := onward.eofLeft (initState_endsInEof ends)
  have tokens := onward.tokens
  rw [programWithin, program, outcome_bind, outcome_bind, main, unlimited]
  generalize run dydList = ended at left tokens ⊢
  rcases ended with ⟨raise | result, after⟩
  · rfl
  · obtain ⟨fewer, rfl⟩ : ∃ fewer, frames = fewer + 1 := ⟨frames - 1, by omega⟩
    have room : longestRun dydList + 3 ≤ fewer := by
      have calls : 2 ≤ callDepth dydList := Nat.le_add_left _ _
      omega
    refine ((unlimited_agrees room).endFiles after tokens ?_).1
    rcases outcome_endFiles left with ⟨_, written, _⟩
    rw [written]
    intro gives
    cases gives

/-! ### The tokens of a text without its line breaks -/

def significant (text : List Char) : List (List Char × Int) :=
  strip ((lexMachine.output text).map fun row => ⟨row.1, row.2, []⟩)

theorem strip_append (first second : List DydRow) :
    strip (first ++ second) = strip first ++ strip second := by
  rw [strip, strip, strip, List.filter_append, List.map_append]

private theorem strip_rowsOf (source : List Char) :
    strip (rowsOf source) = significant source ++ [(['E', 'O', 'F'], eof)] := by
  rw [rowsOf, lexMain_printed, List.map_append, strip_append]
  rfl

private theorem significant_cut {word : Char} (breaks : word = ' ' ∨ word = '\n')
    (first second : List Char) :
    significant (first ++ [word] ++ second) = significant first ++ significant second := by
  have none : strip ((if word = ' ' then [] else [(['E', 'O', 'L', 'N'], 24)]).map
      fun row : List Char × Nat => ⟨row.1, row.2, []⟩) = [] := by
    rcases breaks with rfl | rfl
    · rfl
    · rfl
  rw [significant, Transducer.output_cut (break_cuts breaks) rfl shaped_step, List.map_append,
    List.map_append, strip_append, strip_append, none, List.append_nil]
  rfl

/-- Blanks and newlines, in any order and at least one. -/
structure IsGap (gap : List Char) : Prop where
  nonempty : gap ≠ []
  breaks : ∀ word ∈ gap, word = ' ' ∨ word = '\n'

private theorem significant_breaks {gap : List Char}
    (breaks : ∀ word ∈ gap, word = ' ' ∨ word = '\n')
    (text : List Char) : significant (gap ++ text) = significant text := by
  induction gap with
  | nil => rfl
  | cons word gap ih =>
      have cut := significant_cut (breaks word List.mem_cons_self) [] (gap ++ text)
      rw [List.cons_append]
      refine cut.trans ?_
      rw [ih fun other member => breaks other (List.mem_cons_of_mem word member)]
      rfl

private theorem significant_gap {gap : List Char} (isGap : IsGap gap) (first second : List Char) :
    significant (first ++ gap ++ second) = significant first ++ significant second := by
  cases gap with
  | nil => exact absurd rfl isGap.nonempty
  | cons word gap =>
      have regrouped : first ++ word :: gap ++ second = first ++ [word] ++ (gap ++ second) := by
        simp
      rw [regrouped, significant_cut (isGap.breaks word List.mem_cons_self),
        significant_breaks fun other member => isGap.breaks other (List.mem_cons_of_mem word member)]

def layOut (first : List Char) (pieces : List (List Char × List Char)) : List Char :=
  first ++ pieces.flatMap fun piece => piece.1 ++ piece.2

private theorem significant_layOut {pieces : List (List Char × List Char)}
    (gaps : ∀ piece ∈ pieces, IsGap piece.1) (first : List Char) :
    significant (layOut first pieces) =
      significant first ++ (pieces.map Prod.snd).flatMap significant := by
  induction pieces generalizing first with
  | nil => simp [layOut]
  | cons piece pieces ih =>
      have here := gaps piece List.mem_cons_self
      have later := ih (fun other member => gaps other (List.mem_cons_of_mem piece member)) piece.2
      have regrouped : layOut first (piece :: pieces) =
          first ++ piece.1 ++ layOut piece.2 pieces := by
        simp [layOut]
      rw [regrouped, significant_gap here, later, List.map_cons, List.flatMap_cons]

/-! ### The end of the files -/

theorem itemDict_le {word : List Char} {code : Nat} (listed : itemDict word = some code) :
    code ≤ 23 := by
  rcases List.lookup_eq_some_iff.mp listed with ⟨front, back, split, _⟩
  have every : ∀ item ∈ itemList, item.2 ≤ 23 := by decide
  exact every (word, code) (by rw [split]; simp)

theorem flushed_ne_eof (state : LexState) (temp : List Char) :
    ∀ row ∈ flushed state temp, row.2 ≠ 25 := by
  intro row member
  unfold flushed at member
  split at member
  · exact absurd member List.not_mem_nil
  split at member
  · rw [List.mem_singleton.mp member]
    cases listed : itemDict temp with
    | none =>
        intro same
        cases same
    | some code =>
        have small := itemDict_le listed
        intro same
        change code = 25 at same
        omega
  · rw [List.mem_singleton.mp member]
    intro same
    cases same
  · rename_i code _ _ listed
    have small := itemDict_le listed
    rw [List.mem_singleton.mp member]
    intro same
    change code = 25 at same
    omega
  · exact absurd member List.not_mem_nil

theorem Moves.ne_eof {state after : LexState} {temp rest : List Char} {c : Char}
    {rows : List (List Char × Nat)} (moves : Moves state temp c after rest rows) :
    ∀ row ∈ rows, row.2 ≠ 25 := by
  cases moves with
  | ignored => exact fun _ member => absurd member List.not_mem_nil
  | grown => exact fun _ member => absurd member List.not_mem_nil
  | closed => exact flushed_ne_eof _ _
  | begun => exact flushed_ne_eof _ _
  | blank => exact flushed_ne_eof _ _
  | dropped => exact flushed_ne_eof _ _
  | newline =>
      intro row member
      rcases List.mem_append.mp member with pending | last
      · exact flushed_ne_eof _ _ row pending
      · rw [List.mem_singleton.mp last]
        intro same
        cases same

/-- `lex.py` writes `EOF` once, at the end: no word of a source text has its code. -/
theorem rowsOf_endsInEof (source : List Char) : EndsInEof ((rowsOf source).map DydRow.code) := by
  refine ⟨(lexMachine.output source).map fun row => (row.2 : Int), ?_, ?_⟩
  · rw [rowsOf, lexMain_printed, List.map_append, List.map_append, List.map_map]
    rfl
  · intro member
    rcases List.mem_map.mp member with ⟨row, written, same⟩
    have never : row.2 ≠ 25 := by
      have every : ∀ other ∈ lexMachine.output source, other.2 ≠ 25 := by
        refine Transducer.output_forall shaped_step ?_ ?_ rfl source
        · intro pending word shaped other written
          rcases @next_moves (resumed pending) shaped word with ⟨rows, moves, printed⟩
          have here : other ∈ ((resumed pending).next word).printed := written
          rw [printed.printed] at here
          exact moves.ne_eof other here
        · exact fun pending _ => flushed_ne_eof pending.1 pending.2
      exact every row written
    exact never (Int.ofNat_inj.mp same)

theorem program_eq {dydList : List DydRow} (ends : EndsInEof (dydList.map DydRow.code)) :
    (program dydList).1 = ((run dydList).1.map fun _ => (run dydList).2.files) ∧
      (program dydList).2.procedureTable = (run dydList).2.procedureTable := by
  have left := (run_onward dydList).eofLeft (initState_endsInEof ends)
  have first : outcome (invoke (callDepth dydList) .mainProcedure) (initState dydList) =
      run dydList := rfl
  rw [program, outcome_bind, first]
  generalize run dydList = ended at left ⊢
  rcases ended with ⟨raise | result, after⟩
  · exact ⟨rfl, rfl⟩
  · rcases outcome_endFiles left with ⟨later, written, table⟩
    dsimp only
    rw [written]
    exact ⟨rfl, table⟩

/-! ### The results -/

/-- What the files show but for line numbers: the messages, and the text of the `.var` file. -/
def Files.shown (files : Files) : List Message × List Char := (files.err.map Prod.fst, files.var)

theorem Alike.shown {left right : State} (alike : Alike left right) :
    left.files.shown = right.files.shown := by
  refine Prod.ext alike.messages ?_
  simp only [Files.shown, Globals.files, alike.varTable]

private theorem program_shown {left right : List DydRow} (same : strip left = strip right)
    (leftEnds : EndsInEof (left.map DydRow.code)) (rightEnds : EndsInEof (right.map DydRow.code)) :
    (program left).1.map Files.shown = (program right).1.map Files.shown ∧
      (program left).2.procedureTable.map ProcedureRow.outline =
        (program right).2.procedureTable.map ProcedureRow.outline := by
  have start : Alike (initState left) (initState right) := ⟨same, rfl, rfl, rfl, rfl, rfl, rfl⟩
  have depth : callDepth left = callDepth right := by rw [callDepth, callDepth, same]
  have runs : Simulates Alike (invoke (callDepth left) .mainProcedure)
      (invoke (callDepth right) .mainProcedure) (initState left) (initState right) := by
    rw [depth]
    exact invoke_alike (callDepth right) .mainProcedure start
  rcases runs with ⟨ended, alike⟩
  change (run left).1 = (run right).1 at ended
  change Alike (run left).2 (run right).2 at alike
  rw [(program_eq leftEnds).1, (program_eq rightEnds).1, (program_eq leftEnds).2,
    (program_eq rightEnds).2, ended]
  refine ⟨?_, alike.procedures⟩
  cases (run right).1 with
  | error raise => rfl
  | ok result => exact congrArg Except.ok alike.shown

/-- Two texts of the same pieces with different gaps between them, on platforms of any line
ends: what `lab_parser.py` makes of them behind `lex.py` is the same up to line numbers, unless
it runs out of frames on one of them. Either the files show the same, or the parser ends in the
same exception. -/
theorem layout_does_not_matter (frames : Nat) (lineEnd lineEnd' : LineEnd) (first : List Char)
    (pieces pieces' : List (List Char × List Char)) (gaps : ∀ piece ∈ pieces, IsGap piece.1)
    (gaps' : ∀ piece ∈ pieces', IsGap piece.1)
    (same : pieces.map Prod.snd = pieces'.map Prod.snd) :
    ∃ left right, frontEnd frames lineEnd (layOut first pieces) = some left ∧
      frontEnd frames lineEnd' (layOut first pieces') = some right ∧
      (left.1 ≠ .error .recursionError → right.1 ≠ .error .recursionError →
        left.1.map Files.shown = right.1.map Files.shown ∧
          left.2.procedureTable.map ProcedureRow.outline =
            right.2.procedureTable.map ProcedureRow.outline) := by
  have tokens : strip (rowsOf (layOut first pieces)) = strip (rowsOf (layOut first pieces')) := by
    rw [strip_rowsOf, strip_rowsOf, significant_layOut gaps, significant_layOut gaps', same]
  refine ⟨_, _, frontEnd_eq _ _ _, frontEnd_eq _ _ _, fun leftGoes rightGoes => ?_⟩
  rw [programWithin_eq_program leftGoes, programWithin_eq_program rightGoes]
  exact program_shown tokens (rowsOf_endsInEof _) (rowsOf_endsInEof _)

private def oneLine : List (List Char × List Char) :=
  [([' '], "integer".toList), ([' '], "k;k:=".toList), ([' '], "m;end".toList)]

private def severalLines : List (List Char × List Char) :=
  [(['\n'], "integer".toList), ([' ', ' '], "k;k:=".toList), (['\n', ' ', '\n'], "m;end".toList)]

/-- A text on one line and the same text over several, in the frames that the interpreter has by
default. -/
theorem layout_of_two_lines : ∃ left right,
    frontEnd 999 .crlf (layOut "begin".toList oneLine) = some left ∧
      frontEnd 999 .lf (layOut "begin".toList severalLines) = some right ∧
      left.1.map Files.shown = right.1.map Files.shown ∧
      left.1.map (fun files => files.err.map Prod.fst) =
        .ok [.undefinedSymbol "m".toList, .branchEnd] := by
  have gap : ∀ gap ∈ [[' '], ['\n'], [' ', ' '], ['\n', ' ', '\n']], IsGap gap := by
    intro gap member
    have every : ∀ gap ∈ [[' '], ['\n'], [' ', ' '], ['\n', ' ', '\n']],
        gap ≠ [] ∧ gap.all (fun word => word = ' ' ∨ word = '\n') = true := by decide
    rcases every gap member with ⟨nonempty, blank⟩
    exact ⟨nonempty, fun word inside => of_decide_eq_true (List.all_eq_true.mp blank word inside)⟩
  have gaps : ∀ piece ∈ oneLine, IsGap piece.1 := by
    intro piece member
    refine gap piece.1 ?_
    simp only [oneLine, List.mem_cons, List.not_mem_nil, or_false] at member
    rcases member with rfl | rfl | rfl <;> decide
  have gaps' : ∀ piece ∈ severalLines, IsGap piece.1 := by
    intro piece member
    refine gap piece.1 ?_
    simp only [severalLines, List.mem_cons, List.not_mem_nil, or_false] at member
    rcases member with rfl | rfl | rfl <;> decide
  have oneRun : frontEnd 999 .crlf (layOut "begin".toList oneLine) =
      some (program (rowsOf (layOut "begin".toList oneLine))) := by
    rw [frontEnd_eq, programWithin_enough (rowsOf_endsInEof _) (by decide +kernel)]
  have twoRun : frontEnd 999 .lf (layOut "begin".toList severalLines) =
      some (program (rowsOf (layOut "begin".toList severalLines))) := by
    rw [frontEnd_eq, programWithin_enough (rowsOf_endsInEof _) (by decide +kernel)]
  have reported : (program (rowsOf (layOut "begin".toList oneLine))).1.map
      (fun files => files.err.map Prod.fst) = .ok [.undefinedSymbol "m".toList, .branchEnd] := by
    decide +kernel
  have goes : (program (rowsOf (layOut "begin".toList severalLines))).1 ≠
      .error .recursionError := by
    decide +kernel
  rcases layout_does_not_matter 999 .crlf .lf "begin".toList oneLine severalLines gaps gaps' rfl
    with ⟨left, right, one, two, shown⟩
  rw [oneRun] at one
  rw [twoRun] at two
  rw [← Option.some.inj one] at shown
  rw [← Option.some.inj two] at shown
  refine ⟨_, _, oneRun, twoRun, (shown ?_ goes).1, reported⟩
  intro gives
  rw [gives] at reported
  cases reported

def tokenCodes (source : List Char) : List Int :=
  ((reference source).map fun row => (row.2 : Int)).filter fun code => code ≠ eoln ∧ code ≠ eof

/-- The two programs return, and no message in the `.err` file is a syntax message. -/
def Compiles (frames : Nat) (lineEnd : LineEnd) (source : List Char) : Prop :=
  ∃ files state, frontEnd frames lineEnd source = some (.ok files, state) ∧
    ∀ row ∈ files.err, row.1.isUndefined = true

private theorem compiles_iff {frames : Nat} (lineEnd : LineEnd) {source : List Char}
    (goes : (programWithin frames (rowsOf source)).1 ≠ .error .recursionError) :
    Compiles frames lineEnd source ↔ Accepts (rowsOf source) := by
  rw [Compiles, frontEnd_eq, programWithin_eq_program goes]
  constructor
  · rintro ⟨files, state, ended, undefined⟩
    exact ⟨files, congrArg Prod.fst (Option.some.inj ended), undefined⟩
  · rintro ⟨files, ended, undefined⟩
    exact ⟨files, (program (rowsOf source)).2, congrArg some (Prod.ext ended rfl), undefined⟩

/-- From the text to the verdict: where no digit follows a letter directly, `=` stands behind
every `:` and `>` stands behind `<` only, the two programs accept a text of the alphabet exactly
if its tokens by the lexical rules begin with a program in which every `write` has the `;` behind
it, unless the parser runs out of frames. Otherwise there is a syntax message or an exception. -/
theorem compiles_iff_program (frames : Nat) (lineEnd : LineEnd) (source : List Char)
    (legal : ∀ c ∈ source, inAlphabet c = true) (colons : ColonsPaired source)
    (plain : PlainAfter ' ' source)
    (goes : ∀ ended, frontEnd frames lineEnd source = some ended →
      ended.1 ≠ .error .recursionError) :
    Compiles frames lineEnd source ↔
      ∃ program rest, tokenCodes source = program ++ rest ∧
        Derives [semicolonCode] .mainProcedure program := by
  have linked : Linked ' ' initLexer.state source := ⟨nofun, nofun, nofun⟩
  have printed : (lexMain source).printed = reference source :=
    printed_reference rfl linked legal colons plain
  have codes : sentence (rowsOf source) = tokenCodes source := by
    rw [sentence, rowsOf, printed, List.map_map]
    rfl
  rw [compiles_iff lineEnd (goes _ (frontEnd_eq frames lineEnd source)),
    accepts_iff_begins (rowsOf_endsInEof source), codes]

/-- A program that reads, over several lines, in the frames that the interpreter has by default. -/
theorem reading_program_compiles :
    let source := "begin\n integer k;\n read(k)\nend\n".toList
    Compiles 999 .crlf source ∧ ∃ program rest, tokenCodes source = program ++ rest ∧
      Derives [semicolonCode] .mainProcedure program := by
  intro source
  have enough : programWithin 999 (rowsOf source) = program (rowsOf source) :=
    programWithin_enough (rowsOf_endsInEof _) (by decide +kernel)
  have goes : (programWithin 999 (rowsOf source)).1 ≠ .error .recursionError := by
    rw [enough]
    decide +kernel
  have goesOn : ∀ ended, frontEnd 999 .crlf source = some ended →
      ended.1 ≠ .error .recursionError := by
    intro ended same
    rw [frontEnd_eq] at same
    rw [← Option.some.inj same]
    exact goes
  have compiles : Compiles 999 .crlf source := (compiles_iff .crlf goes).mpr (by decide +kernel)
  exact ⟨compiles, (compiles_iff_program 999 .crlf source (List.all_eq_true.mp (by decide))
    (by simp [source, ColonsPaired]) (by simp [source, PlainAfter, isLetter, isDigit])
    goesOn).mp compiles⟩

end OsCompiler.LabPy
