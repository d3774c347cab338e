/-
What `lab_parser.py` accepts: `main_procedure` and `end_files` return and the `.err` file
has no syntax message.

The parser accepts a token list exactly if it begins with a program in which every `write`
has the `;` that `write_statement` reads: `end_files` looks for `EOF` when the files are
written. So documented programs are accepted unless they write, and what else is accepted
writes or has something behind the program.
-/

import OsCompiler.LabPy.Recognizer

namespace OsCompiler.LabPy

open OsCompiler.TextLines OsCompiler.Action OsCompiler.Balance

/-! ### The files -/

def nameText (name : Option (List Char)) : List Char := name.getD "None".toList

def VarRow.text (row : VarRow) : List Char :=
  [nameText row.name, nameText row.procedure, decimal row.isFormal, row.type.toList,
    (toString row.level).toList, decimal row.address].flatMap fun field => field ++ [' ']

def ProcedureRow.text (row : ProcedureRow) : List Char :=
  [nameText row.name, row.type.toList, (toString row.level).toList, (toString row.firstLine).toList,
    (toString row.lastLine).toList].flatMap fun field => field ++ [' ']

def errText (errTXT : List (Message × Nat)) : List Char :=
  errTXT.flatMap fun row => row.1.text ++ " Line:".toList ++ decimal row.2 ++ ['\n']

/-- What `end_files` writes; the `.err` file has the text of `err`. -/
structure Files where
  err : List (Message × Nat)
  var : List Char
  pro : List Char
  deriving DecidableEq

def Globals.files (globals : Globals) : Files where
  err := globals.errTXT
  var := "变量名 所属过程 分类 变量类型 变量层次 相对位置\n".toList ++
    globals.varTable.flatMap fun row => row.text ++ ['\n']
  pro := "过程名 过程类型 层次 起始行数 结束行数\n".toList ++
    globals.procedureTable.flatMap fun row => row.text ++ ['\n']

def expectEof [Inspections] : Parser Unit := do
  if (← currentCode) ≠ eof then
    errPrint .notFinished
  else
    pure ()

/-- The files are written before the test. -/
def endFiles [Inspections] : Parser Files := do
  let globals ← get
  expectEof
  pure globals.files

def program (dydList : List DydRow) : Except Raise Files × State :=
  outcome (do invoke (callDepth dydList) .mainProcedure; endFiles) (initState dydList)

/-- Nothing raises, and every message in the `.err` file is about an undefined symbol. -/
def Accepts (dydList : List DydRow) : Prop :=
  ∃ files, (program dydList).1 = .ok files ∧ ∀ row ∈ files.err, row.1.isUndefined = true

instance (dydList : List DydRow) : Decidable (Accepts dydList) :=
  match ended : (program dydList).1 with
  | .ok files =>
      decidable_of_iff (∀ row ∈ files.err, row.1.isUndefined = true) <| by
        simp [Accepts, ended]
  | .error raise => .isFalse (by simp [Accepts, ended])

def sentence (dydList : List DydRow) : List Int :=
  (dydList.map DydRow.code).filter fun code => code ≠ eoln ∧ code ≠ eof

theorem initState_codes {dydList : List DydRow} (ends : EndsInEof (dydList.map DydRow.code)) :
    (initState dydList).codes = sentence dydList ++ [eof] := by
  have codes : (initState dydList).codes = (strip dydList).map Prod.snd := rfl
  rcases ends with ⟨front, same, fresh⟩
  rw [codes, codes_strip, sentence, same, List.filter_append, List.filter_append]
  have kept : front.filter (fun code => decide (code ≠ eoln)) =
      front.filter fun code => decide (code ≠ eoln ∧ code ≠ eof) := by
    refine List.filter_congr fun code member => ?_
    have notLast : code ≠ eof := fun last => fresh (last ▸ member)
    simp [notLast]
  have last : [eof].filter (fun code => decide (code ≠ eoln)) = [eof] := rfl
  have none : [eof].filter (fun code => decide (code ≠ eoln ∧ code ≠ eof)) = [] := rfl
  rw [kept, last, none, List.append_nil]

theorem outcome_endFiles {state : State} (ends : EndsInEof state.codes) :
    ∃ after, outcome endFiles state = (.ok state.files, after) ∧
      after.procedureTable = state.procedureTable := by
  have nonempty : state.ahead ≠ [] := fun none => ends.ne_nil (Globals.codes_of_ahead none)
  rcases List.exists_cons_of_ne_nil nonempty with ⟨token, rest, ahead⟩
  have found := (outcome_currentCode ahead).1
  simp only [endFiles, expectEof, outcome_bind, outcome_get, found]
  by_cases more : token.2 ≠ eof
  · rw [if_pos more]
    exact ⟨_, rfl, rfl⟩
  · rw [if_neg more]
    exact ⟨_, rfl, rfl⟩

/-- In front of `EOF` the files have what `main_procedure` leaves if it returns. -/
theorem program_eq_ok_iff {dydList : List DydRow} (ends : EndsInEof (dydList.map DydRow.code))
    {files : Files} :
    (program dydList).1 = .ok files ↔
      (run dydList).1 = .ok () ∧ (run dydList).2.files = files := by
  have left := (run_onward dydList).eofLeft (initState_endsInEof ends)
  have first : outcome (invoke (callDepth dydList) .mainProcedure) (initState dydList) =
      run dydList := rfl
  rw [program, outcome_bind, first]
  generalize run dydList = ended at left ⊢
  rcases ended with ⟨raise | result, after⟩
  · simp
  · rcases outcome_endFiles left with ⟨_, written, _⟩
    simp [written]

/-! ### What is accepted -/

theorem syntaxErrors_eq_nil_iff {globals : Globals} :
    globals.syntaxErrors = [] ↔ ∀ row ∈ globals.errTXT, row.1.isUndefined = true := by
  simp [Globals.syntaxErrors, List.filter_eq_nil_iff]

/-- What stands behind a program of the procedures is not looked at. -/
theorem accepts_iff_begins {dydList : List DydRow} (ends : EndsInEof (dydList.map DydRow.code)) :
    Accepts dydList ↔
      ∃ program rest, sentence dydList = program ++ rest ∧
        Derives [semicolonCode] .mainProcedure program := by
  have codes := initState_codes ends
  constructor
  · rintro ⟨files, written, undefined⟩
    rcases (program_eq_ok_iff ends).mp written with ⟨returned, rfl⟩
    have reads := (wp_iff_outcome.mp (invoke_reads (callDepth dydList) .mainProcedure
      (initState dydList) (Context.holds_none _ _))).1 () returned
    rcases reads.consumed (syntaxErrors_eq_nil_iff.mpr undefined) with ⟨program, derived, read⟩
    rcases (run_onward dydList).eofLeft (initState_endsInEof ends) with ⟨rest, left, -⟩
    have whole : sentence dydList ++ [eof] = program ++ rest ++ [eof] := by
      rw [← codes, read, List.append_assoc, ← left]
      rfl
    exact ⟨program, rest, List.append_cancel_right whole, derived⟩
  · rintro ⟨program, rest, split, derived⟩
    have before : (initState dydList).codes = program ++ (rest ++ [eof]) := by
      rw [codes, split, List.append_assoc]
    have takes := wp_iff_outcome.mp (derived.consumed (callDepth dydList) (rest ++ [eof]) trivial
      (initState dydList) (Context.holds_none true _) before)
    cases returned : (run dydList).1 with
    | error raise =>
        have deep := takes.2 raise returned
        rw [deep] at returned
        exact absurd returned (run_ne_recursionError dydList)
    | ok result =>
        refine ⟨_, (program_eq_ok_iff ends).mpr ⟨returned, rfl⟩, ?_⟩
        exact syntaxErrors_eq_nil_iff.mp (takes.1 () returned).2

/-- A documented program begins with a program of the procedures only if it is one itself and
does not write. -/
theorem Derives.documented_prefix {program rest : List Int}
    (documented : Derives [] .mainProcedure (program ++ rest))
    (derived : Derives [semicolonCode] .mainProcedure program) :
    writeCode ∉ program ∧ rest = [] := by
  have silent : writeCode ∉ program := by
    intro writes
    have crowded : Crowded program := derived.marked writes
    exact documented.separated.not_crowded (crowded.append_left rest)
  exact ⟨silent, (derived.change_writeEnd silent).prefix_free balanced_nil documented⟩

/-- Exactly the documented programs are accepted, except that a documented program that writes
is not and that a program which has the `;` of `write_statement` behind every `write` is, if it
writes or has something behind it. -/
theorem accepts_iff_documented_iff {dydList : List DydRow}
    (ends : EndsInEof (dydList.map DydRow.code)) :
    (Accepts dydList ↔ Derives [] .mainProcedure (sentence dydList)) ↔
      ¬(Derives [] .mainProcedure (sentence dydList) ∧ writeCode ∈ sentence dydList) ∧
        ¬∃ program rest, sentence dydList = program ++ rest ∧
          Derives [semicolonCode] .mainProcedure program ∧ (writeCode ∈ program ∨ rest ≠ []) := by
  rw [accepts_iff_begins ends]
  constructor
  · intro same
    constructor
    · rintro ⟨documented, writes⟩
      rcases same.mpr documented with ⟨program, rest, split, derived⟩
      rw [split] at documented writes
      rcases documented.documented_prefix derived with ⟨silent, rfl⟩
      exact silent (List.append_nil program ▸ writes)
    · rintro ⟨program, rest, split, derived, more⟩
      have documented := same.mp ⟨program, rest, split, derived⟩
      rw [split] at documented
      rcases documented.documented_prefix derived with ⟨silent, alone⟩
      rcases more with writes | behind
      · exact silent writes
      · exact behind alone
  · rintro ⟨quiet, others⟩
    constructor
    · rintro ⟨program, rest, split, derived⟩
      have silent : writeCode ∉ program :=
        fun writes => others ⟨program, rest, split, derived, .inl writes⟩
      have alone : rest = [] := by
        by_contra behind
        exact others ⟨program, rest, split, derived, .inr behind⟩
      rw [split, alone, List.append_nil]
      exact derived.change_writeEnd silent
    · intro documented
      have silent : writeCode ∉ sentence dydList := fun writes => quiet ⟨documented, writes⟩
      exact ⟨sentence dydList, [], (List.append_nil _).symm, documented.change_writeEnd silent⟩

/-- A documented program without a `write`: it is accepted, and no program that it begins with
leaves a rest. -/
theorem accepts_iff_documented_iff_read :
    let dydList := tokensOf "begin integer k;read(k)end"
    Accepts dydList ∧ Derives [] .mainProcedure (sentence dydList) ∧
      ¬∃ program rest, sentence dydList = program ++ rest ∧
        Derives [semicolonCode] .mainProcedure program ∧ (writeCode ∈ program ∨ rest ≠ []) := by
  intro dydList
  have accepted : Accepts dydList := by decide +kernel
  have codes : sentence dydList = [beginCode, integerCode, identifierCode, semicolonCode,
      readCode, leftBraketCode, identifierCode, rightBraketCode, endCode] := by
    decide +kernel
  have documented : Derives [] .mainProcedure (sentence dydList) := by
    rw [codes]
    exact .program (.branch (.decls (.declVar (.varDeclare (.var _ _))) .declsEnd)
      (.stmts (.stmtRead (.read (.var _ _))) .stmtsEnd))
  refine ⟨accepted, documented, ?_⟩
  exact ((accepts_iff_documented_iff (by decide +kernel)).mp
    (iff_of_true accepted documented)).2

/-- A documented program whose last statement writes. -/
theorem documented_write_not_accepted :
    ¬∀ dydList : List DydRow, EndsInEof (dydList.map DydRow.code) →
      (Accepts dydList ↔ Derives [] .mainProcedure (sentence dydList)) := by
  intro accepts
  have same := accepts (tokensOf "begin integer k;write(k)end") (by decide +kernel)
  have codes : sentence (tokensOf "begin integer k;write(k)end") =
      [beginCode, integerCode, identifierCode, semicolonCode, writeCode, leftBraketCode,
        identifierCode, rightBraketCode, endCode] := by
    decide +kernel
  have documented : Derives [] .mainProcedure
      (sentence (tokensOf "begin integer k;write(k)end")) := by
    rw [codes]
    exact .program (.branch (.decls (.declVar (.varDeclare (.var _ _))) .declsEnd)
      (.stmts (.stmtWrite (.write (.var _ _))) .stmtsEnd))
  have rejected : ¬Accepts (tokensOf "begin integer k;write(k)end") := by decide +kernel
  exact rejected (same.mpr documented)

/-- A `;` in front of `end`, a second `end`, and what is written about an undefined symbol. -/
example : Accepts (tokensOf "begin integer k;write(k);end") ∧
    Accepts (tokensOf "begin integer k;read(k)end end") ∧
    (program (tokensOf "begin integer k;read(j)end")).1.map (fun files => errText files.err) =
      .ok "符号j无定义 Line:1\n".toList := by
  decide +kernel

end OsCompiler.LabPy
