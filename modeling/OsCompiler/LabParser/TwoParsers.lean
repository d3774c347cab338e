/-
The parser `lab_parser.c` and the parser `lab_parser.py`, which are written for one
language: on which correct programs both give the same answer.

A derivation by the productions of the one is, code by code, a derivation by those of the
other. The one parser then fails at every function, the other one at every `write`.
-/

import OsCompiler.LabParser.Acceptance
import OsCompiler.LabPy.FrontEnd

namespace OsCompiler.LabParser

open OsCompiler.Action
open LabPy (DydRow itemDict itemList Derives identifierCode constantCode functionCode writeCode
  relationCodes eoln eof sentence EndsInEof)

/-! ### Entries and rows -/

def Entry.row (entry : Entry) : DydRow := ⟨entry.text.toList, entry.kind, []⟩

/-- The kind of an entry is the code that the table of `lex.py` gives to its text; a name or a
constant is not in the table. -/
structure Coded (entry : Entry) : Prop where
  line : entry.text = "EOLN" ↔ entry.kind = eoln
  named : entry.kind = identifierCode ∨ entry.kind = constantCode →
    itemDict entry.text.toList = none
  listed : entry.kind ∉ [identifierCode, constantCode, eoln] →
    ∃ code : Nat, itemDict entry.text.toList = some code ∧ entry.kind = code

variable {entry : Entry}

theorem Coded.kind_of_word {word : String} {code : Nat} (coded : Coded entry)
    (isWord : IsWord word entry) (table : itemDict word.toList = some code)
    (noLine : word ≠ "EOLN") : entry.kind = code := by
  have others : entry.kind ∉ [identifierCode, constantCode, eoln] := by
    simp only [List.mem_cons, List.not_mem_nil, or_false, not_or]
    exact ⟨isWord.noIdentifier, isWord.noConstant,
      fun line => noLine (isWord.text ▸ coded.line.mpr line)⟩
  rcases coded.listed others with ⟨found, listed, kind⟩
  rw [isWord.text, table] at listed
  rw [kind, Option.some.inj listed]

theorem Coded.kind_of_relation (coded : Coded entry) (isRelation : IsRelation entry) :
    entry.kind ∈ relationCodes := by
  have isWord : IsWord entry.text entry :=
    ⟨rfl, isRelation.noIdentifier, isRelation.noConstant⟩
  have table : ∀ text ∈ ["<", "<=", ">", ">=", "=", "<>"], text ≠ "EOLN" ∧
      ∃ code ∈ itemDict text.toList, (code : Int) ∈ relationCodes := by
    decide
  rcases table entry.text isRelation.text with ⟨noLine, code, listed, relation⟩
  rw [coded.kind_of_word isWord listed noLine]
  exact relation

theorem Coded.ne_eof (coded : Coded entry) : entry.kind ≠ eof := by
  intro last
  rcases coded.listed (by rw [last]; decide) with ⟨code, listed, kind⟩
  have bound := LabPy.itemDict_le listed
  rw [last] at kind
  change (25 : Int) = code at kind
  omega

theorem Coded.writes (coded : Coded entry) (text : entry.text = "write") :
    entry.kind = writeCode := by
  have table : itemDict entry.text.toList = some 9 := by rw [text]; rfl
  have others : entry.kind ∉ [identifierCode, constantCode, eoln] := by
    simp only [List.mem_cons, List.not_mem_nil, or_false]
    rintro (name | constant | line)
    · cases table.symm.trans (coded.named (Or.inl name))
    · cases table.symm.trans (coded.named (Or.inr constant))
    · exact absurd (text.symm.trans (coded.line.mpr line)) (by decide)
  rcases coded.listed others with ⟨code, listed, kind⟩
  rw [table] at listed
  rw [kind, ← Option.some.inj listed]
  rfl

/-- No other text than `write` has its code. -/
theorem Coded.text_of_write (coded : Coded entry) (writes : entry.kind = writeCode) :
    entry.text = "write" := by
  rcases coded.listed (by rw [writes]; decide) with ⟨code, listed, kind⟩
  have nine : code = 9 := by
    rw [writes] at kind
    exact Int.ofNat_inj.mp kind.symm
  subst nine
  rcases List.lookup_eq_some_iff.mp listed with ⟨front, back, split, _⟩
  have every : ∀ item ∈ itemList, item.2 = 9 → item.1 = "write".toList := by decide
  have same : entry.text.toList = "write".toList := by
    apply every (entry.text.toList, 9) _ rfl
    rw [split]
    exact List.mem_append_right front List.mem_cons_self
  exact String.toList_injective same

/-! ### From one grammar to the other -/

/-- The procedure of `lab_parser.py` for the same nonterminal. -/
def Procedure.counterpart : Procedure → LabPy.Procedure
  | .A => .mainProcedure
  | .B => .branchProcedure
  | .C => .declareStatementTable
  | .C_ => .declareStatementTableA
  | .D => .declareStatement
  | .E => .varDeclare
  | .F => .var .use 0
  | .G => .var .define 0
  | .J => .funcDeclare
  | .K => .parameter
  | .L => .funcBody
  | .M => .execStatementTable
  | .M_ => .execStatementTableA
  | .N => .execStatement
  | .O => .readStatement
  | .P => .writeStatement
  | .Q => .assignStatement
  | .R => .mathExpression
  | .R_ => .mathExpressionA
  | .S => .item
  | .S_ => .itemA
  | .T => .factor
  | .U => .unsignedInteger
  | .W => .conditionStatement
  | .X => .conditionExpression
  | .Y => .relationOperator
  | .Z => .funcCall

def codes (word : List Entry) : List Int := word.map Entry.kind

theorem codes_append (first second : List Entry) :
    codes (first ++ second) = codes first ++ codes second :=
  List.map_append

theorem codes_cons (first : Entry) (rest : List Entry) :
    codes (first :: rest) = first.kind :: codes rest := rfl

theorem codes_nil : codes [] = [] := rfl

theorem Executes.derives {scope : Scope} {procedure : Procedure} {word : List Entry}
    (executes : Executes scope procedure word) (coded : ∀ entry ∈ word, Coded entry) :
    Derives [] procedure.counterpart (codes word) := by
  induction executes with
  | M _ _ ihFirst ihRest =>
      rw [List.forall_mem_append] at coded
      rw [codes_append]
      exact .stmts (ihFirst coded.1) (ihRest coded.2)
  | M_next sign _ _ ihFirst ihRest =>
      rw [List.forall_mem_cons, List.forall_mem_append] at coded
      rw [codes_cons, codes_append, coded.1.kind_of_word sign rfl (by decide)]
      exact .stmtsMore (ihFirst coded.2.1) (ihRest coded.2.2)
  | M_empty => exact .stmtsEnd
  | N_O _ ih => exact .stmtRead (ih coded)
  | N_P _ ih => exact .stmtWrite (ih coded)
  | N_Q _ ih => exact .stmtAssign (ih coded)
  | N_W _ ih => exact .stmtIf (ih coded)
  | O first opening identifier _ closing =>
      simp only [List.forall_mem_cons] at coded
      rcases coded with ⟨codedFirst, codedOpening, _, codedClosing, _⟩
      simp only [codes_cons, codes_nil, identifier.kind, codedFirst.kind_of_word first rfl (by decide),
        codedOpening.kind_of_word opening rfl (by decide),
        codedClosing.kind_of_word closing rfl (by decide)]
      exact .read (.var _ _)
  | P first opening identifier _ closing =>
      simp only [List.forall_mem_cons] at coded
      rcases coded with ⟨codedFirst, codedOpening, _, codedClosing, _⟩
      simp only [codes_cons, codes_nil, identifier.kind, codedFirst.kind_of_word first rfl (by decide),
        codedOpening.kind_of_word opening rfl (by decide),
        codedClosing.kind_of_word closing rfl (by decide)]
      exact .write (.var _ _)
  | Q identifier _ sign _ ih =>
      simp only [List.forall_mem_cons] at coded
      rw [codes_cons, codes_cons, identifier.kind, coded.2.1.kind_of_word sign rfl (by decide)]
      exact .assign (.var _ _) (ih coded.2.2)
  | R _ _ ihFirst ihRest =>
      rw [List.forall_mem_append] at coded
      rw [codes_append]
      exact .expr (ihFirst coded.1) (ihRest coded.2)
  | R_minus sign _ _ ihFirst ihRest =>
      rw [List.forall_mem_cons, List.forall_mem_append] at coded
      rw [codes_cons, codes_append, coded.1.kind_of_word sign rfl (by decide)]
      exact .exprMore (ihFirst coded.2.1) (ihRest coded.2.2)
  | R_empty => exact .exprEnd
  | S _ _ ihFirst ihRest =>
      rw [List.forall_mem_append] at coded
      rw [codes_append]
      exact .item (ihFirst coded.1) (ihRest coded.2)
  | S_times sign _ _ ihFirst ihRest =>
      rw [List.forall_mem_cons, List.forall_mem_append] at coded
      rw [codes_cons, codes_append, coded.1.kind_of_word sign rfl (by decide)]
      exact .itemMore (ihFirst coded.2.1) (ihRest coded.2.2)
  | S_empty => exact .itemEnd
  | T_F identifier _ =>
      rw [codes_cons, codes_nil, identifier.kind]
      exact .factorVar (.var _ _)
  | T_U number =>
      rw [codes_cons, codes_nil, number.kind]
      exact .factorConstant (.constant .unsignedInteger)
  | T_Z _ ih => exact .factorCall (ih coded)
  | W first _ second _ third _ ihTest ihTrue ihFalse =>
      simp only [List.forall_mem_cons, List.forall_mem_append] at coded
      rcases coded with ⟨codedIf, test, codedThen, yes, codedElse, no⟩
      rw [codes_cons, codes_append, codes_cons, codes_append, codes_cons,
        codedIf.kind_of_word first rfl (by decide), codedThen.kind_of_word second rfl (by decide),
        codedElse.kind_of_word third rfl (by decide)]
      exact .condition (ihTest test) (ihTrue yes) (ihFalse no)
  | X _ sign _ ihFirst ihSecond =>
      rw [List.forall_mem_append, List.forall_mem_cons] at coded
      rw [codes_append, codes_cons]
      exact .compare (ihFirst coded.1) (.operator (coded.2.1.kind_of_relation sign))
        (ihSecond coded.2.2)
  | Z identifier _ opening _ closing ih =>
      simp only [List.forall_mem_cons, List.forall_mem_append] at coded
      rcases coded with ⟨_, codedOpening, argument, codedClosing, _⟩
      rw [codes_cons, codes_cons, codes_append, codes_cons, codes_nil, identifier.kind,
        codedOpening.kind_of_word opening rfl (by decide),
        codedClosing.kind_of_word closing rfl (by decide)]
      exact .call (ih argument)

theorem Declares.derives {before after : Scope} {procedure : Procedure} {word : List Entry}
    (declares : Declares before procedure word after) (coded : ∀ entry ∈ word, Coded entry) :
    Derives [] procedure.counterpart (codes word) := by
  induction declares with
  | A _ ih => exact .program (ih coded)
  | B first _ sign executes last ih =>
      simp only [List.forall_mem_cons, List.forall_mem_append] at coded
      rcases coded with ⟨codedBegin, declarations, codedSign, statements, codedEnd, _⟩
      rw [codes_cons, codes_append, codes_cons, codes_append, codes_cons, codes_nil,
        codedBegin.kind_of_word first rfl (by decide), codedSign.kind_of_word sign rfl (by decide),
        codedEnd.kind_of_word last rfl (by decide)]
      exact .branch (ih declarations) (executes.derives statements)
  | C _ _ ihFirst ihRest =>
      rw [List.forall_mem_append] at coded
      rw [codes_append]
      exact .decls (ihFirst coded.1) (ihRest coded.2)
  | C_next sign _ _ ihFirst ihRest =>
      rw [List.forall_mem_cons, List.forall_mem_append] at coded
      rw [codes_cons, codes_append, coded.1.kind_of_word sign rfl (by decide)]
      exact .declsMore (ihFirst coded.2.1) (ihRest coded.2.2)
  | C_empty => exact .declsEnd
  | D_E _ ih => exact .declVar (ih coded)
  | D_J _ ih => exact .declFunction (ih coded)
  | E type identifier _ =>
      simp only [List.forall_mem_cons] at coded
      rw [codes_cons, codes_cons, codes_nil, identifier.kind,
        coded.1.kind_of_word type rfl (by decide)]
      exact .varDeclare (.var _ _)
  | J type word identifier _ opening formal closing sign _ _ ih =>
      simp only [List.forall_mem_cons] at coded
      rcases coded with ⟨codedType, codedWord, _, codedOpening, _, codedClosing, codedSign, body⟩
      simp only [codes_cons, identifier.kind, formal.kind,
        codedType.kind_of_word type rfl (by decide), codedWord.kind_of_word word rfl (by decide),
        codedOpening.kind_of_word opening rfl (by decide),
        codedClosing.kind_of_word closing rfl (by decide),
        codedSign.kind_of_word sign rfl (by decide)]
      exact .funcDeclare (.parameter (.var _ _)) (ih body)
  | L first _ sign executes last ih =>
      simp only [List.forall_mem_cons, List.forall_mem_append] at coded
      rcases coded with ⟨codedBegin, declarations, codedSign, statements, codedEnd, _⟩
      rw [codes_cons, codes_append, codes_cons, codes_append, codes_cons, codes_nil,
        codedBegin.kind_of_word first rfl (by decide), codedSign.kind_of_word sign rfl (by decide),
        codedEnd.kind_of_word last rfl (by decide)]
      exact .funcBody (ih declarations) (executes.derives statements)

/-! ### One program for both parsers -/

def endOfFile : Entry := ⟨"EOF", 25⟩

def rows (program : List Entry) : List DydRow := (program ++ [endOfFile]).map Entry.row

section Agreement

variable {program : List Entry}

private theorem rows_codes (program : List Entry) :
    (rows program).map DydRow.code = codes program ++ [eof] := by
  rw [rows, List.map_map, List.map_append]
  rfl

private theorem rows_endsInEof (coded : ∀ entry ∈ program, Coded entry) :
    EndsInEof ((rows program).map DydRow.code) := by
  refine ⟨codes program, rows_codes program, ?_⟩
  intro member
  rcases List.mem_map.mp member with ⟨entry, inside, last⟩
  exact (coded entry inside).ne_eof last

private theorem sentence_rows (coded : ∀ entry ∈ program, Coded entry) :
    sentence (rows program) = codes (program.filter notLine) := by
  have last : [eof].filter (fun code => decide (code ≠ eoln ∧ code ≠ eof)) = [] := rfl
  rw [sentence, rows_codes, List.filter_append, last, List.append_nil, codes, codes,
    List.filter_map]
  congr 1
  refine List.filter_congr fun entry member => ?_
  have line := (coded entry member).line
  have inside := (coded entry member).ne_eof
  simp [notLine, line, inside]

theorem CorrectProgram.documented {behind : List Entry} (correct : CorrectProgram program behind)
    (coded : ∀ entry ∈ program, Coded entry) :
    Derives [] .mainProcedure (sentence (rows program)) := by
  rcases correct.derives with ⟨scope, declares⟩
  rw [sentence_rows coded]
  exact declares.derives fun entry member => coded entry (List.mem_filter.mp member).1

private theorem writeCode_mem_sentence (coded : ∀ entry ∈ program, Coded entry) :
    writeCode ∈ sentence (rows program) ↔ ∃ entry ∈ program, entry.text = "write" := by
  rw [sentence_rows coded, codes, List.mem_map]
  constructor
  · rintro ⟨entry, inside, kind⟩
    have member := (List.mem_filter.mp inside).1
    exact ⟨entry, member, (coded entry member).text_of_write kind⟩
  · rintro ⟨entry, member, text⟩
    refine ⟨entry, List.mem_filter.mpr ⟨member, ?_⟩, (coded entry member).writes text⟩
    rw [notLine, text]
    rfl

/-- `lab_parser.py` accepts a program of the grammar exactly where it does not write. -/
theorem accepts_rows_iff (coded : ∀ entry ∈ program, Coded entry)
    (documented : Derives [] .mainProcedure (sentence (rows program))) :
    LabPy.Accepts (rows program) ↔ ¬ ∃ entry ∈ program, entry.text = "write" := by
  rw [LabPy.accepts_iff_begins (rows_endsInEof coded), ← writeCode_mem_sentence coded]
  constructor
  · rintro ⟨front, rest, split, derived⟩
    rw [split] at documented ⊢
    rcases documented.documented_prefix derived with ⟨silent, rfl⟩
    rw [List.append_nil]
    exact silent
  · intro silent
    exact ⟨_, [], (List.append_nil _).symm, documented.change_writeEnd silent⟩

theorem CorrectProgram.accepts_iff_noFunction {behind : List Entry}
    (correct : CorrectProgram program behind) :
    Accepts (program ++ behind) program.length ↔
      ¬ ∃ entry ∈ program, entry.text = "function" := by
  constructor
  · rintro ⟨depth, after, run, errors, _⟩ ⟨entry, member, function⟩
    have notPlain : ¬ Plain (program.filter notLine) := by
      intro plain
      refine plain entry (List.mem_filter.mpr ⟨member, ?_⟩) function
      rw [notLine, function]
      rfl
    have reported : Reported after := (wp_of_outcome run).mp (correct.reports notPlain depth)
    exact reported errors
  · intro plain
    exact correct.accepts fun entry member function => plain ⟨entry, member, function⟩

/-- A correct program of `lab_parser.c` is a documented one of `lab_parser.py`; the two parsers
give the same answer exactly if it has both a function and a `write` or neither. -/
theorem parsers_agree_iff (coded : ∀ entry ∈ program, Coded entry)
    (correct : CorrectProgram program [endOfFile]) :
    Derives [] .mainProcedure (sentence (rows program)) ∧
      ((Accepts (program ++ [endOfFile]) program.length ↔ LabPy.Accepts (rows program)) ↔
        ((∃ entry ∈ program, entry.text = "function") ↔
          ∃ entry ∈ program, entry.text = "write")) := by
  have documented := correct.documented coded
  refine ⟨documented, ?_⟩
  rw [correct.accepts_iff_noFunction, accepts_rows_iff coded documented]
  exact not_iff_not

private theorem coded_readProgram : ∀ entry ∈ readProgram, Coded entry := by
  have checked : ∀ entry ∈ readProgram,
      (entry.text = "EOLN" ↔ entry.kind = eoln) ∧
        (entry.kind = identifierCode ∨ entry.kind = constantCode →
          itemDict entry.text.toList = none) ∧
        (entry.kind ∉ [identifierCode, constantCode, eoln] →
          (itemDict entry.text.toList).map Int.ofNat = some entry.kind) := by
    decide
  intro entry member
  rcases checked entry member with ⟨line, named, listed⟩
  refine ⟨line, named, fun others => ?_⟩
  rcases Option.map_eq_some_iff.mp (listed others) with ⟨code, found, kind⟩
  exact ⟨code, found, kind.symm⟩

/-- Neither a function nor a `write`: both parsers accept. -/
theorem parsers_agree_readProgram :
    Derives [] .mainProcedure (sentence (rows readProgram)) ∧
      Accepts (readProgram ++ [endOfFile]) readProgram.length ∧
        LabPy.Accepts (rows readProgram) := by
  obtain ⟨documented, agree⟩ := parsers_agree_iff coded_readProgram correct_readProgram
  have neither : (∃ entry ∈ readProgram, entry.text = "function") ↔
      ∃ entry ∈ readProgram, entry.text = "write" := by decide
  have accepted : LabPy.Accepts (rows readProgram) := by decide +kernel
  exact ⟨documented, (agree.mpr neither).mpr accepted, accepted⟩

end Agreement

end OsCompiler.LabParser
