/-
The productions in the docstrings of `lab_parser.py` and in comments there, with the
procedures as nonterminals and token codes as terminals.

`write_statement` reads a `;` that its production does not have. The grammar therefore
has what stands behind `write(id)` as a parameter: nothing as documented, `;` as the
procedure has it. Neighbouring codes tell the two languages apart as soon as a `write`
occurs, and no program is the beginning of another one.
-/

import Mathlib.Data.List.Chain
import OsCompiler.Lib.Balance
import OsCompiler.LabPy.LabParser

namespace OsCompiler.LabPy

open OsCompiler.Balance

def relationCodes : List Int := [15, 14, 17, 16, 12, 13]

/-- `writeEnd` stands behind the variable of a `write` statement. -/
inductive Derives (writeEnd : List Int) : Procedure → List Int → Prop
  | program {block : List Int} (derived : Derives writeEnd .branchProcedure block) :
      Derives writeEnd .mainProcedure block
  | branch {decls stmts : List Int} (declared : Derives writeEnd .declareStatementTable decls)
      (executed : Derives writeEnd .execStatementTable stmts) :
      Derives writeEnd .branchProcedure
        (beginCode :: (decls ++ semicolonCode :: (stmts ++ [endCode])))
  | decls {decl more : List Int} (first : Derives writeEnd .declareStatement decl)
      (others : Derives writeEnd .declareStatementTableA more) :
      Derives writeEnd .declareStatementTable (decl ++ more)
  | declsEnd : Derives writeEnd .declareStatementTableA []
  | declsMore {decl more : List Int} (first : Derives writeEnd .declareStatement decl)
      (others : Derives writeEnd .declareStatementTableA more) :
      Derives writeEnd .declareStatementTableA (semicolonCode :: (decl ++ more))
  | declVar {decl : List Int} (derived : Derives writeEnd .varDeclare decl) :
      Derives writeEnd .declareStatement decl
  | declFunction {decl : List Int} (derived : Derives writeEnd .funcDeclare decl) :
      Derives writeEnd .declareStatement decl
  | varDeclare {name : List Int} (named : Derives writeEnd (.var .define 0) name) :
      Derives writeEnd .varDeclare (integerCode :: name)
  | var (defineOrUse : DefineOrUse) (isFormal : Nat) :
      Derives writeEnd (.var defineOrUse isFormal) [identifierCode]
  | funcDeclare {parameter body : List Int} (formal : Derives writeEnd .parameter parameter)
      (derived : Derives writeEnd .funcBody body) :
      Derives writeEnd .funcDeclare
        (integerCode :: functionCode :: identifierCode :: leftBraketCode ::
          (parameter ++ rightBraketCode :: semicolonCode :: body))
  | parameter {name : List Int} (named : Derives writeEnd (.var .define 1) name) :
      Derives writeEnd .parameter name
  | funcBody {decls stmts : List Int} (declared : Derives writeEnd .declareStatementTable decls)
      (executed : Derives writeEnd .execStatementTable stmts) :
      Derives writeEnd .funcBody
        (beginCode :: (decls ++ semicolonCode :: (stmts ++ [endCode])))
  | stmts {stmt more : List Int} (first : Derives writeEnd .execStatement stmt)
      (others : Derives writeEnd .execStatementTableA more) :
      Derives writeEnd .execStatementTable (stmt ++ more)
  | stmtsEnd : Derives writeEnd .execStatementTableA []
  | stmtsMore {stmt more : List Int} (first : Derives writeEnd .execStatement stmt)
      (others : Derives writeEnd .execStatementTableA more) :
      Derives writeEnd .execStatementTableA (semicolonCode :: (stmt ++ more))
  | stmtRead {stmt : List Int} (derived : Derives writeEnd .readStatement stmt) :
      Derives writeEnd .execStatement stmt
  | stmtWrite {stmt : List Int} (derived : Derives writeEnd .writeStatement stmt) :
      Derives writeEnd .execStatement stmt
  | stmtIf {stmt : List Int} (derived : Derives writeEnd .conditionStatement stmt) :
      Derives writeEnd .execStatement stmt
  | stmtAssign {stmt : List Int} (derived : Derives writeEnd .assignStatement stmt) :
      Derives writeEnd .execStatement stmt
  | read {name : List Int} (named : Derives writeEnd (.var .use 0) name) :
      Derives writeEnd .readStatement
        (readCode :: leftBraketCode :: (name ++ [rightBraketCode]))
  | write {name : List Int} (named : Derives writeEnd (.var .use 0) name) :
      Derives writeEnd .writeStatement
        (writeCode :: leftBraketCode :: (name ++ rightBraketCode :: writeEnd))
  | assign {name expr : List Int} (named : Derives writeEnd (.var .use 0) name)
      (value : Derives writeEnd .mathExpression expr) :
      Derives writeEnd .assignStatement (name ++ 20 :: expr)
  | expr {item more : List Int} (first : Derives writeEnd .item item)
      (others : Derives writeEnd .mathExpressionA more) :
      Derives writeEnd .mathExpression (item ++ more)
  | exprEnd : Derives writeEnd .mathExpressionA []
  | exprMore {item more : List Int} (first : Derives writeEnd .item item)
      (others : Derives writeEnd .mathExpressionA more) :
      Derives writeEnd .mathExpressionA (18 :: (item ++ more))
  | item {factor more : List Int} (first : Derives writeEnd .factor factor)
      (others : Derives writeEnd .itemA more) : Derives writeEnd .item (factor ++ more)
  | itemEnd : Derives writeEnd .itemA []
  | itemMore {factor more : List Int} (first : Derives writeEnd .factor factor)
      (others : Derives writeEnd .itemA more) : Derives writeEnd .itemA (19 :: (factor ++ more))
  | factorVar {name : List Int} (named : Derives writeEnd (.var .use 0) name) :
      Derives writeEnd .factor name
  | factorConstant {number : List Int} (derived : Derives writeEnd .constant number) :
      Derives writeEnd .factor number
  | factorCall {call : List Int} (derived : Derives writeEnd .funcCall call) :
      Derives writeEnd .factor call
  | call {argument : List Int} (derived : Derives writeEnd .mathExpression argument) :
      Derives writeEnd .funcCall
        (identifierCode :: leftBraketCode :: (argument ++ [rightBraketCode]))
  | constant {number : List Int} (derived : Derives writeEnd .unsignedInteger number) :
      Derives writeEnd .constant number
  | unsignedInteger : Derives writeEnd .unsignedInteger [constantCode]
  | condition {test yes no : List Int} (tested : Derives writeEnd .conditionExpression test)
      (onTrue : Derives writeEnd .execStatement yes)
      (onFalse : Derives writeEnd .execStatement no) :
      Derives writeEnd .conditionStatement
        (ifCode :: (test ++ thenCode :: (yes ++ elseCode :: no)))
  | compare {left operator right : List Int} (first : Derives writeEnd .mathExpression left)
      (related : Derives writeEnd .relationOperator operator)
      (second : Derives writeEnd .mathExpression right) :
      Derives writeEnd .conditionExpression (left ++ (operator ++ right))
  | operator {code : Int} (listed : code ∈ relationCodes) :
      Derives writeEnd .relationOperator [code]

/-! ### Without `write` -/

/-- What stands behind a `write` does not matter where there is none. -/
theorem Derives.change_writeEnd {writeEnd writeEnd' : List Int} {procedure : Procedure}
    {word : List Int} (derived : Derives writeEnd procedure word) (free : writeCode ∉ word) :
    Derives writeEnd' procedure word := by
  induction derived with
  | write => exact absurd List.mem_cons_self free
  | declVar _ ih => exact .declVar (ih free)
  | declFunction _ ih => exact .declFunction (ih free)
  | stmtRead _ ih => exact .stmtRead (ih free)
  | stmtWrite _ ih => exact .stmtWrite (ih free)
  | stmtIf _ ih => exact .stmtIf (ih free)
  | stmtAssign _ ih => exact .stmtAssign (ih free)
  | factorVar _ ih => exact .factorVar (ih free)
  | factorConstant _ ih => exact .factorConstant (ih free)
  | factorCall _ ih => exact .factorCall (ih free)
  | operator listed => exact .operator listed
  | _ => constructor <;> grind

/-! ### Blocks -/

/-- `begin` opens and `end` closes. -/
def blockWeight (code : Int) : Int := if code = beginCode then 1 else if code = endCode then -1 else 0

theorem Derives.balanced {writeEnd : List Int} (behind : Balanced blockWeight writeEnd)
    {procedure : Procedure} {word : List Int} (derived : Derives writeEnd procedure word) :
    Balanced blockWeight word := by
  have block : ∀ {decls stmts : List Int}, Balanced blockWeight decls →
      Balanced blockWeight stmts →
      Balanced blockWeight (beginCode :: (decls ++ semicolonCode :: (stmts ++ [endCode]))) := by
    intro decls stmts declared executed
    have inner := (declared.append (executed.cons (by decide : blockWeight semicolonCode = 0)))
    simpa using inner.enclose (by decide : blockWeight beginCode = 1)
      (by decide : blockWeight endCode = -1)
  induction derived with
  | branch _ _ declared executed | funcBody _ _ declared executed =>
      exact block declared executed
  | write _ named =>
      exact .cons (by decide) (.cons (by decide) (named.append (.cons (by decide) behind)))
  | operator listed =>
      have neutral : ∀ code ∈ relationCodes, blockWeight code = 0 := by decide
      exact .cons (neutral _ listed) balanced_nil
  | _ =>
      repeat' first
        | assumption
        | exact balanced_nil
        | refine .append ?_ ?_
        | refine .cons (by decide) ?_

/-- No program is the beginning of another one. -/
theorem Derives.prefix_free {writeEnd word rest : List Int}
    (behind : Balanced blockWeight writeEnd) (derived : Derives writeEnd .mainProcedure word)
    (longer : Derives writeEnd .mainProcedure (word ++ rest)) : rest = [] := by
  have shape : ∀ {program : List Int}, Derives writeEnd .mainProcedure program →
      ∃ inner, Balanced blockWeight inner ∧ program = beginCode :: inner ++ [endCode] := by
    intro program derived
    cases derived with
    | program block =>
        cases block with
        | @branch decls stmts declared executed =>
            refine ⟨decls ++ semicolonCode :: stmts, ?_, by simp⟩
            exact (declared.balanced behind).append (.cons (by decide) (executed.balanced behind))
  rcases shape derived with ⟨inner, balanced, rfl⟩
  rcases shape longer with ⟨inner', balanced', same⟩
  exact enclosed_prefix_free (by decide : blockWeight beginCode = 1)
    (by decide : blockWeight endCode = -1) balanced balanced' same

/-! ### Neighbouring codes -/

def Procedure.starts : Procedure → List Int
  | .mainProcedure | .branchProcedure | .funcBody => [beginCode]
  | .declareStatementTable | .declareStatement | .varDeclare | .funcDeclare => [integerCode]
  | .var _ _ | .parameter | .funcCall | .assignStatement => [identifierCode]
  | .execStatementTable | .execStatement => [readCode, writeCode, ifCode, identifierCode]
  | .readStatement => [readCode]
  | .writeStatement => [writeCode]
  | .conditionStatement => [ifCode]
  | .mathExpression | .item | .factor | .conditionExpression => [identifierCode, constantCode]
  | .constant | .unsignedInteger => [constantCode]
  | .relationOperator => relationCodes
  | .declareStatementTableA | .execStatementTableA | .mathExpressionA | .itemA => []

def Procedure.tails : List Procedure :=
  [.declareStatementTableA, .execStatementTableA, .mathExpressionA, .itemA]

theorem Derives.starts {writeEnd : List Int} {procedure : Procedure} {word : List Int}
    (derived : Derives writeEnd procedure word) (full : procedure ∉ Procedure.tails) :
    ∃ code more, word = code :: more ∧ code ∈ procedure.starts := by
  have wider : ∀ {narrow wide : Procedure} {left right : List Int},
      (∃ code more, left = code :: more ∧ code ∈ narrow.starts) → narrow.starts ⊆ wide.starts →
      ∃ code more, left ++ right = code :: more ∧ code ∈ wide.starts := by
    rintro narrow wide left right ⟨code, more, rfl, listed⟩ subset
    exact ⟨code, more ++ right, rfl, subset listed⟩
  induction derived with
  | program _ ih | declVar _ ih | declFunction _ ih | parameter _ ih | stmtRead _ ih
  | stmtWrite _ ih | stmtIf _ ih | stmtAssign _ ih | factorVar _ ih | factorConstant _ ih
  | factorCall _ ih | constant _ ih =>
      rcases ih (by simp [Procedure.tails]) with ⟨code, more, rfl, listed⟩
      exact ⟨code, more, rfl, by grind [Procedure.starts]⟩
  | decls _ _ ih _ | stmts _ _ ih _ | expr _ _ ih _ | item _ _ ih _ | assign _ _ ih _
  | compare _ _ _ ih _ _ =>
      exact wider (ih (by simp [Procedure.tails])) (by simp [Procedure.starts])
  | declsEnd | declsMore | stmtsEnd | stmtsMore | exprEnd | exprMore | itemEnd | itemMore =>
      exact absurd (by simp [Procedure.tails]) full
  | operator listed => exact ⟨_, _, rfl, listed⟩
  | _ => exact ⟨_, _, rfl, by simp [Procedure.starts]⟩

/-- What may stand behind a `;` in a documented program. -/
def Neighbours (first second : Int) : Prop :=
  first = semicolonCode →
    second ∈ [integerCode, beginCode, readCode, writeCode, ifCode, identifierCode]

structure Separated (word : List Int) : Prop where
  neighbours : word.IsChain Neighbours
  notLast : ∀ code ∈ word.getLast?, code ≠ semicolonCode

theorem Separated.nil : Separated [] := ⟨.nil, nofun⟩

theorem Separated.append {left right : List Int} (first : Separated left)
    (second : Separated right) : Separated (left ++ right) where
  neighbours := first.neighbours.append second.neighbours
    fun code last _ _ semicolon => absurd semicolon (first.notLast code last)
  notLast code last := by
    rw [List.getLast?_append] at last
    cases ended : right.getLast? with
    | none =>
        rw [ended] at last
        exact first.notLast code last
    | some other =>
        rw [ended] at last
        exact second.notLast code (ended.trans last)

theorem Separated.cons {code : Int} {word : List Int} (other : code ≠ semicolonCode)
    (separated : Separated word) : Separated (code :: word) := by
  have single : Separated [code] := by
    refine ⟨.singleton code, fun last same => ?_⟩
    rw [← Option.some.inj same]
    exact other
  exact single.append separated

/-- A `;` in front of a word of a declaration, a statement or a block. -/
theorem Separated.semicolon {writeEnd : List Int} {procedure : Procedure} {word : List Int}
    (derived : Derives writeEnd procedure word)
    (listed : procedure ∈ [.declareStatement, .execStatementTable, .execStatement, .funcBody])
    {more : List Int} (separated : Separated (word ++ more)) :
    Separated (semicolonCode :: (word ++ more)) := by
  have full : ∀ nonterminal ∈ [Procedure.declareStatement, .execStatementTable, .execStatement,
      .funcBody], nonterminal ∉ Procedure.tails := by
    decide
  have allowed : ∀ nonterminal ∈ [Procedure.declareStatement, .execStatementTable, .execStatement,
      .funcBody], ∀ code ∈ nonterminal.starts, Neighbours semicolonCode code := by
    unfold Neighbours
    decide
  rcases derived.starts (full _ listed) with ⟨code, rest, rfl, starts⟩
  refine ⟨List.isChain_cons.mpr ⟨fun next head => ?_, separated.neighbours⟩, ?_⟩
  · rw [← Option.some.inj head]
    exact allowed procedure listed code starts
  · exact fun last same => separated.notLast last same

theorem Derives.separated {procedure : Procedure} {word : List Int}
    (derived : Derives [] procedure word) : Separated word := by
  have block : ∀ {decls stmts : List Int}, Separated decls → Derives [] .execStatementTable stmts →
      Separated stmts →
      Separated (beginCode :: (decls ++ semicolonCode :: (stmts ++ [endCode]))) := by
    intro decls stmts declared derived executed
    refine .cons (by decide) (declared.append ?_)
    exact .semicolon derived (by decide) (executed.append (.cons (by decide) .nil))
  induction derived with
  | branch _ derived declared executed | funcBody _ derived declared executed =>
      exact block declared derived executed
  | declsMore derived _ first others =>
      exact .semicolon derived (by decide) (first.append others)
  | stmtsMore derived _ first others =>
      exact .semicolon derived (by decide) (first.append others)
  | funcDeclare _ derived formal body =>
      have behind := Separated.semicolon derived (by decide) (body.append .nil)
      rw [List.append_nil] at behind
      exact .cons (by decide) (.cons (by decide) (.cons (by decide) (.cons (by decide)
        (formal.append (.cons (by decide) behind)))))
  | operator listed =>
      have other : ∀ code ∈ relationCodes, code ≠ semicolonCode := by decide
      exact .cons (other _ listed) .nil
  | _ =>
      repeat' first
        | assumption
        | exact .nil
        | refine .append ?_ ?_
        | refine .cons (by decide) ?_

/-- A `;` with a neighbour that documented programs do not have there. -/
def Crowded (word : List Int) : Prop :=
  ∃ code ∈ [semicolonCode, elseCode, endCode], [semicolonCode, code] <:+: word

theorem Crowded.mono {word longer : List Int} (crowded : Crowded word) (inside : word <:+: longer) :
    Crowded longer := by
  rcases crowded with ⟨code, listed, found⟩
  exact ⟨code, listed, found.trans inside⟩

theorem Separated.not_crowded {word : List Int} (separated : Separated word) : ¬Crowded word := by
  rintro ⟨code, listed, found⟩
  have pair := separated.neighbours.infix found
  have apart : ∀ code ∈ [semicolonCode, elseCode, endCode], ¬Neighbours semicolonCode code := by
    unfold Neighbours
    decide
  exact apart code listed (List.isChain_cons_cons.mp pair).1

/-- What a `write` does to the words of a nonterminal: some may end with its `;` instead. -/
def Marked : Procedure → List Int → Prop
  | .execStatementTable, word | .execStatementTableA, word | .execStatement, word
  | .writeStatement, word | .conditionStatement, word =>
      Crowded word ∨ word.getLast? = some semicolonCode
  | _, word => Crowded word

theorem Crowded.append_left {word : List Int} (crowded : Crowded word) (more : List Int) :
    Crowded (word ++ more) :=
  crowded.mono (List.prefix_append word more).isInfix

theorem Crowded.append_right {word : List Int} (crowded : Crowded word) (front : List Int) :
    Crowded (front ++ word) :=
  crowded.mono (List.suffix_append front word).isInfix

theorem Crowded.cons {word : List Int} (crowded : Crowded word) (code : Int) :
    Crowded (code :: word) :=
  crowded.append_right [code]

theorem crowded_behind {word more : List Int} {code : Int}
    (ended : word.getLast? = some semicolonCode)
    (listed : code ∈ [semicolonCode, elseCode, endCode]) : Crowded (word ++ code :: more) := by
  rcases List.getLast?_eq_some_iff.mp ended with ⟨front, rfl⟩
  exact ⟨code, listed, front, more, by simp⟩

private theorem ends_append {word : List Int} (ended : word.getLast? = some semicolonCode)
    (front : List Int) : (front ++ word).getLast? = some semicolonCode := by
  rw [List.getLast?_append, ended, Option.some_or]

private theorem marked_block {decls stmts : List Int} (declared : writeCode ∈ decls → Crowded decls)
    (executed : writeCode ∈ stmts → Crowded stmts ∨ stmts.getLast? = some semicolonCode)
    (writes : writeCode ∈ beginCode :: (decls ++ semicolonCode :: (stmts ++ [endCode]))) :
    Crowded (beginCode :: (decls ++ semicolonCode :: (stmts ++ [endCode]))) := by
  have inside : writeCode ∈ decls ∨ writeCode ∈ stmts := by grind
  rcases inside with inDecls | inStmts
  · exact ((declared inDecls).append_left _).cons _
  · have crowded : Crowded (stmts ++ [endCode]) := by
      rcases executed inStmts with crowded | ended
      · exact crowded.append_left _
      · exact crowded_behind ended (by decide)
    exact ((crowded.cons _).append_right _).cons _

private theorem marked_table {stmt more : List Int}
    (first : writeCode ∈ stmt → Crowded stmt ∨ stmt.getLast? = some semicolonCode)
    (derived : Derives [semicolonCode] .execStatementTableA more)
    (others : writeCode ∈ more → Crowded more ∨ more.getLast? = some semicolonCode)
    (writes : writeCode ∈ stmt ++ more) :
    Crowded (stmt ++ more) ∨ (stmt ++ more).getLast? = some semicolonCode := by
  rcases List.mem_append.mp writes with inStmt | inMore
  · rcases first inStmt with crowded | ended
    · exact .inl (crowded.append_left more)
    · cases derived with
      | stmtsEnd => exact .inr (by rwa [List.append_nil])
      | stmtsMore => exact .inl (crowded_behind ended (by decide))
  · rcases others inMore with crowded | ended
    · exact .inl (crowded.append_right stmt)
    · exact .inr (ends_append ended stmt)

/-- With the `;` that `write_statement` reads, every `write` leaves its mark. -/
theorem Derives.marked {procedure : Procedure} {word : List Int}
    (derived : Derives [semicolonCode] procedure word) (writes : writeCode ∈ word) :
    Marked procedure word := by
  induction derived with
  | branch _ _ declared executed | funcBody _ _ declared executed =>
      exact marked_block declared executed writes
  | write => exact .inr (by simp [List.getLast?_cons, List.getLast?_append])
  | stmts _ derived first others => exact marked_table first derived others writes
  | stmtsMore _ derived first others =>
      have inside : writeCode ∈ _ := (List.mem_cons.mp writes).resolve_left (by decide)
      rcases marked_table first derived others inside with crowded | ended
      · exact .inl (crowded.cons _)
      · exact .inr (ends_append ended [semicolonCode])
  | @condition test yes no _ _ _ tested onTrue onFalse =>
      have inside : writeCode ∈ test ∨ writeCode ∈ yes ∨ writeCode ∈ no := by grind
      rcases inside with inTest | inYes | inNo
      · exact .inl (((tested inTest).append_left _).cons _)
      · have crowded : Crowded (yes ++ elseCode :: no) := by
          rcases onTrue inYes with crowded | ended
          · exact crowded.append_left _
          · exact crowded_behind ended (by decide)
        exact .inl (((crowded.cons _).append_right _).cons _)
      · rcases onFalse inNo with crowded | ended
        · have behind := ((crowded.cons elseCode).append_right yes).cons thenCode
          exact .inl ((behind.append_right test).cons _)
        · exact .inr (by simp [List.getLast?_cons, List.getLast?_append, ended])
  | operator listed =>
      have other : ∀ code ∈ relationCodes, writeCode ≠ code := by decide
      exact absurd (List.mem_singleton.mp writes) (other _ listed)
  | _ =>
      simp only [Marked] at *
      grind [Crowded.append_left, Crowded.append_right, Crowded.cons]

end OsCompiler.LabPy
