/-
What a documented program declares.

The productions of the declaring nonterminals once more, over tokens with their words: a
derivation tells which names are declared directly in which procedure, and where the
statements of a block write. A word of these nonterminals has such a derivation.
-/

import OsCompiler.LabPy.Grammar

namespace OsCompiler.LabPy

/-- A declaration of a name in a procedure, or statements of a block that write. -/
inductive Mark
  | declares (procedure name : List Char)
  | writes
  deriving DecidableEq

def Mark.declaration : Mark → Option (List Char × List Char)
  | .declares procedure name => some (procedure, name)
  | .writes => none

def declarations (marks : List Mark) : List (List Char × List Char) :=
  marks.filterMap Mark.declaration

def beforeWrite (marks : List Mark) : List Mark := marks.takeWhile fun mark => mark ≠ .writes

def writesIn (stmts : List (List Char × Int)) : List Mark :=
  if writeCode ∈ stmts.map Prod.snd then [.writes] else []

/-- The tokens are a word of the nonterminal, and with `owner` as the procedure around them they
have these marks, from left to right. -/
inductive Declares : Procedure → List Char → List (List Char × Int) → List Mark → Prop
  | program {owner : List Char} {block : List (List Char × Int)} {marks : List Mark}
      (derived : Declares .branchProcedure owner block marks) :
      Declares .mainProcedure owner block marks
  | branch {owner opening semicolon closing : List Char} {decls stmts : List (List Char × Int)}
      {marks : List Mark} (declared : Declares .declareStatementTable owner decls marks)
      (executed : Derives [] .execStatementTable (stmts.map Prod.snd)) :
      Declares .branchProcedure owner
        ((opening, beginCode) :: (decls ++ (semicolon, semicolonCode) ::
          (stmts ++ [(closing, endCode)])))
        (marks ++ writesIn stmts)
  | decls {owner : List Char} {decl more : List (List Char × Int)} {marks others : List Mark}
      (first : Declares .declareStatement owner decl marks)
      (behind : Declares .declareStatementTableA owner more others) :
      Declares .declareStatementTable owner (decl ++ more) (marks ++ others)
  | declsEnd {owner : List Char} : Declares .declareStatementTableA owner [] []
  | declsMore {owner semicolon : List Char} {decl more : List (List Char × Int)}
      {marks others : List Mark} (first : Declares .declareStatement owner decl marks)
      (behind : Declares .declareStatementTableA owner more others) :
      Declares .declareStatementTableA owner ((semicolon, semicolonCode) :: (decl ++ more))
        (marks ++ others)
  | declVar {owner : List Char} {decl : List (List Char × Int)} {marks : List Mark}
      (derived : Declares .varDeclare owner decl marks) :
      Declares .declareStatement owner decl marks
  | declFunction {owner : List Char} {decl : List (List Char × Int)} {marks : List Mark}
      (derived : Declares .funcDeclare owner decl marks) :
      Declares .declareStatement owner decl marks
  | varDeclare {owner integer : List Char} {name : List (List Char × Int)} {marks : List Mark}
      (named : Declares (.var .define 0) owner name marks) :
      Declares .varDeclare owner ((integer, integerCode) :: name) marks
  | var {owner name : List Char} (isFormal : Nat) :
      Declares (.var .define isFormal) owner [(name, identifierCode)] [.declares owner name]
  | funcDeclare {owner integer function name left right semicolon : List Char}
      {parameter body : List (List Char × Int)} {marks others : List Mark}
      (formal : Declares .parameter name parameter marks)
      (derived : Declares .funcBody name body others) :
      Declares .funcDeclare owner
        ((integer, integerCode) :: (function, functionCode) :: (name, identifierCode) ::
          (left, leftBraketCode) ::
          (parameter ++ (right, rightBraketCode) :: (semicolon, semicolonCode) :: body))
        (marks ++ others)
  | parameter {owner : List Char} {name : List (List Char × Int)} {marks : List Mark}
      (named : Declares (.var .define 1) owner name marks) :
      Declares .parameter owner name marks
  | funcBody {owner opening semicolon closing : List Char} {decls stmts : List (List Char × Int)}
      {marks : List Mark} (declared : Declares .declareStatementTable owner decls marks)
      (executed : Derives [] .execStatementTable (stmts.map Prod.snd)) :
      Declares .funcBody owner
        ((opening, beginCode) :: (decls ++ (semicolon, semicolonCode) ::
          (stmts ++ [(closing, endCode)])))
        (marks ++ writesIn stmts)

/-- A word with marks is a word of the grammar. -/
theorem Declares.derives {procedure : Procedure} {owner : List Char}
    {tokens : List (List Char × Int)} {marks : List Mark}
    (declares : Declares procedure owner tokens marks) :
    Derives [] procedure (tokens.map Prod.snd) := by
  induction declares with
  | program _ ih => exact .program ih
  | branch _ executed ih =>
      have block := Derives.branch ih executed
      simpa using block
  | decls _ _ first others =>
      rw [List.map_append]
      exact .decls first others
  | declsEnd => exact .declsEnd
  | declsMore _ _ first others =>
      rw [List.map_cons, List.map_append]
      exact .declsMore first others
  | declVar _ ih => exact .declVar ih
  | declFunction _ ih => exact .declFunction ih
  | varDeclare _ ih => exact .varDeclare ih
  | var isFormal => exact .var .define isFormal
  | funcDeclare _ _ formal body =>
      have decl := Derives.funcDeclare formal body
      simpa using decl
  | parameter _ ih => exact .parameter ih
  | funcBody _ executed ih =>
      have block := Derives.funcBody ih executed
      simpa using block

/-! ### Marks -/

theorem beforeWrite_subset (marks : List Mark) :
    ∀ pair ∈ declarations (beforeWrite marks), pair ∈ declarations marks := by
  intro pair member
  exact ((List.takeWhile_prefix _).sublist.filterMap _).subset member

theorem beforeWrite_append_of_writes {marks : List Mark} (writes : .writes ∈ marks)
    (others : List Mark) : beforeWrite (marks ++ others) = beforeWrite marks := by
  induction marks with
  | nil => cases writes
  | cons mark marks ih =>
      cases mark with
      | writes => rfl
      | declares procedure name =>
          have behind : Mark.writes ∈ marks := (List.mem_cons.mp writes).resolve_left nofun
          exact congrArg (List.cons (Mark.declares procedure name)) (ih behind)

theorem beforeWrite_append_of_silent {marks : List Mark} (silent : .writes ∉ marks)
    (others : List Mark) : beforeWrite (marks ++ others) = marks ++ beforeWrite others := by
  refine List.takeWhile_append_of_pos fun mark member => decide_eq_true ?_
  rintro rfl
  exact silent member

theorem beforeWrite_of_silent {marks : List Mark} (silent : .writes ∉ marks) :
    beforeWrite marks = marks := by
  have none : beforeWrite [] = [] := rfl
  simpa [none] using beforeWrite_append_of_silent silent []

/-! ### Every program has its declarations -/

def Procedure.declaring : Procedure → Bool
  | .mainProcedure | .branchProcedure | .declareStatementTable | .declareStatementTableA
  | .declareStatement | .varDeclare | .var .define _ | .funcDeclare | .parameter | .funcBody => true
  | _ => false

private theorem first_token {tokens : List (List Char × Int)} {code : Int} {rest : List Int}
    (codes : tokens.map Prod.snd = code :: rest) :
    ∃ word behind, tokens = (word, code) :: behind ∧ behind.map Prod.snd = rest := by
  rcases List.map_eq_cons_iff.mp codes with ⟨token, behind, rfl, rfl, same⟩
  exact ⟨token.1, behind, rfl, same⟩

private theorem block_tokens {tokens : List (List Char × Int)} {decls stmts : List Int}
    (codes : tokens.map Prod.snd =
      beginCode :: (decls ++ semicolonCode :: (stmts ++ [endCode]))) :
    ∃ opening declared semicolon executed closing,
      tokens = (opening, beginCode) :: (declared ++ (semicolon, semicolonCode) ::
        (executed ++ [(closing, endCode)])) ∧
      declared.map Prod.snd = decls ∧ executed.map Prod.snd = stmts := by
  rcases first_token codes with ⟨opening, rest, rfl, inner⟩
  rcases List.map_eq_append_iff.mp inner with ⟨declared, rest, rfl, first, behind⟩
  rcases first_token behind with ⟨semicolon, rest, rfl, statements⟩
  rcases List.map_eq_append_iff.mp statements with ⟨executed, rest, rfl, second, last⟩
  rcases first_token last with ⟨closing, rest, rfl, none⟩
  rcases List.map_eq_nil_iff.mp none with rfl
  exact ⟨opening, declared, semicolon, executed, closing, rfl, first, second⟩

theorem Derives.declares {procedure : Procedure} {word : List Int}
    (derived : Derives [] procedure word) (declaring : procedure.declaring = true) :
    ∀ (owner : List Char) (tokens : List (List Char × Int)), tokens.map Prod.snd = word →
      ∃ marks, Declares procedure owner tokens marks := by
  induction derived with
  | program _ ih =>
      intro owner tokens codes
      rcases ih rfl owner tokens codes with ⟨marks, block⟩
      exact ⟨marks, .program block⟩
  | branch _ executed declared _ =>
      intro owner tokens codes
      rcases block_tokens codes with ⟨opening, decls, semicolon, stmts, closing, rfl, first, rfl⟩
      rcases declared rfl owner decls first with ⟨marks, block⟩
      exact ⟨_, .branch block executed⟩
  | decls _ _ first others =>
      intro owner tokens codes
      rcases List.map_eq_append_iff.mp codes with ⟨decl, more, rfl, here, behind⟩
      rcases first rfl owner decl here with ⟨marks, one⟩
      rcases others rfl owner more behind with ⟨marks', rest⟩
      exact ⟨_, .decls one rest⟩
  | declsEnd =>
      intro owner tokens codes
      rcases List.map_eq_nil_iff.mp codes with rfl
      exact ⟨[], .declsEnd⟩
  | declsMore _ _ first others =>
      intro owner tokens codes
      rcases first_token codes with ⟨semicolon, rest, rfl, inner⟩
      rcases List.map_eq_append_iff.mp inner with ⟨decl, more, rfl, here, behind⟩
      rcases first rfl owner decl here with ⟨marks, one⟩
      rcases others rfl owner more behind with ⟨marks', rest⟩
      exact ⟨_, .declsMore one rest⟩
  | declVar _ ih =>
      intro owner tokens codes
      rcases ih rfl owner tokens codes with ⟨marks, decl⟩
      exact ⟨marks, .declVar decl⟩
  | declFunction _ ih =>
      intro owner tokens codes
      rcases ih rfl owner tokens codes with ⟨marks, decl⟩
      exact ⟨marks, .declFunction decl⟩
  | varDeclare _ ih =>
      intro owner tokens codes
      rcases first_token codes with ⟨integer, name, rfl, behind⟩
      rcases ih rfl owner name behind with ⟨marks, named⟩
      exact ⟨marks, .varDeclare named⟩
  | var defineOrUse isFormal =>
      intro owner tokens codes
      cases defineOrUse with
      | define =>
          rcases first_token codes with ⟨name, rest, rfl, none⟩
          rcases List.map_eq_nil_iff.mp none with rfl
          exact ⟨_, .var isFormal⟩
      | use => cases declaring
  | funcDeclare _ _ formal body =>
      intro owner tokens codes
      rcases first_token codes with ⟨integer, rest, rfl, second⟩
      rcases first_token second with ⟨function, rest, rfl, third⟩
      rcases first_token third with ⟨name, rest, rfl, fourth⟩
      rcases first_token fourth with ⟨left, rest, rfl, inner⟩
      rcases List.map_eq_append_iff.mp inner with ⟨parameter, rest, rfl, here, behind⟩
      rcases first_token behind with ⟨right, rest, rfl, last⟩
      rcases first_token last with ⟨semicolon, rest, rfl, block⟩
      rcases formal rfl name parameter here with ⟨marks, named⟩
      rcases body rfl name rest block with ⟨marks', declared⟩
      exact ⟨_, .funcDeclare named declared⟩
  | parameter _ ih =>
      intro owner tokens codes
      rcases ih rfl owner tokens codes with ⟨marks, named⟩
      exact ⟨marks, .parameter named⟩
  | funcBody _ executed declared _ =>
      intro owner tokens codes
      rcases block_tokens codes with ⟨opening, decls, semicolon, stmts, closing, rfl, first, rfl⟩
      rcases declared rfl owner decls first with ⟨marks, block⟩
      exact ⟨_, .funcBody block executed⟩
  | _ => cases declaring

end OsCompiler.LabPy
