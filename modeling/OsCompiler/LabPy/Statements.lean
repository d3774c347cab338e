/-
What the statements of a documented program do to its declarations.

They declare nothing themselves. But where one of them writes, `write_statement` reads the
`;` behind it as well, so that the calls return in front of the next statement. No
procedure that waits for the end of a list or of a block goes on there.
-/

import OsCompiler.LabPy.Recognizer

namespace OsCompiler.LabPy

open OsCompiler.Action

/-! ### What statements leave alone -/

def Procedure.statements : List Procedure :=
  [.var .use 0, .execStatementTable, .execStatementTableA, .execStatement, .readStatement,
    .writeStatement, .assignStatement, .mathExpression, .mathExpressionA, .item, .itemA, .factor,
    .funcCall, .constant, .unsignedInteger, .conditionStatement, .conditionExpression,
    .relationOperator]

def statementCalls (call : Procedure → Parser Unit) (callee : Procedure) : Parser Unit :=
  if callee ∈ Procedure.statements then call callee else throw .recursionError

private theorem body_statementCalls (call : Procedure → Parser Unit) {procedure : Procedure}
    (listed : procedure ∈ Procedure.statements) :
    body (statementCalls call) procedure = body call procedure := by
  simp only [Procedure.statements, List.mem_cons, List.not_mem_nil, or_false] at listed
  rcases listed with rfl | rfl | rfl | rfl | rfl | rfl | rfl | rfl | rfl | rfl | rfl | rfl | rfl |
    rfl | rfl | rfl | rfl | rfl <;> rfl

/-- The procedure is the same, and `var_Table` has the same rows. -/
structure Unchanged (before after : State) : Prop where
  procedure : after.nowProcedure = before.nowProcedure
  table : after.varTable = before.varTable

private theorem steady_unchanged (start : State) : Steady (Unchanged start) where
  skipped unchanged := ⟨unchanged.procedure, unchanged.table⟩
  moved unchanged := ⟨unchanged.procedure, unchanged.table⟩
  print _ unchanged := ⟨unchanged.procedure, unchanged.table⟩

private theorem varUse_unchanged (start : State) (isFormal : Nat) :
    Preserves (Unchanged start) (var .use isFormal) := by
  have named : Preserves (Unchanged start) varUse :=
    (steady_unchanged start).varUse fun _ unchanged => ⟨unchanged.procedure, unchanged.table⟩
  have touch : Preserves (Unchanged start) (change Globals.touchLines) :=
    fun _ unchanged => ⟨unchanged.procedure, unchanged.table⟩
  exact named.seq touch

/-- Statements declare nothing. -/
theorem invoke_unchanged (depth : Nat) {procedure : Procedure}
    (listed : procedure ∈ Procedure.statements) (state : State) :
    wp (invoke depth procedure) (fun _ after => Unchanged state after) (fun _ _ => True) state := by
  have preserves : ∀ start, Preserves (Unchanged start) (invoke depth procedure) := by
    intro start
    induction depth generalizing procedure with
    | zero => exact fun _ _ => wp_throw.mpr trivial
    | succ depth ih =>
        intro state unchanged
        have calls : ∀ callee,
            Preserves (Unchanged start) (statementCalls (invoke depth) callee) := by
          intro callee
          by_cases called : callee ∈ Procedure.statements
          · rw [statementCalls, if_pos called]
            exact ih called
          · rw [statementCalls, if_neg called]
            exact fun _ _ => wp_throw.mpr trivial
        have plain : procedure ≠ .funcDeclare := by
          rintro rfl
          exact absurd listed (by decide)
        have named : ∀ defineOrUse isFormal, procedure = .var defineOrUse isFormal →
            Preserves (Unchanged start) (var defineOrUse isFormal) := by
          rintro defineOrUse isFormal rfl
          cases defineOrUse with
          | define => simp [Procedure.statements] at listed
          | use => exact varUse_unchanged start isFormal
        have built := body_built (statementCalls (invoke depth)) procedure
        have kept := built.preserves (steady_unchanged start) plain calls named _
          (Context.holds_none _ _) (⟨unchanged.procedure, unchanged.table⟩ :
            Unchanged start (state.logged (.entered procedure)))
        rw [body_statementCalls (invoke depth) listed] at kept
        exact wp_invoke_succ.mpr (wp_mono kept
          (fun _ _ last => ⟨last.procedure, last.table⟩) fun _ _ _ => trivial)
  exact preserves state state ⟨rfl, rfl⟩

/-! ### Statements that write -/

def Stuck (state : State) : Prop :=
  ∃ token rest, state.ahead = token :: rest ∧ token.2 ∈ Procedure.execStatement.starts

/-- In front of a statement the action returns there, and has changed nothing. -/
def Passes (action : Parser Unit) : Prop :=
  ∀ state, Stuck state →
    wp action (fun _ after => Stuck after ∧ Unchanged state after) (fun _ _ => True) state

theorem wp_lookToken {Result : Type} {next : Int → Parser Result}
    {returns : Result → State → Prop} {state : State} {token : List Char × Int}
    {rest : List (List Char × Int)} (ahead : state.ahead = token :: rest)
    (holds : state.skipped.Standing token.2 →
      wp (next token.2) returns (fun _ _ => True) state.skipped) :
    wp (currentCode >>= next) returns (fun _ _ => True) state := by
  refine wp_look (fun _ => trivial) fun token' rest' again standing => ?_
  rw [ahead] at again
  cases again
  exact holds standing

theorem wp_lookAheadToken {Result : Type} {next : Int → Parser Result}
    {returns : Result → State → Prop} {state : State} {first second : List Char × Int}
    {rest : List (List Char × Int)} (ahead : state.ahead = first :: second :: rest)
    (standing : state.Standing first.2)
    (holds : wp (next second.2) returns (fun _ _ => True) state) :
    wp (nowMoreOne >>= next) returns (fun _ _ => True) state := by
  refine wp_lookAhead standing (fun _ _ => trivial) fun word token rest' again => ?_
  rw [ahead] at again
  cases (List.cons.inj again).2
  exact holds

theorem wp_expectToken {code : Int} {yes : Unit → Parser Unit} {no : Parser Unit}
    {returns : Unit → State → Prop} {state : State} {word : List Char}
    {rest : List (List Char × Int)} (ahead : state.ahead = (word, code) :: rest)
    (found : state.moved.ahead = rest → wp (yes ()) returns (fun _ _ => True) state.moved) :
    wp (currentCode >>= fun current => if current = code then advanced >>= yes else no)
      returns (fun _ _ => True) state := by
  refine wp_expect (fun _ => trivial) (fun word' rest' again left => ?_)
    fun token rest' again other => ?_
  · rw [ahead] at again
    cases again
    exact found left
  · rw [ahead] at again
    cases again
    exact absurd rfl other

theorem Passes.expect {code : Int} (other : code ∉ Procedure.execStatement.starts)
    {yes : Parser Unit} {errInfo : Message} :
    Passes (currentCode >>= fun current => if current = code then yes else errPrint errInfo) := by
  rintro state ⟨token, rest, ahead, starts⟩
  refine wp_lookToken ahead fun _ => ?_
  have differs : token.2 ≠ code := fun same => other (same ▸ starts)
  rw [if_neg differs]
  refine (wp_of_outcome (outcome_change _ _)).mpr ⟨⟨token, rest, ?_, starts⟩, rfl, rfl⟩
  exact (state.skipped_ahead).trans ahead

/-- So do the procedures that read more after a `;`. -/
theorem Passes.table {procedure : Procedure}
    (listed : procedure = .declareStatementTableA ∨ procedure = .execStatementTableA)
    (depth : Nat) : Passes (invoke depth procedure) := by
  cases depth with
  | zero => exact fun _ _ => wp_throw.mpr trivial
  | succ depth =>
      rintro state ⟨token, rest, ahead, starts⟩
      have differs : token.2 ≠ semicolonCode := by
        intro same
        rw [same] at starts
        exact absurd starts (by decide)
      have left : Stuck state.skipped := ⟨token, rest, state.skipped_ahead.trans ahead, starts⟩
      rcases listed with rfl | rfl
      · refine wp_invoke_succ.mpr (wp_lookToken ahead fun _ => ?_)
        rw [if_neg differs]
        exact wp_pure.mpr ⟨left, rfl, rfl⟩
      · refine wp_invoke_succ.mpr (wp_lookToken ahead fun _ => ?_)
        rw [if_neg differs]
        exact wp_pure.mpr ⟨left, rfl, rfl⟩

/-- A `;` and what decides whether a list goes on behind it. -/
theorem wp_goOn {goesOn : Int → Prop} [DecidablePred goesOn] {more : Parser Unit}
    {returns : Unit → State → Prop} {state : State} {word : List Char}
    {token : List Char × Int} {rest : List (List Char × Int)}
    (ahead : state.ahead = (word, semicolonCode) :: token :: rest) (holds : goesOn token.2)
    (behind : state.moved.ahead = token :: rest →
      wp more returns (fun _ _ => True) state.moved) :
    wp (currentCode >>= fun code =>
      if code = 23 then
        nowMoreOne >>= fun next => if goesOn next then advanced >>= fun _ => more else pure ()
      else pure ()) returns (fun _ _ => True) state := by
  refine wp_lookToken ahead fun standing => ?_
  rw [if_pos rfl]
  refine wp_lookAheadToken (state.skipped_ahead.trans ahead) standing ?_
  rw [if_pos holds]
  refine wp_advance standing fun _ _ _ left => ?_
  have moved : state.skipped.moved = state.moved := State.skipped_moved (by simp [ahead])
  rw [moved]
  exact behind (outcome_advanced ahead).2

/-- In front of a statement that writes, the call returns in front of the next statement. -/
def Sticks (codes : List Int) (action : Parser Unit) : Prop :=
  ∀ state, state.codes = codes → wp action (fun _ after => Stuck after) (fun _ _ => True) state

theorem Sticks.invoke {procedure : Procedure} {codes : List Int}
    (sticks : ∀ depth, Sticks codes (body (invoke depth) procedure)) (depth : Nat) :
    Sticks codes (LabPy.invoke depth procedure) := by
  cases depth with
  | zero => exact fun _ _ => wp_throw.mpr trivial
  | succ depth => exact fun state same => wp_invoke_succ.mpr (sticks depth _ same)

theorem Sticks.expect {code : Int} {codes : List Int} {next : Parser Unit} {errInfo : Message}
    (rest : Sticks codes next) :
    Sticks (code :: codes) (currentCode >>= fun current =>
      if current = code then advanced >>= fun _ => next else errPrint errInfo) := by
  intro state same
  rcases ahead_of_codes same with ⟨word, behind, ahead, tail⟩
  refine wp_expectToken ahead fun moved => rest state.moved ?_
  rw [Globals.codes_of_ahead moved, tail]

theorem Sticks.behind {before codes : List Int} {first second : Parser Unit}
    (takes : Takes none before codes first) (sticks : Sticks codes second) :
    Sticks before (first >>= fun _ => second) := by
  intro state same
  refine wp_bind.mpr (wp_mono (takes state (Context.holds_none _ _) same) ?_ fun _ _ _ => trivial)
  exact fun _ after left => sticks after left.1

theorem Sticks.passed {codes : List Int} {first second : Parser Unit}
    (sticks : Sticks codes first) (passes : Passes second) :
    Sticks codes (first >>= fun _ => second) := by
  intro state same
  refine wp_seq (sticks state same) fun _ after stuck => ?_
  exact wp_mono (passes after stuck) (fun _ _ left => left.1) fun _ _ _ => trivial

def Behind (rest : List Int) : Prop :=
  ∃ code more, rest = code :: more ∧
    (code = semicolonCode → ∃ next others, more = next :: others ∧
      next ∈ Procedure.execStatement.starts)

private theorem write_sticks {name rest : List Int} (named : Derives [] (.var .use 0) name)
    (behind : Behind rest) (depth : Nat) :
    Sticks (writeCode :: leftBraketCode :: (name ++ rightBraketCode :: rest))
      (invoke depth .writeStatement) := by
  have taken : ∀ depth, Takes none (name ++ rightBraketCode :: rest)
      (rightBraketCode :: rest) (invoke depth (.var .use 0)) := by
    intro depth
    cases named with
    | var => exact (Derives.var .use 0).consumed depth _ trivial
  refine .invoke (fun depth => .expect <| .expect <| .behind (taken depth) <| .expect ?_) depth
  rcases behind with ⟨code, more, rfl, another⟩
  intro state same
  rcases ahead_of_codes same with ⟨word, tokens, ahead, codes⟩
  refine wp_lookToken ahead fun standing => ?_
  by_cases semicolon : code = semicolonCode
  · rw [if_pos semicolon]
    rcases another semicolon with ⟨next, others, rfl, starts⟩
    rcases List.map_eq_cons_iff.mp codes with ⟨token, behind, rfl, same, -⟩
    have left := (outcome_advanced (state.skipped_ahead.trans ahead)).2
    have moved := (outcome_advanced (state.skipped_ahead.trans ahead)).1
    exact (wp_of_outcome moved).mpr ⟨token, behind, left, same ▸ starts⟩
  · rw [if_neg semicolon]
    exact wp_throw.mpr trivial

def Procedure.writers : List Procedure :=
  [.execStatementTable, .execStatementTableA, .execStatement, .writeStatement,
    .conditionStatement]

theorem Derives.silent {writeEnd : List Int} {procedure : Procedure} {word : List Int}
    (derived : Derives writeEnd procedure word) (inside : procedure ∈ Procedure.statements)
    (quiet : procedure ∉ Procedure.writers) : writeCode ∉ word := by
  induction derived with
  | program | branch | decls | declsEnd | declsMore | declVar | declFunction | varDeclare
  | funcDeclare | parameter | funcBody => exact absurd inside (by decide)
  | stmts | stmtsEnd | stmtsMore | stmtRead | stmtWrite | stmtIf | stmtAssign | write
  | condition => exact absurd (by decide) quiet
  | var | exprEnd | itemEnd | unsignedInteger => decide
  | operator listed =>
      have other : ∀ code ∈ relationCodes, writeCode ≠ code := by decide
      exact fun member => other _ listed (List.mem_singleton.mp member)
  | factorVar _ ih => exact ih (by decide) (by decide)
  | factorConstant _ ih | factorCall _ ih | constant _ ih => exact ih (by decide) (by decide)
  | read _ ih | call _ ih => simp [ih (by decide) (by decide)]
  | assign _ _ first second | expr _ _ first second | exprMore _ _ first second
  | item _ _ first second | itemMore _ _ first second =>
      simp [first (by decide) (by decide), second (by decide) (by decide)]
  | compare _ _ _ first operator second =>
      simp [first (by decide) (by decide), operator (by decide) (by decide),
        second (by decide) (by decide)]

/-- What must stand behind a word that may write. -/
def Follows : Procedure → List Int → Prop
  | .execStatementTable, rest | .execStatementTableA, rest => ∃ more, rest = endCode :: more
  | _, rest => Behind rest

private theorem behind_stmt {more rest : List Int} (derived : Derives [] .execStatementTableA more)
    (ends : ∃ behind, rest = endCode :: behind) : Behind (more ++ rest) := by
  cases derived with
  | stmtsEnd =>
      rcases ends with ⟨behind, rfl⟩
      exact ⟨endCode, behind, rfl, fun same => absurd same (by decide)⟩
  | @stmtsMore stmt others first =>
      rcases first.starts (by decide) with ⟨next, rest', rfl, starts⟩
      exact ⟨semicolonCode, _, rfl, fun _ => ⟨next, _, rfl, starts⟩⟩

/-- The list of statements that is left of a block, one of which writes. -/
theorem table_sticks {stmt more rest : List Int} {depth : Nat}
    (first : Derives [] .execStatement stmt) (others : Derives [] .execStatementTableA more)
    (ends : ∃ behind, rest = endCode :: behind) (writes : writeCode ∈ stmt ++ more)
    (here : writeCode ∈ stmt → ∀ rest, Behind rest →
      Sticks (stmt ++ rest) (invoke depth .execStatement))
    (later : writeCode ∈ more → Sticks (more ++ rest) (invoke depth .execStatementTableA)) :
    Sticks (stmt ++ more ++ rest)
      (invoke depth .execStatement >>= fun _ => invoke depth .execStatementTableA) := by
  rw [List.append_assoc]
  by_cases inStmt : writeCode ∈ stmt
  · exact (here inStmt _ (behind_stmt others ends)).passed (.table (.inr rfl) depth)
  · have taken := (first.change_writeEnd inStmt).consumed depth (more ++ rest)
      (stops_stmt others ends)
    exact .behind taken (later ((List.mem_append.mp writes).resolve_left inStmt))

private theorem execStatement_sticks {depth : Nat} {stmt rest : List Int} {callee : Procedure}
    (derived : Derives [] callee stmt) (listed : callee ∈ [.writeStatement, .conditionStatement])
    (sticks : Sticks (stmt ++ rest) (invoke depth callee)) :
    Sticks (stmt ++ rest) (execStatement (invoke depth)) := by
  intro state same
  have skipped : state.skipped.codes = stmt ++ rest := by
    rw [Globals.codes, state.skipped_ahead]
    exact same
  have stuck := sticks state.skipped skipped
  have full : ∀ nonterminal ∈ [Procedure.writeStatement, .conditionStatement],
      nonterminal ∉ Procedure.tails := by
    decide
  rcases derived.starts (full callee listed) with ⟨code, more, rfl, head⟩
  rcases ahead_of_codes same with ⟨word, tokens, ahead, -⟩
  refine wp_lookToken ahead fun _ => ?_
  simp only [List.mem_cons, List.not_mem_nil, or_false] at listed
  rcases listed with rfl | rfl <;> rcases List.mem_singleton.mp head with rfl
  · have notRead : writeCode ≠ readCode := by decide
    rw [if_neg notRead, if_pos rfl]
    exact stuck
  · have notRead : ifCode ≠ readCode := by decide
    have notWrite : ifCode ≠ writeCode := by decide
    rw [if_neg notRead, if_neg notWrite, if_pos rfl]
    exact stuck

private theorem condition_sticks {depth : Nat} {test yes no rest : List Int}
    (tested : Derives [] .conditionExpression test) (onTrue : Derives [] .execStatement yes)
    (writes : writeCode ∈ yes ∨ writeCode ∈ no)
    (first : writeCode ∈ yes → ∀ rest, Behind rest →
      Sticks (yes ++ rest) (invoke depth .execStatement))
    (second : writeCode ∈ no → Sticks (no ++ rest) (invoke depth .execStatement)) :
    Sticks (ifCode :: (test ++ thenCode :: (yes ++ elseCode :: no)) ++ rest)
      (conditionStatement (invoke depth)) := by
  have silent := tested.silent (by decide) (by decide)
  simp only [List.cons_append, List.append_assoc]
  refine .expect <| .behind ((tested.change_writeEnd silent).consumed depth _
    ⟨thenCode, _, rfl, by decide⟩) <| .expect ?_
  by_cases inYes : writeCode ∈ yes
  · have follows : Behind (elseCode :: (no ++ rest)) :=
      ⟨elseCode, _, rfl, fun same => absurd same (by decide)⟩
    exact (first inYes _ follows).passed (.expect (by decide))
  · refine .behind ((onTrue.change_writeEnd inYes).consumed depth _
      ⟨elseCode, _, rfl, by decide⟩) <| .expect ?_
    exact second (writes.resolve_left inYes)

theorem Derives.sticks {procedure : Procedure} {word : List Int}
    (derived : Derives [] procedure word) (listed : procedure ∈ Procedure.writers)
    (writes : writeCode ∈ word) :
    ∀ depth rest, Follows procedure rest → Sticks (word ++ rest) (invoke depth procedure) := by
  induction derived with
  | stmts derived others first behind =>
      refine fun _ rest ends => .invoke (fun depth => ?_) _
      exact table_sticks derived others ends writes
        (fun inStmt rest follows => first (by decide) inStmt depth rest follows)
        fun inMore => behind (by decide) inMore depth rest ends
  | stmtsEnd => cases writes
  | stmtsMore derived others first behind =>
      refine fun _ rest ends => .invoke (fun depth => ?_) _
      have inside : writeCode ∈ _ ++ _ := (List.mem_cons.mp writes).resolve_left (by decide)
      have sticks := table_sticks derived others ends inside
        (fun inStmt rest follows => first (by decide) inStmt depth rest follows)
        fun inMore => behind (by decide) inMore depth rest ends
      rcases derived.starts (by decide) with ⟨code, more, rfl, starts⟩
      intro state same
      rcases ahead_of_codes same with ⟨word, tokens, ahead, codes⟩
      rcases List.map_eq_cons_iff.mp codes with ⟨token, tail, rfl, first, -⟩
      refine wp_goOn ahead (first ▸ starts) fun moved => sticks state.moved ?_
      rw [Globals.codes_of_ahead moved, codes]
      rfl
  | stmtRead derived => exact absurd writes (derived.silent (by decide) (by decide))
  | stmtAssign derived => exact absurd writes (derived.silent (by decide) (by decide))
  | stmtWrite derived ih | stmtIf derived ih =>
      exact fun _ rest follows => .invoke (fun depth =>
        execStatement_sticks derived (by decide) (ih (by decide) writes depth rest follows)) _
  | write named =>
      intro depth rest behind
      have sticks := write_sticks named behind depth
      simpa using sticks
  | @condition test yes no tested onTrue onFalse _ first second =>
      have silent := tested.silent (by decide) (by decide)
      have inside : writeCode ∈ yes ∨ writeCode ∈ no := by grind
      exact fun _ rest follows => .invoke (fun depth =>
        condition_sticks tested onTrue inside
          (fun inYes rest follows => first (by decide) inYes depth rest follows)
          fun inNo => second (by decide) inNo depth rest follows) _
  | var => simp [Procedure.writers] at listed
  | _ => exact absurd listed (by decide)

end OsCompiler.LabPy
