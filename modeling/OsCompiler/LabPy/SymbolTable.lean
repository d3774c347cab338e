/-
Which declarations of a documented program have a row in `var_Table`.

A row is added for a name that has none yet, whatever the procedure, and the declarations
behind a statement that writes are not read. So a row for each declared pair of a procedure
and a name is there exactly if no name is declared in two procedures and no pair is declared
behind such a statement alone.
-/

import OsCompiler.Lib.KeyedTable
import OsCompiler.LabPy.Declarations
import OsCompiler.LabPy.Statements
import OsCompiler.LabPy.Acceptance
import OsCompiler.LabPy.OpenCalls

namespace OsCompiler.LabPy

open OsCompiler.Action OsCompiler.KeyedTable

/-! ### The rows that a call adds -/

def Globals.pairs (globals : Globals) : List (Option (List Char) × Option (List Char)) :=
  globals.varTable.map fun row => (row.procedure, row.name)

def entries (marks : List Mark) : List (Option (List Char) × Option (List Char)) :=
  (declarations (beforeWrite marks)).map (Prod.map some some)

private theorem entries_append_of_silent {marks : List Mark} (silent : .writes ∉ marks)
    (others : List Mark) : entries (marks ++ others) = entries marks ++ entries others := by
  rw [entries, beforeWrite_append_of_silent silent, declarations, List.filterMap_append,
    List.map_append, entries, beforeWrite_of_silent silent]
  rfl

private theorem entries_append_of_writes {marks : List Mark} (writes : .writes ∈ marks)
    (others : List Mark) : entries (marks ++ others) = entries marks := by
  rw [entries, beforeWrite_append_of_writes writes, entries]

private theorem entries_writesIn (stmts : List (List Char × Int)) :
    entries (writesIn stmts) = [] := by
  rw [writesIn]
  split <;> rfl

private theorem pairs_define (globals : Globals) (word : Option (List Char)) (isFormal : Nat) :
    (globals.define word isFormal).pairs =
      enter Prod.snd globals.pairs (globals.nowProcedure, word) := by
  have names : globals.pairs.map Prod.snd = globals.varTable.map VarRow.name := by
    rw [Globals.pairs, List.map_map]
    rfl
  rw [Globals.define, enter, names]
  split
  · rfl
  · rw [Globals.pairs, List.map_append]
    rfl

/-- The call has entered what is declared in front of the first statements that write, and stands
behind its word or, if there are such statements, in front of a statement. -/
structure Enters (left : List (List Char × Int)) (marks : List Mark) (before after : State) :
    Prop where
  procedure : after.nowProcedure = before.nowProcedure
  table : after.pairs = enterAll Prod.snd before.pairs (entries marks)
  silent : .writes ∉ marks → after.ahead = left
  stuck : .writes ∈ marks → Stuck after

section Enters

variable {left middle : List (List Char × Int)} {marks others : List Mark}
variable {first second third : State}

/-- The state that the call began in counts with its procedure and its rows alone. -/
theorem Enters.since (enters : Enters left marks second third)
    (procedure : second.nowProcedure = first.nowProcedure)
    (table : second.varTable = first.varTable) : Enters left marks first third where
  procedure := enters.procedure.trans procedure
  table := by
    rw [enters.table, Globals.pairs, table, Globals.pairs]
  silent := enters.silent
  stuck := enters.stuck

theorem Enters.trans (before : Enters middle marks first second) (silent : .writes ∉ marks)
    (behind : Enters left others second third) : Enters left (marks ++ others) first third where
  procedure := behind.procedure.trans before.procedure
  table := by
    rw [behind.table, before.table, entries_append_of_silent silent, enterAll_append]
  silent none := behind.silent fun member => none (List.mem_append_right marks member)
  stuck member := behind.stuck ((List.mem_append.mp member).resolve_left silent)

theorem Enters.pass (before : Enters middle marks first second) (writes : .writes ∈ marks)
    (stuck : Stuck third) (unchanged : Unchanged second third) :
    Enters left (marks ++ others) first third where
  procedure := unchanged.procedure.trans before.procedure
  table := by
    have same : third.pairs = second.pairs := by
      rw [Globals.pairs, unchanged.table, Globals.pairs]
    rw [same, before.table, entries_append_of_writes writes]
  silent none := absurd (List.mem_append_left others writes) none
  stuck _ := stuck

end Enters

/-- In front of the word, inside `owner`, the action enters these marks if it returns. -/
def Declaring (owner : List Char) (word left : List (List Char × Int)) (marks : List Mark)
    (action : Parser Unit) : Prop :=
  ∀ state, state.ahead = word ++ left → state.nowProcedure = some owner →
    wp action (fun _ after => Enters left marks state after) (fun _ _ => True) state

section Rules

variable {owner : List Char} {word word' left : List (List Char × Int)}
variable {marks marks' : List Mark}

theorem Declaring.invoke {procedure : Procedure}
    (bodies : ∀ depth, Declaring owner word left marks (body (invoke depth) procedure))
    (depth : Nat) : Declaring owner word left marks (LabPy.invoke depth procedure) := by
  cases depth with
  | zero => exact fun _ _ _ => wp_throw.mpr trivial
  | succ depth =>
      intro state ahead inside
      refine wp_invoke_succ.mpr (wp_mono (bodies depth (state.logged _) ahead inside) ?_
        fun _ _ _ => trivial)
      intro _ after enters
      exact ⟨enters.procedure, enters.table, enters.silent, enters.stuck⟩

theorem Declaring.seq {first second : Parser Unit}
    (before : Declaring owner word (word' ++ left) marks first)
    (behind : Declaring owner word' left marks' second) (passes : Passes second) :
    Declaring owner (word ++ word') left (marks ++ marks') (first >>= fun _ => second) := by
  intro state ahead inside
  rw [List.append_assoc] at ahead
  refine wp_seq (before state ahead inside) fun _ after enters => ?_
  by_cases writes : .writes ∈ marks
  · refine wp_mono (passes after (enters.stuck writes)) ?_ fun _ _ _ => trivial
    exact fun _ last passed => enters.pass writes passed.1 passed.2
  · refine wp_mono (behind after (enters.silent writes) (enters.procedure.trans inside)) ?_
      fun _ _ _ => trivial
    exact fun _ last later => enters.trans writes later

theorem Declaring.expect {text : List Char} {code : Int} {next : Parser Unit} {no : Parser Unit}
    (rest : Declaring owner word left marks next) :
    Declaring owner ((text, code) :: word) left marks (currentCode >>= fun current =>
      if current = code then advanced >>= fun _ => next else no) := by
  intro state ahead inside
  refine wp_expectToken ahead fun moved => ?_
  exact wp_mono (rest state.moved moved inside) (fun _ _ enters => enters.since rfl rfl)
    fun _ _ _ => trivial

theorem Declaring.done : Declaring owner [] left [] (pure ()) :=
  fun _ ahead _ => wp_pure.mpr ⟨rfl, rfl, fun _ => ahead, nofun⟩

theorem Declaring.expectLast {text : List Char} {code : Int} {no : Parser Unit} :
    Declaring owner [(text, code)] left [] (currentCode >>= fun current =>
      if current = code then advanced else no) := by
  have step : Declaring owner [(text, code)] left [] (currentCode >>= fun current =>
      if current = code then advanced >>= fun _ => pure () else no) :=
    .expect .done
  simpa using step

/-- What is left is told by its codes. -/
theorem ahead_of_consumed {before after : State} (consumed : after.ahead <:+ before.ahead)
    (ahead : before.ahead = word ++ left) (codes : after.codes = left.map Prod.snd) :
    after.ahead = left := by
  have length : after.ahead.length = left.length := by
    have lengths := congrArg List.length codes
    rwa [Globals.codes, List.length_map, List.length_map] at lengths
  rw [ahead] at consumed
  have suffix := List.suffix_of_suffix_length_le consumed (List.suffix_append word left) length.le
  exact suffix.eq_of_length length

/-- The statements of a block enter nothing. -/
theorem Declaring.stmts (depth : Nat) {stmts : List (List Char × Int)} {closing : List Char}
    (executed : Derives [] .execStatementTable (stmts.map Prod.snd)) :
    Declaring owner stmts ((closing, endCode) :: left) (writesIn stmts)
      (LabPy.invoke depth .execStatementTable) := by
  intro state ahead inside
  have codes : state.codes = stmts.map Prod.snd ++ endCode :: left.map Prod.snd := by
    rw [Globals.codes_of_ahead ahead, List.map_append, List.map_cons]
  have table : ∀ {after : State}, Unchanged state after →
      after.pairs = enterAll Prod.snd state.pairs (entries (writesIn stmts)) := by
    intro after unchanged
    rw [entries_writesIn, enterAll_nil, Globals.pairs, unchanged.table, Globals.pairs]
  have quiet := invoke_unchanged depth (by decide : .execStatementTable ∈ Procedure.statements) state
  by_cases writes : writeCode ∈ stmts.map Prod.snd
  · have marks : writesIn stmts = [.writes] := if_pos writes
    have sticks := executed.sticks (by decide) writes depth _ ⟨_, rfl⟩ state codes
    refine wp_mono (wp_and quiet sticks) ?_ fun _ _ _ => trivial
    rintro _ after ⟨unchanged, stuck⟩
    refine ⟨unchanged.procedure, table unchanged, fun none => ?_, fun _ => stuck⟩
    exact absurd (marks ▸ List.mem_singleton_self _) none
  · have marks : writesIn stmts = [] := if_neg writes
    have taken := (executed.change_writeEnd writes).consumed depth _ ⟨_, rfl⟩ state
      (Context.holds_none _ _) codes
    refine wp_mono (wp_and quiet (wp_and taken (invoke_onward depth _ state))) ?_
      fun _ _ _ => trivial
    rintro _ after ⟨unchanged, ⟨left, -⟩, onward⟩
    refine ⟨unchanged.procedure, table unchanged, fun _ => ?_, fun member => ?_⟩
    · exact ahead_of_consumed onward.consumed ahead left
    · rw [marks] at member
      cases member

end Rules

/-! ### The declarations -/

theorem var_declaring {owner name : List Char} {left : List (List Char × Int)} (isFormal : Nat) :
    Declaring owner [(name, identifierCode)] left [.declares owner name]
      (var .define isFormal) := by
  intro state ahead inside
  refine (wp_of_outcome (outcome_var_define_name isFormal ahead rfl)).mpr ?_
  have defined := pairs_define state.moved.toGlobals (some name) isFormal
  have moved : state.moved.nowProcedure = some owner := inside
  rw [moved] at defined
  refine ⟨?_, defined, fun _ => ?_, fun member => ?_⟩
  · have same : (state.moved.define (some name) isFormal).nowProcedure = state.nowProcedure := by
      rw [Globals.define]
      split <;> rfl
    exact same
  · have same : (state.moved.define (some name) isFormal).ahead = state.moved.ahead :=
      (Bookkeeping.define (some name) isFormal).ahead _
    exact same.trans (outcome_advanced ahead).2
  · cases List.mem_singleton.mp member

private theorem block_declaring {owner opening semicolon closing : List Char}
    {decls stmts left : List (List Char × Int)} {marks : List Mark} {depth : Nat}
    {endInfo semicolonInfo beginInfo : Message}
    (declared : ∀ left, Stops .declareStatementTable (left.map Prod.snd) →
      Declaring owner decls left marks (invoke depth .declareStatementTable))
    (executed : Derives [] .execStatementTable (stmts.map Prod.snd)) :
    Declaring owner
      ((opening, beginCode) :: (decls ++ (semicolon, semicolonCode) ::
        (stmts ++ [(closing, endCode)]))) left (marks ++ writesIn stmts) (do
      if (← currentCode) = beginCode then
        advanced
        invoke depth .declareStatementTable
        if (← currentCode) = semicolonCode then
          advanced
          invoke depth .execStatementTable
          if (← currentCode) = endCode then
            advanced
          else
            errPrint endInfo
        else
          errPrint semicolonInfo
      else
        errPrint beginInfo) := by
  have stops : Stops .declareStatementTable
      (((semicolon, semicolonCode) :: (stmts ++ [(closing, endCode)]) ++ left).map Prod.snd) := by
    have stops : Stops .declareStatementTable
        (semicolonCode :: (stmts.map Prod.snd ++ endCode :: left.map Prod.snd)) :=
      stops_decls executed
    simpa using stops
  have last : Declaring owner (stmts ++ [(closing, endCode)]) left (writesIn stmts)
      (invoke depth .execStatementTable >>= fun _ => currentCode >>= fun current =>
        if current = endCode then advanced else errPrint endInfo) := by
    rw [← List.append_nil (writesIn stmts)]
    exact .seq (.stmts depth executed) .expectLast (.expect (by decide))
  exact .expect (.seq (declared _ stops) (.expect last) (.expect (by decide)))

private theorem declareStatement_declaring {owner : List Char} {first second : List Char × Int}
    {rest left : List (List Char × Int)} {marks : List Mark} {depth : Nat} {callee : Procedure}
    (integer : first.2 = integerCode)
    (chosen : callee = if second.2 = 7 then .funcDeclare else .varDeclare)
    (declaring : Declaring owner (first :: second :: rest) left marks (invoke depth callee)) :
    Declaring owner (first :: second :: rest) left marks (declareStatement (invoke depth)) := by
  intro state ahead inside
  have again : state.skipped.ahead = first :: second :: (rest ++ left) :=
    state.skipped_ahead.trans ahead
  have called := declaring state.skipped again inside
  refine wp_lookToken ahead fun standing => ?_
  rw [if_pos integer]
  refine wp_lookAheadToken again standing ?_
  rw [← apply_ite (invoke depth), ← chosen]
  exact wp_mono called (fun _ _ enters => enters.since rfl rfl) fun _ _ _ => trivial

private theorem funcDeclare_declaring {owner integer function name bracket : List Char}
    {rest left : List (List Char × Int)} {marks : List Mark} {depth : Nat}
    (declaring : Declaring name ((bracket, leftBraketCode) :: rest) left marks
      (functionRest (invoke depth))) :
    Declaring owner ((integer, integerCode) :: (function, functionCode) ::
      (name, identifierCode) :: (bracket, leftBraketCode) :: rest) left marks
      (funcDeclare (invoke depth)) := by
  intro state ahead inside
  refine wp_bind.mpr (wp_of_outcome (outcome_change _ _) |>.mpr (wp_bind.mpr (wp_get.mpr ?_)))
  have inner : wp (declaredFunction (invoke depth))
      (fun _ after => ∃ middle : State, middle.pairs = state.pairs ∧
        Enters left marks middle after) (fun _ _ => True)
      (state.update fun globals =>
        { globals with procedureLevel := globals.procedureLevel + 1 }) := by
    refine wp_expectToken ahead fun second => wp_expectToken second fun third => ?_
    refine wp_identify (fun _ => trivial) (fun word behind again fourth => ?_)
      fun token behind again other => ?_
    · rw [third] at again
      cases again
      refine wp_mono (declaring _ ?_ ?_) (fun _ after enters => ⟨_, ?_, enters⟩)
        fun _ _ _ => trivial
      · exact ((Bookkeeping.nameProcedure (some name)).ahead _).trans fourth
      · exact congrArg Prod.fst (owner_nameProcedure (some name) _).1
      · exact congrArg (List.map _) (owner_nameProcedure (some name) _).2
    · rw [third] at again
      cases again
      exact absurd rfl other
  refine wp_seq inner fun _ after enters => ?_
  rcases enters with ⟨middle, same, enters⟩
  refine ⟨rfl, ?_, enters.silent, enters.stuck⟩
  rw [← same]
  exact enters.table

theorem Declares.declaring {procedure : Procedure} {owner : List Char}
    {word : List (List Char × Int)} {marks : List Mark}
    (declares : Declares procedure owner word marks) :
    ∀ depth left, Stops procedure (left.map Prod.snd) →
      Declaring owner word left marks (invoke depth procedure) := by
  induction declares with
  | program _ ih => exact fun _ left _ => .invoke (fun depth => ih depth left trivial) _
  | branch _ executed ih | funcBody _ executed ih =>
      exact fun _ left _ => .invoke (fun depth => block_declaring (ih depth) executed) _
  | decls _ _ first others =>
      refine fun _ left stops => .invoke (fun depth => ?_) _
      exact .seq (first depth _ trivial) (others depth left stops) (.table (.inl rfl) depth)
  | declsEnd =>
      refine fun _ left stops => .invoke (fun depth => ?_) _
      rcases stops with ⟨next, more, codes, other⟩
      rcases List.map_eq_cons_iff.mp codes with ⟨semicolon, behind, rfl, same, codes'⟩
      rcases List.map_eq_cons_iff.mp codes' with ⟨token, rest, rfl, rfl, -⟩
      intro state ahead inside
      refine wp_lookToken ahead fun standing => ?_
      rw [if_pos same]
      refine wp_lookAheadToken (state.skipped_ahead.trans ahead) standing ?_
      rw [if_neg other]
      exact wp_pure.mpr ⟨rfl, rfl, fun _ => state.skipped_ahead.trans ahead, nofun⟩
  | declsMore declared _ first others =>
      refine fun _ left stops => .invoke (fun depth => ?_) _
      have pair := Declaring.seq (first depth _ trivial) (others depth left stops)
        (.table (.inl rfl) depth)
      rcases declared.derives.starts (by decide) with ⟨code, more, codes, starts⟩
      rcases List.map_eq_cons_iff.mp codes with ⟨token, rest, rfl, rfl, -⟩
      intro state ahead inside
      refine wp_goOn ahead (List.mem_singleton.mp starts) fun moved => ?_
      exact wp_mono (pair state.moved moved inside) (fun _ _ enters => enters.since rfl rfl)
        fun _ _ _ => trivial
  | declVar derived ih =>
      refine fun _ left _ => .invoke (fun depth => ?_) _
      have declaring := ih depth left trivial
      cases derived with
      | varDeclare named =>
          cases named with
          | var => exact declareStatement_declaring rfl rfl declaring
  | declFunction derived ih =>
      refine fun _ left _ => .invoke (fun depth => ?_) _
      have declaring := ih depth left trivial
      cases derived with
      | funcDeclare => exact declareStatement_declaring rfl rfl declaring
  | varDeclare _ ih =>
      exact fun _ left _ => .invoke (fun depth => .expect (ih depth left trivial)) _
  | var isFormal => exact fun _ left _ => .invoke (fun _ => var_declaring isFormal) _
  | funcDeclare _ _ formal body =>
      refine fun _ left _ => .invoke (fun depth => funcDeclare_declaring ?_) _
      exact .expect (.seq (formal depth _ trivial) (.expect (.expect (body depth left trivial)))
        (.expect (by decide)))
  | parameter _ ih => exact fun _ left _ => .invoke (fun depth => ih depth left trivial) _

/-! ### The run of the program -/

def programTokens (dydList : List DydRow) : List (List Char × Int) :=
  (strip dydList).filter fun token => token.2 ≠ eof

/-- For each declared pair the table has one row. -/
def RowsComplete (marks : List Mark) (varTable : List VarRow) : Prop :=
  ∀ pair ∈ declarations marks, varTable.countP (fun row =>
    row.procedure = some pair.1 ∧ row.name = some pair.2) = 1

instance (marks : List Mark) (varTable : List VarRow) : Decidable (RowsComplete marks varTable) :=
  inferInstanceAs (Decidable (∀ pair ∈ declarations marks, _))

private theorem strip_programTokens {dydList : List DydRow}
    (ends : EndsInEof (dydList.map DydRow.code)) :
    (programTokens dydList).map Prod.snd = sentence dydList ∧
      ∃ word, strip dydList = programTokens dydList ++ [(word, eof)] := by
  have codes : (strip dydList).map Prod.snd = sentence dydList ++ [eof] := initState_codes ends
  rcases List.map_eq_append_iff.mp codes with ⟨tokens, rest, split, program, last⟩
  rcases List.map_eq_singleton_iff.mp last with ⟨token, rfl, code⟩
  have none : ∀ token ∈ tokens, token.2 ≠ eof := by
    intro token member
    have listed : token.2 ∈ sentence dydList := program ▸ List.mem_map_of_mem member
    have other := (List.mem_filter.mp listed).2
    simp only [decide_eq_true_eq] at other
    exact other.2
  have same : programTokens dydList = tokens := by
    have kept : tokens.filter (fun token => decide (token.2 ≠ eof)) = tokens :=
      List.filter_eq_self.mpr fun token member => decide_eq_true (none token member)
    rw [programTokens, split, List.filter_append, kept, List.filter_singleton, code]
    simp
  rw [same, split]
  exact ⟨program, token.1, by rw [← code]⟩

/-- The rows are those of the declarations that are read, for each name the first. -/
theorem run_pairs {dydList : List DydRow} (ends : EndsInEof (dydList.map DydRow.code))
    {marks : List Mark}
    (declares : Declares .mainProcedure ['m', 'a', 'i', 'n'] (programTokens dydList) marks)
    (returns : (run dydList).1 = .ok ()) :
    (run dydList).2.pairs = enterAll Prod.snd [] (entries marks) := by
  rcases (strip_programTokens ends).2 with ⟨word, split⟩
  have entered := declares.declaring (callDepth dydList) [(word, eof)] trivial
    (initState dydList) split rfl
  exact ((wp_iff_outcome.mp entered).1 () returns).table

/-- As no name has two rows, a pair has one row or none. -/
theorem countP_eq_one_iff {globals : Globals} (names : (globals.varTable.map VarRow.name).Nodup)
    (pair : List Char × List Char) :
    globals.varTable.countP (fun row =>
      row.procedure = some pair.1 ∧ row.name = some pair.2) = 1 ↔
      Prod.map some some pair ∈ globals.pairs := by
  have nodup : globals.pairs.Nodup := by
    refine List.Nodup.of_map Prod.snd ?_
    rw [Globals.pairs, List.map_map]
    exact names
  have count : globals.varTable.countP (fun row =>
      row.procedure = some pair.1 ∧ row.name = some pair.2) =
      globals.pairs.count (Prod.map some some pair) := by
    rw [List.count, Globals.pairs, List.countP_map]
    refine List.countP_congr fun row _ => ?_
    simp [Prod.map, Prod.ext_iff]
  rw [count, nodup.count]
  split <;> simp_all

/-- Every program of the documented grammar has its marks, and where `main_procedure` returns,
there is exactly one row for each declared pair of a procedure and a name if and only if each is
declared in front of the first statement that writes and no name is declared in two procedures. -/
theorem lab_parser_rows_iff {dydList : List DydRow} (ends : EndsInEof (dydList.map DydRow.code))
    (documented : Derives [] .mainProcedure (sentence dydList))
    (returns : (run dydList).1 = .ok ()) :
    (∃ marks, Declares .mainProcedure ['m', 'a', 'i', 'n'] (programTokens dydList) marks) ∧
      ∀ marks, Declares .mainProcedure ['m', 'a', 'i', 'n'] (programTokens dydList) marks →
        (RowsComplete marks (run dydList).2.varTable ↔
          (∀ pair ∈ declarations marks, pair ∈ declarations (beforeWrite marks)) ∧
            ∀ pair ∈ declarations marks, ∀ other ∈ declarations marks,
              pair.2 = other.2 → pair = other) := by
  refine ⟨documented.declares rfl _ _ (strip_programTokens ends).1, fun marks declares => ?_⟩
  have numbered : (run dydList).2.Numbered :=
    invariant_numbered.run ⟨List.nodup_nil, rfl, rfl⟩
  have complete : RowsComplete marks (run dydList).2.varTable ↔
      ∀ entry ∈ (declarations marks).map (Prod.map some some),
        entry ∈ enterAll Prod.snd [] (entries marks) := by
    rw [List.forall_mem_map, ← run_pairs ends declares returns]
    exact forall₂_congr fun pair _ => countP_eq_one_iff numbered.names pair
  have early : ∀ entry ∈ entries marks,
      entry ∈ (declarations marks).map (Prod.map some some) := by
    intro entry member
    rcases List.mem_map.mp member with ⟨pair, listed, rfl⟩
    exact List.mem_map_of_mem (beforeWrite_subset marks pair listed)
  have injective : ∀ pair other : List Char × List Char,
      Prod.map some some pair = Prod.map some some other ↔ pair = other := by
    simp [Prod.ext_iff]
  rw [complete, enterAll_complete_iff early, List.forall_mem_map, List.forall_mem_map]
  refine and_congr (forall₂_congr fun pair _ => ?_) (forall₂_congr fun pair _ => ?_)
  · rw [entries, List.mem_map]
    constructor
    · rintro ⟨other, listed, same⟩
      rwa [← (injective other pair).mp same]
    · exact fun listed => ⟨pair, listed, rfl⟩
  · rw [List.forall_mem_map]
    refine forall₂_congr fun other _ => ?_
    rw [injective]
    exact imp_congr_left (Option.some_inj)

private def readTokens : List (List Char × Int) :=
  [("read".toList, readCode), (['('], leftBraketCode), (['k'], identifierCode),
    ([')'], rightBraketCode)]

private def functionTokens (parameter : List Char) : List (List Char × Int) :=
  [("begin".toList, beginCode), ("integer".toList, integerCode), (['k'], identifierCode),
    ([';'], semicolonCode), ("integer".toList, integerCode), ("function".toList, functionCode),
    (['f'], identifierCode), (['('], leftBraketCode), (parameter, identifierCode),
    ([')'], rightBraketCode), ([';'], semicolonCode), ("begin".toList, beginCode),
    ("integer".toList, integerCode), (parameter, identifierCode), ([';'], semicolonCode)] ++
  readTokens ++ [("end".toList, endCode), ([';'], semicolonCode)] ++
  readTokens ++ [("end".toList, endCode)]

private def functionMarks (parameter : List Char) : List Mark :=
  [.declares ['m', 'a', 'i', 'n'] ['k'], .declares ['f'] parameter, .declares ['f'] parameter]

private theorem function_declares (parameter : List Char) :
    Declares .mainProcedure ['m', 'a', 'i', 'n'] (functionTokens parameter)
      (functionMarks parameter) := by
  have reads : Derives [] .execStatementTable (readTokens.map Prod.snd) :=
    .stmts (.stmtRead (.read (.var _ _))) .stmtsEnd
  have declared : ∀ {owner name : List Char}, Declares .declareStatement owner
      [("integer".toList, integerCode), (name, identifierCode)] [.declares owner name] :=
    .declVar (.varDeclare (.var 0))
  exact .program (.branch (.decls declared (.declsMore (.declFunction (.funcDeclare
    (.parameter (.var 1)) (.funcBody (.decls declared .declsEnd) reads))) .declsEnd)) reads)

private def functionRows (parameter : List Char) : List DydRow :=
  (functionTokens parameter ++ [("EOF".toList, eof)]).map fun token => ⟨token.1, token.2, []⟩

/-- The parameter is declared again in the body. -/
theorem lab_parser_rows_iff_parameter :
    ((∃ marks, Declares .mainProcedure ['m', 'a', 'i', 'n'] (programTokens (functionRows ['n']))
        marks) ∧
      ∀ marks, Declares .mainProcedure ['m', 'a', 'i', 'n'] (programTokens (functionRows ['n']))
          marks →
        (RowsComplete marks (run (functionRows ['n'])).2.varTable ↔
          (∀ pair ∈ declarations marks, pair ∈ declarations (beforeWrite marks)) ∧
            ∀ pair ∈ declarations marks, ∀ other ∈ declarations marks,
              pair.2 = other.2 → pair = other)) ∧
      (run (functionRows ['n'])).2.varTable.map VarRow.name = [some ['k'], some ['n']] := by
  have codes : sentence (functionRows ['n']) = (functionTokens ['n']).map Prod.snd := by
    decide +kernel
  have documented : Derives [] .mainProcedure (sentence (functionRows ['n'])) :=
    codes ▸ (function_declares ['n']).derives
  exact ⟨lab_parser_rows_iff (by decide +kernel) documented (by decide +kernel),
    by decide +kernel⟩

/-- The main program and a function each declare `k`. -/
theorem same_name_in_two_procedures :
    ¬∀ (dydList : List DydRow) (marks : List Mark), EndsInEof (dydList.map DydRow.code) →
      Derives [] .mainProcedure (sentence dydList) → (run dydList).1 = .ok () →
      Declares .mainProcedure ['m', 'a', 'i', 'n'] (programTokens dydList) marks →
      RowsComplete marks (run dydList).2.varTable := by
  intro complete
  have failing := complete (tokensOf
    "begin integer k;integer function f(k);begin integer k;read(k)end;read(k)end")
  have read : tokensOf
      "begin integer k;integer function f(k);begin integer k;read(k)end;read(k)end" =
      functionRows ['k'] := by
    decide +kernel
  have tokens : programTokens (functionRows ['k']) = functionTokens ['k'] := by decide +kernel
  have codes : sentence (functionRows ['k']) = (functionTokens ['k']).map Prod.snd := by
    decide +kernel
  have missing : ¬RowsComplete (functionMarks ['k']) (run (functionRows ['k'])).2.varTable := by
    decide +kernel
  have declares := function_declares ['k']
  rw [read, tokens, codes] at failing
  exact missing (failing _ (by decide +kernel) declares.derives (by decide +kernel) declares)

/-- Behind the `write` of `f` nothing is declared any more. -/
example : (run (tokensOf ("begin integer k;integer function f(n);begin integer n;" ++
      "write(n);read(n)end;integer m;read(m)end"))).2.varTable.map VarRow.name =
    [some ['k'], some ['n']] := by
  decide +kernel

end OsCompiler.LabPy
