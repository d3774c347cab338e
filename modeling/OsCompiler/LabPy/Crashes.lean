/-
When `lab_parser.py` gets through its input without raising.

Three procedures have a step that raises: `factor` looks behind `EOF`, `var` adds the
name that it has not found to a text, and `write_statement` calls a string where `;` is
missing. `SafeCall` says of the state in which such a procedure is called that the step
is not taken, and a run returns exactly if all its calls are of that kind.
-/

import OsCompiler.LabPy.Descent

namespace OsCompiler.LabPy

open OsCompiler.Action

/-- The tokens of a `write` statement up to `)`, with or without a name, and no `;` behind. -/
def UnclosedWrite (codes : List Int) : Prop :=
  ∃ next rest, next ≠ semicolonCode ∧
    (codes = writeCode :: leftBraketCode :: rightBraketCode :: next :: rest ∨
      codes = writeCode :: leftBraketCode :: identifierCode :: rightBraketCode :: next :: rest)

/-- The procedure, called with these globals, does not come to its step that raises. -/
def SafeCall : Procedure → Globals → Prop
  | .factor, globals => globals.codes.head? ≠ some eof
  | .var .use _, globals => globals.codes.head? = some identifierCode ∨ globals.Knows none
  | .writeStatement, globals => ¬UnclosedWrite globals.codes
  | _, _ => True

def State.Safe (state : State) : Prop :=
  ∀ procedure globals, .entered procedure globals ∈ state.trace → SafeCall procedure globals

theorem State.safe_entered {state : State} {procedure : Procedure} :
    (state.logged (.entered procedure)).Safe ↔
      state.Safe ∧ SafeCall procedure state.toGlobals := by
  constructor
  · intro safe
    refine ⟨fun other globals member => safe other globals ?_, safe procedure _ ?_⟩
    · exact List.mem_append_left _ member
    · exact List.mem_append_right _ List.mem_cons_self
  · rintro ⟨earlier, latest⟩ other globals member
    rcases List.mem_append.mp member with before | new
    · exact earlier other globals before
    · cases List.mem_singleton.mp new
      exact latest

theorem State.safe_returned {state : State} {procedure : Procedure} :
    (state.logged (.returned procedure)).Safe ↔ state.Safe := by
  constructor
  · exact fun safe other globals member => safe other globals (List.mem_append_left _ member)
  · intro safe other globals member
    rcases List.mem_append.mp member with before | new
    · exact safe other globals before
    · cases List.mem_singleton.mp new

/-- In front of `EOF` an action returns only through safe calls and raises only through
others. -/
def Judged (action : Parser Unit) (state : State) : Prop :=
  EndsInEof state.codes →
    wp action (fun _ after => EndsInEof after.codes ∧ (state.Safe → after.Safe))
      (fun raise after => raise = .recursionError ∨ ¬after.Safe) state

theorem Judged.seq {first second : Parser Unit} {state : State} (before : Judged first state)
    (after : ∀ middle, Judged second middle) :
    Judged (first >>= fun _ => second) state := by
  intro ends
  refine wp_seq (before ends) ?_
  intro _ middle kept
  exact wp_mono (after middle kept.1) (fun _ _ later => ⟨later.1, fun safe => later.2 (kept.2 safe)⟩)
    fun _ _ raised => raised

theorem ahead_ne_nil {state : State} (ends : EndsInEof state.codes) : state.ahead ≠ [] := by
  intro ahead
  exact ends.ne_nil (by rw [Globals.codes, ahead, List.map_nil])

theorem skipped_endsInEof {state : State} (ends : EndsInEof state.codes) :
    EndsInEof state.skipped.codes :=
  (kept_onward.skipped state).eofLeft ends

theorem judged_change {update : Globals → Globals} (listed : Bookkeeping update) (state : State) :
    Judged (change update) state := fun ends =>
  (wp_of_outcome (outcome_change update state)).mpr
    ⟨(kept_onward.bookkeeping listed state).eofLeft ends, id⟩

private theorem judged_identify {next : Option (List Char) → Parser Unit} {state : State}
    (second : ∀ word after, Judged (next word) after) :
    Judged (identifier >>= next) state := by
  intro ends
  refine wp_identify (fun ahead => absurd ahead (ahead_ne_nil ends)) ?_ ?_
  · intro word rest ahead _
    exact second (some word) state.moved
      ((kept_onward.moved ahead (show identifierCode ≠ eof by decide)).eofLeft ends)
  · intro token rest _ _
    exact second none (state.skipped.update (Globals.print .identifier))
      ((kept_onward.bookkeeping (.print .identifier) state.skipped).eofLeft
        (skipped_endsInEof ends))

/-- A body without a step that raises is judged by its calls. -/
theorem Built.judged {call : Procedure → Parser Unit} {procedure : Procedure}
    (plain : procedure ≠ .factor ∧ procedure ≠ .writeStatement ∧
      ∀ defineOrUse isFormal, procedure ≠ .var defineOrUse isFormal)
    (calls : ∀ callee state, Judged (call callee) state)
    {context : Context} {part : Parser Unit} (built : Built call procedure context part) :
    ∀ state, context.Holds state → Judged part state := by
  induction built with
  | done => exact fun state _ ends => wp_pure.mpr ⟨ends, id⟩
  | look next ih =>
      intro state _ ends
      refine wp_look (fun ahead => absurd ahead (ahead_ne_nil ends)) ?_
      intro token rest _ standing
      exact ih token.2 state.skipped (Context.holds_some standing _) (skipped_endsInEof ends)
  | lookAhead notLast next ih =>
      intro state holds ends
      refine wp_lookAhead (holds _ rfl) ?_ fun _ token _ _ => ih token.2 state holds ends
      intro word ahead
      rw [Globals.codes, ahead] at ends
      exact absurd ends.of_singleton (notLast.resolve_right plain.1)
  | advance notLast next ih =>
      intro state holds ends
      refine wp_advance (holds _ rfl) fun word rest ahead _ => ?_
      exact ih state.moved (Context.holds_none _ _) ((kept_onward.moved ahead notLast).eofLeft ends)
  | report errInfo defined => exact fun state _ => judged_change (.print errInfo) state
  | stop errInfo write => exact absurd write plain.2.1
  | call callee => exact fun state _ => calls callee state
  | seq before after ihBefore ihAfter =>
      exact fun state holds => (ihBefore state holds).seq fun middle =>
        ihAfter middle (Context.holds_none _ middle)
  | identify called next ih =>
      exact fun state _ => judged_identify fun _ after => ih after (Context.holds_none _ after)
  | var defineOrUse isFormal same => exact absurd same (plain.2.2 defineOrUse isFormal)
  | name declared next ih =>
      exact fun state _ => judged_identify fun name after =>
        (judged_change (.nameProcedure name) after).seq fun later =>
          ih later (Context.holds_none _ later)
  | within declared inner ih =>
      intro state _
      refine (judged_change (.level 1) state).seq fun raised ends => ?_
      refine wp_bind.mpr (wp_get.mpr (Judged.seq (ih raised (Context.holds_none _ raised)) ?_ ends))
      exact fun left => (judged_change (.restore _) left).seq fun restored =>
        judged_change (.level (-1)) restored

/-! ### The three steps that raise -/

/-- A body that returns if its own call is `safe` and else raises in a step of its own. -/
def Decided (safe : Prop) (action : Parser Unit) (state : State) : Prop :=
  wp action (fun _ after => EndsInEof after.codes ∧ (state.Safe → after.Safe) ∧ safe)
    (fun raise after => raise = .recursionError ∨ ¬after.Safe ∨ ¬safe) state

theorem Judged.decided {safe : Prop} {action : Parser Unit} {state : State}
    (judged : Judged action state) (ends : EndsInEof state.codes) (holds : safe) :
    Decided safe action state :=
  wp_mono (judged ends) (fun _ _ kept => ⟨kept.1, kept.2, holds⟩)
    fun _ _ raised => raised.imp_right .inl

private theorem var_decided {defineOrUse : DefineOrUse} {isFormal : Nat} {state : State}
    (ends : EndsInEof state.codes) :
    Decided (SafeCall (.var defineOrUse isFormal) state.toGlobals)
      (var defineOrUse isFormal) state := by
  have kept : Keeps Onward (fun _ => True) (var defineOrUse isFormal) state :=
    kept_onward.var trivial trivial defineOrUse isFormal state
  have returns : ∀ {after : State},
      outcome (var defineOrUse isFormal) state = (.ok (), after) → after.trace = state.trace →
      SafeCall (.var defineOrUse isFormal) state.toGlobals →
      Decided (SafeCall (.var defineOrUse isFormal) state.toGlobals)
        (var defineOrUse isFormal) state := by
    intro after found trace safe
    refine (wp_of_outcome found).mpr ⟨((wp_of_outcome found).mp kept).eofLeft ends, ?_, safe⟩
    exact fun before procedure globals member => before procedure globals (trace ▸ member)
  cases ahead : state.ahead with
  | nil => exact absurd ahead (ahead_ne_nil ends)
  | cons token rest =>
      have head : state.codes.head? = some token.2 := by rw [Globals.codes_of_ahead ahead]; rfl
      cases defineOrUse with
      | define =>
          by_cases name : token.2 = identifierCode
          · exact returns (outcome_var_define_name isFormal ahead name) rfl trivial
          · exact returns (outcome_var_define_other isFormal ahead name) rfl trivial
      | use =>
          by_cases name : token.2 = identifierCode
          · refine returns (outcome_var_use_name isFormal ahead name) ?_ (.inl (name ▸ head))
            split <;> rfl
          · have found := outcome_var_use_other isFormal ahead name
            by_cases known : state.Knows none
            · rw [if_pos known] at found
              exact returns found rfl (.inr known)
            · rw [if_neg known] at found
              refine (wp_of_raise found).mpr (.inr (.inr fun safe => ?_))
              rcases safe with named | defined
              · exact name (Option.some.inj (head ▸ named))
              · exact known defined

private theorem factor_decided {call : Procedure → Parser Unit}
    (calls : ∀ callee state, Judged (call callee) state) {state : State}
    (ends : EndsInEof state.codes) :
    Decided (SafeCall .factor state.toGlobals) (factor call) state := by
  refine wp_look (fun ahead => absurd ahead (ahead_ne_nil ends)) fun token rest ahead standing => ?_
  have skippedEnds := skipped_endsInEof ends
  have head : state.codes.head? = some token.2 := by rw [Globals.codes, ahead]; rfl
  rw [SafeCall, head]
  split
  · rename_i constant
    exact (calls .constant state.skipped).decided skippedEnds (by rw [constant]; decide)
  · refine wp_lookAhead standing ?_ ?_
    · intro word single
      rw [Globals.codes, single] at skippedEnds
      exact .inr (.inr fun safe => safe (congrArg some skippedEnds.of_singleton))
    · intro word next more again
      have safe : some token.2 ≠ some eof := by
        rw [Globals.codes, again] at skippedEnds
        exact fun last => skippedEnds.head_ne (Option.some.inj last)
      split
      · exact (calls .funcCall state.skipped).decided skippedEnds safe
      · exact (calls (.var .use 0) state.skipped).decided skippedEnds safe

def ConsumesName (call : Procedure → Parser Unit) : Prop :=
  ∀ (state : State) (token : List Char × Int) (rest : List (List Char × Int)),
    state.ahead = token :: rest →
    wp (call (.var .use 0))
      (fun _ after => after.ahead = if token.2 = identifierCode then rest else state.ahead)
      (fun _ _ => True) state

/-- The tokens behind `write(` and a name, if there is one, decide. -/
theorem unclosedWrite_iff {codes left : List Int}
    (shape : codes = writeCode :: leftBraketCode :: identifierCode :: left ∨
      codes = writeCode :: leftBraketCode :: left ∧ left.head? ≠ some identifierCode) :
    UnclosedWrite codes ↔
      ∃ next rest, next ≠ semicolonCode ∧ left = rightBraketCode :: next :: rest := by
  constructor
  · rintro ⟨next, rest, missing, same⟩
    rcases shape with rfl | ⟨rfl, unnamed⟩
    · refine ⟨next, rest, missing, ?_⟩
      rcases same with same | same
      · simp [identifierCode, rightBraketCode] at same
      · simpa using same
    · refine ⟨next, rest, missing, ?_⟩
      rcases same with same | same
      · simpa using same
      · simp at same
        simp [same] at unnamed
  · rintro ⟨next, rest, missing, rfl⟩
    refine ⟨next, rest, missing, ?_⟩
    rcases shape with same | ⟨same, -⟩
    · exact .inr same
    · exact .inl same

section Write

variable {state : State}

private theorem nonempty {goal : Prop} (ends : EndsInEof state.codes) (ahead : state.ahead = []) :
    goal :=
  absurd ahead (ahead_ne_nil ends)

private theorem moved_endsInEof {word : List Char} {code : Int} {rest : List (List Char × Int)}
    (ahead : state.ahead = (word, code) :: rest) (notLast : code ≠ eof)
    (ends : EndsInEof state.codes) : EndsInEof state.moved.codes :=
  (kept_onward.moved ahead notLast).eofLeft ends

private theorem codes_moved {word : List Char} {code : Int} {rest : List (List Char × Int)}
    (ahead : state.ahead = (word, code) :: rest) (left : state.moved.ahead = rest) :
    state.codes = code :: state.moved.codes := by
  rw [Globals.codes_of_ahead ahead, Globals.codes_of_ahead left, List.map_cons]

private theorem report_decided {safe : Prop} (ends : EndsInEof state.codes) (holds : safe) :
    Decided safe (errPrint .write) state.skipped :=
  (judged_change (.print .write) _).decided (skipped_endsInEof ends) holds

/-- The end of a `write` statement from `)` on. -/
private theorem writeEnd_decided (ends : EndsInEof state.codes) :
    Decided
      (¬∃ next rest, next ≠ semicolonCode ∧ state.codes = rightBraketCode :: next :: rest)
      (do
        if (← currentCode) = 22 then
          advanced
          if (← currentCode) = semicolonCode then
            advanced
          else
            errFileName .writeSemicolon
        else
          errPrint .write) state := by
  refine wp_expect (nonempty ends) (fun word rest ahead left => ?_) fun token rest ahead other => ?_
  · have endsMoved := moved_endsInEof ahead (by decide) ends
    rw [codes_moved ahead left]
    refine wp_expectLast (nonempty endsMoved) (fun word tail ahead' _ => ?_)
      fun token tail ahead' other => ?_
    · refine ⟨moved_endsInEof ahead' (by decide) endsMoved, id, ?_⟩
      rw [Globals.codes_of_ahead ahead']
      rintro ⟨next, more, missing, same⟩
      exact missing (List.cons.inj (List.cons.inj same).2).1.symm
    · refine wp_throw.mpr (.inr (.inr fun closes => closes ⟨token.2, tail.map Prod.snd, other, ?_⟩))
      rw [Globals.codes_of_ahead ahead', List.map_cons]
  · refine report_decided ends ?_
    rw [Globals.codes_of_ahead ahead]
    rintro ⟨next, more, -, same⟩
    exact other (List.cons.inj same).1

private theorem write_decided {call : Procedure → Parser Unit}
    (calls : ∀ callee state, Judged (call callee) state) (consumes : ConsumesName call)
    (ends : EndsInEof state.codes) :
    Decided (SafeCall .writeStatement state.toGlobals) (writeStatement call) state := by
  refine wp_expect (nonempty ends) (fun word rest ahead left => ?_) fun token rest ahead other => ?_
  · have ends := moved_endsInEof ahead (by decide) ends
    refine wp_expect (nonempty ends) (fun word' rest' ahead' left' => ?_)
      fun token rest' ahead' other => ?_
    · have ends := moved_endsInEof ahead' (by decide) ends
      cases named : state.moved.moved.ahead with
      | nil => exact nonempty ends named
      | cons name behind =>
          refine wp_seq (wp_mono (wp_and (calls (.var .use 0) _ ends) (consumes _ name behind named))
            (fun _ _ both => both) fun _ _ raised => raised.1.imp_right .inl) ?_
          rintro _ after ⟨⟨ends, safe⟩, consumed⟩
          have start : state.codes = writeCode :: leftBraketCode :: state.moved.moved.codes := by
            rw [codes_moved ahead left, codes_moved ahead' left']
          have shape : state.codes = writeCode :: leftBraketCode :: identifierCode :: after.codes ∨
              state.codes = writeCode :: leftBraketCode :: after.codes ∧
                after.codes.head? ≠ some identifierCode := by
            by_cases found : name.2 = identifierCode
            · rw [if_pos found] at consumed
              rw [start, Globals.codes_of_ahead named, Globals.codes_of_ahead consumed,
                List.map_cons, found]
              exact .inl rfl
            · rw [if_neg found, named] at consumed
              refine .inr ⟨by rw [start, Globals.codes_of_ahead named,
                Globals.codes_of_ahead consumed], ?_⟩
              rw [Globals.codes_of_ahead consumed]
              exact fun head => found (Option.some.inj head)
          rw [SafeCall, unclosedWrite_iff shape]
          exact wp_mono (writeEnd_decided ends)
            (fun _ _ kept => ⟨kept.1, fun before => kept.2.1 (safe before), kept.2.2⟩)
            fun _ _ raised => raised
    · refine report_decided ends ?_
      rw [SafeCall, codes_moved ahead left, Globals.codes_of_ahead ahead']
      rintro ⟨next, more, -, same | same⟩
      · exact other (List.cons.inj (List.cons.inj same).2).1
      · exact other (List.cons.inj (List.cons.inj same).2).1
  · refine report_decided ends ?_
    rw [SafeCall, Globals.codes_of_ahead ahead]
    rintro ⟨next, more, -, same | same⟩
    · exact other (List.cons.inj same).1
    · exact other (List.cons.inj same).1

end Write

private theorem invoke_consumesName (depth : Nat) : ConsumesName (invoke depth) := by
  intro state token rest ahead
  cases depth with
  | zero => exact wp_throw.mpr trivial
  | succ depth =>
      refine wp_invoke_succ.mpr ?_
      have entered : (state.logged (.entered (.var .use 0))).ahead = token :: rest := ahead
      by_cases name : token.2 = identifierCode
      · refine (wp_of_outcome (outcome_var_use_name 0 entered name)).mpr ?_
        rw [if_pos name]
        split
        · exact (outcome_advanced entered).2
        · exact (outcome_advanced entered).2
      · have found := outcome_var_use_other 0 entered name
        rw [if_neg name]
        split at found
        · exact (wp_of_outcome found).mpr (State.skipped_ahead _)
        · exact (wp_of_raise found).mpr trivial

private theorem body_decided {call : Procedure → Parser Unit} (procedure : Procedure)
    (calls : ∀ callee state, Judged (call callee) state) (consumes : ConsumesName call)
    {state : State} (ends : EndsInEof state.codes) :
    Decided (SafeCall procedure state.toGlobals) (body call procedure) state := by
  by_cases plain : procedure ≠ .factor ∧ procedure ≠ .writeStatement ∧
      ∀ defineOrUse isFormal, procedure ≠ .var defineOrUse isFormal
  · have safe : SafeCall procedure state.toGlobals := by
      unfold SafeCall
      split
      · exact absurd rfl plain.1
      · exact absurd rfl (plain.2.2 _ _)
      · exact absurd rfl plain.2.1
      · trivial
    exact ((body_built call procedure).judged plain calls state (Context.holds_none _ state)).decided
      ends safe
  · cases procedure with
    | factor => exact factor_decided calls ends
    | writeStatement => exact write_decided calls consumes ends
    | var defineOrUse isFormal => exact var_decided ends
    | _ => exact absurd ⟨nofun, nofun, nofun⟩ plain

private theorem invoke_judged (depth : Nat) (procedure : Procedure) (state : State) :
    Judged (invoke depth procedure) state := by
  induction depth generalizing procedure state with
  | zero => exact fun _ => wp_throw.mpr (.inl rfl)
  | succ depth ih =>
      intro ends
      have decided : Decided (SafeCall procedure state.toGlobals) (body (invoke depth) procedure)
          (state.logged (.entered procedure)) :=
        body_decided procedure ih (invoke_consumesName depth) ends
      refine wp_invoke_succ.mpr (wp_mono (wp_and decided (body_onward depth procedure _)) ?_ ?_)
      · rintro _ after ⟨⟨left, safe, own⟩, -⟩
        exact ⟨left, fun before =>
          State.safe_returned.mpr (safe (State.safe_entered.mpr ⟨before, own⟩))⟩
      · rintro raise after ⟨deep | later | own, onward⟩
        · exact .inl deep
        · exact .inr later
        · refine .inr fun safe => own (safe procedure _ ?_)
          exact onward.calls.subset (List.mem_append_right _ List.mem_cons_self)

/-! ### The run of the program -/

/-- `main_procedure` returns, and `err_TXT` has only grown from call to call. -/
def NeverCrashes (dydList : List DydRow) : Prop :=
  (run dydList).1 = .ok () ∧ (run dydList).2.Recorded

/-- With `EOF` at the end, `main_procedure` returns exactly if `factor` is never called in front
of `EOF`, a variable is never used without a name (unless a name was missing in a declaration
before) and no `write` statement lacks its `;`. -/
theorem neverCrashes_iff_safe {dydList : List DydRow}
    (ends : EndsInEof (dydList.map DydRow.code)) :
    NeverCrashes dydList ↔ (run dydList).2.Safe := by
  have judged := wp_iff_outcome.mp (invoke_judged (callDepth dydList) .mainProcedure
    (initState dydList) (initState_endsInEof ends))
  have start : (initState dydList).Safe := fun _ _ member => by cases member
  have recorded := (run_onward dydList).recorded fun _ member => by cases member
  constructor
  · rintro ⟨returned, -⟩
    exact (judged.1 () returned).2 start
  · intro safe
    refine ⟨?_, recorded⟩
    cases ended : (run dydList).1 with
    | ok result => rfl
    | error raise =>
        rcases judged.2 raise ended with deep | unsafeCall
        · rw [deep] at ended
          exact absurd ended (run_ne_recursionError dydList)
        · exact absurd safe unsafeCall

private def twoWrites : List DydRow := tokensOf "begin integer k;write(k);;write(k);end"

/-- Two `write` statements that have their `;`. -/
theorem neverCrashes_iff_safe_two_writes : NeverCrashes twoWrites ∧ (run twoWrites).2.Safe := by
  have never : NeverCrashes twoWrites :=
    ⟨by decide +kernel, (run_onward twoWrites).recorded fun _ member => by cases member⟩
  exact ⟨never, (neverCrashes_iff_safe (by decide +kernel)).mp never⟩

/-- The last `write` of a program needs no `;` behind it, but `write_statement` wants one. -/
theorem write_before_end_crashes :
    ¬∀ dydList : List DydRow, (∀ row ∈ dydList, 1 ≤ row.code ∧ row.code ≤ 25) →
      EndsInEof (dydList.map DydRow.code) → NeverCrashes dydList := by
  intro never
  have returns := (never (tokensOf "begin integer k;write(k)end") (by decide +kernel)
    (by decide +kernel)).1
  have raises : (run (tokensOf "begin integer k;write(k)end")).1 = .error .typeError := by
    decide +kernel
  rw [raises] at returns
  cases returns

/-- An operand missing in front of `EOF`, and a missing name. -/
example : (run (tokensOf "begin integer k;k:=")).1 = .error .indexError ∧
    (run (tokensOf "begin integer k;read()end")).1 = .error .typeError := by
  decide +kernel

end OsCompiler.LabPy
