/-
The parse procedures of `lab_parser.py` as recognizers.

A call that returns without a syntax message has consumed a word of its nonterminal
(`invoke_reads`), in the grammar where `write_statement` has its `;`. A call in front of
a word of its nonterminal consumes it without a syntax message if what stands behind the
word does not continue it (`Derives.consumed`).
-/

import OsCompiler.LabPy.Descent
import OsCompiler.LabPy.Grammar

namespace OsCompiler.LabPy

open OsCompiler.Action

/-- The messages of `err_TXT` but those about undefined symbols. -/
def Globals.syntaxErrors (globals : Globals) : List (Message × Nat) :=
  globals.errTXT.filter fun row => !row.1.isUndefined

/-! ### What a clean run has read -/

/-- Either a syntax message has come in between, or a word of the language has been consumed. -/
structure Reads (language : List Int → Prop) (before after : State) : Prop where
  grows : before.syntaxErrors <+: after.syntaxErrors
  consumed : after.syntaxErrors = before.syntaxErrors →
    ∃ word, language word ∧ before.codes = word ++ after.codes

def Reader (standing : Option Int) (language : List Int → Prop) (action : Parser Unit) : Prop :=
  ∀ state, Context.Holds ⟨standing, true⟩ state →
    wp action (fun _ after => Reads language state after) (fun _ _ => True) state

theorem Reads.trans {first second third : State} {language : List Int → Prop}
    {derived : List Int → Prop} (left : Reads derived first second)
    (right : ∀ word, Reads (fun rest => derived word → language (word ++ rest)) second third) :
    Reads language first third where
  grows := left.grows.trans (right []).grows
  consumed same := by
    have middle : second.syntaxErrors = first.syntaxErrors :=
      (left.grows.eq_of_length_le (same ▸ (right []).grows.length_le)).symm
    rcases left.consumed middle with ⟨word, here, codes⟩
    rcases (right word).consumed (same.trans middle.symm) with ⟨rest, there, behind⟩
    exact ⟨word ++ rest, there here, by rw [codes, behind, List.append_assoc]⟩

theorem Reads.same {language : List Int → Prop} {before after : State} (empty : language [])
    (errors : after.syntaxErrors = before.syntaxErrors) (codes : after.codes = before.codes) :
    Reads language before after :=
  ⟨errors ▸ List.prefix_rfl, fun _ => ⟨[], empty, codes.symm⟩⟩

section Rules

variable {standing : Option Int} {language : List Int → Prop}

theorem Reader.done (empty : language []) : Reader standing language (pure ()) :=
  fun _ _ => wp_pure.mpr (.same empty rfl rfl)

theorem Reader.look {next : Int → Parser Unit}
    (rest : ∀ code, Reader (some code) language (next code)) :
    Reader standing language (currentCode >>= next) := by
  intro state _
  refine wp_look (fun _ => trivial) fun token behind ahead found => ?_
  refine wp_mono (rest token.2 state.skipped (Context.holds_some found _)) ?_ fun _ _ _ => trivial
  intro _ after reads
  have codes : state.skipped.codes = state.codes := by rw [Globals.codes, state.skipped_ahead]; rfl
  exact ⟨reads.grows, fun same => codes ▸ reads.consumed same⟩

theorem Reader.lookAhead {code : Int} {next : Int → Parser Unit}
    (rest : ∀ ahead, Reader (some code) language (next ahead)) :
    Reader (some code) language (nowMoreOne >>= next) := by
  intro state holds
  exact wp_lookAhead (holds code rfl) (fun _ _ => trivial) fun _ token _ _ =>
    rest token.2 state holds

theorem Reader.advance {code : Int} {next : Parser Unit}
    (rest : Reader none (fun word => language (code :: word)) next) :
    Reader (some code) language (advanced >>= fun _ => next) := by
  intro state holds
  refine wp_advance (holds code rfl) fun word behind ahead left => ?_
  refine wp_mono (rest state.moved (Context.holds_none _ _)) ?_ fun _ _ _ => trivial
  intro _ after reads
  refine ⟨reads.grows, fun same => ?_⟩
  rcases reads.consumed same with ⟨read, here, codes⟩
  refine ⟨code :: read, here, ?_⟩
  rw [Globals.codes_of_ahead ahead, List.map_cons, List.cons_append, ← codes,
    Globals.codes_of_ahead left]

theorem Reader.advanceLast {code : Int} (single : language [code]) :
    Reader (some code) language advanced := by
  have step : Reader (some code) language (advanced >>= fun _ => pure ()) := .advance (.done single)
  simpa using step

theorem Reader.report {errInfo : Message} (defined : errInfo.isUndefined = false) :
    Reader standing language (errPrint errInfo) := by
  intro state _
  have errors : (state.update (Globals.print errInfo)).syntaxErrors =
      state.syntaxErrors ++ [(errInfo, state.line)] := by
    simp [State.update, Globals.print, Globals.syntaxErrors, defined]
  refine (wp_of_outcome (outcome_change _ _)).mpr ⟨?_, fun same => ?_⟩
  · rw [errors]
    exact List.prefix_append _ _
  · rw [errors] at same
    simp at same

theorem Reader.stop {errInfo : Message} : Reader standing language (errFileName errInfo) :=
  fun _ _ => wp_throw.mpr trivial

theorem Reader.weaken {stronger : List Int → Prop} {action : Parser Unit}
    (reader : Reader none stronger action) (weaker : ∀ word, stronger word → language word) :
    Reader standing language action := by
  intro state _
  refine wp_mono (reader state (Context.holds_none _ _)) ?_ fun _ _ _ => trivial
  intro _ after reads
  refine ⟨reads.grows, fun same => ?_⟩
  rcases reads.consumed same with ⟨word, here, codes⟩
  exact ⟨word, weaker word here, codes⟩

/-- Behind a first part that reads `derived`, the rest reads what is left of the language. -/
theorem Reader.seq {derived : List Int → Prop} {first second : Parser Unit}
    (before : Reader none derived first)
    (after : ∀ word, Reader none (fun rest => derived word → language (word ++ rest)) second) :
    Reader standing language (first >>= fun _ => second) := by
  intro state _
  refine wp_bind.mpr (wp_mono (before state (Context.holds_none _ _)) ?_ fun _ _ _ => trivial)
  intro _ middle left
  exact wp_mono (wp_forall fun word => after word middle (Context.holds_none _ _))
    (fun _ _ rights => left.trans rights) fun _ _ _ => trivial

theorem Reader.ite {condition : Prop} [Decidable condition] {yes no : Parser Unit}
    (onTrue : condition → Reader standing language yes)
    (onFalse : ¬condition → Reader standing language no) :
    Reader standing language (if condition then yes else no) := by
  split
  · exact onTrue ‹_›
  · exact onFalse ‹_›

theorem Reader.expect {code : Int} {next : Parser Unit} {errInfo : Message}
    (defined : errInfo.isUndefined = false)
    (rest : Reader none (fun word => language (code :: word)) next) :
    Reader standing language (currentCode >>= fun current =>
      if current = code then advanced >>= fun _ => next else errPrint errInfo) :=
  .look fun _ => .ite (fun found => found ▸ .advance rest) fun _ => .report defined

theorem Reader.expectLast {code : Int} {errInfo : Message}
    (defined : errInfo.isUndefined = false) (single : language [code]) :
    Reader standing language (currentCode >>= fun current =>
      if current = code then advanced else errPrint errInfo) :=
  .look fun _ => .ite (fun found => found ▸ .advanceLast single) fun _ => .report defined

/-- A change of the tables. -/
theorem Reader.quiet {update : Globals → Globals} (listed : Bookkeeping update)
    (messages : ∀ globals, (update globals).errTXT = globals.errTXT) (empty : language []) :
    Reader standing language (change update) := by
  intro state _
  refine (wp_of_outcome (outcome_change _ _)).mpr (.same empty ?_ ?_)
  · exact congrArg (List.filter _) (messages state.toGlobals)
  · exact congrArg (List.map Prod.snd) (listed.ahead state.toGlobals)

theorem Reader.quietBefore {update : Globals → Globals} (listed : Bookkeeping update)
    (messages : ∀ globals, (update globals).errTXT = globals.errTXT) {next : Parser Unit}
    (rest : Reader none language next) :
    Reader standing language (change update >>= fun _ => next) := by
  have nothing : Reader none (· = []) (LabPy.change update) := .quiet listed messages rfl
  exact .seq nothing fun word => rest.weaken fun _ here empty => by rwa [empty]

theorem Reader.quietAfter {update : Globals → Globals} (listed : Bookkeeping update)
    (messages : ∀ globals, (update globals).errTXT = globals.errTXT) {first : Parser Unit}
    (before : Reader none language first) :
    Reader standing language (first >>= fun _ => change update) :=
  .seq before fun word => .quiet listed messages fun here => by rwa [List.append_nil]

theorem Reader.identify {next : Option (List Char) → Parser Unit}
    (name : ∀ word, Reader none (fun rest => language (identifierCode :: rest)) (next (some word)))
    (other : Reader none (fun _ => True) (next none)) :
    Reader standing language (identifier >>= next) := by
  intro state _
  refine wp_identify (fun _ => trivial) ?_ ?_
  · intro word behind ahead left
    refine wp_mono (name word state.moved (Context.holds_none _ _)) ?_ fun _ _ _ => trivial
    intro _ after reads
    refine ⟨reads.grows, fun same => ?_⟩
    rcases reads.consumed same with ⟨read, here, codes⟩
    refine ⟨identifierCode :: read, here, ?_⟩
    rw [Globals.codes_of_ahead ahead, List.map_cons, List.cons_append, ← codes,
      Globals.codes_of_ahead left]
  · intro token behind _ _
    refine wp_mono (other _ (Context.holds_none _ _)) ?_ fun _ _ _ => trivial
    intro _ after reads
    have errors : (state.skipped.update (Globals.print .identifier)).syntaxErrors =
        state.syntaxErrors ++ [(.identifier, state.skipped.line)] := by
      simp [State.update, Globals.print, Globals.syntaxErrors, Message.isUndefined]
      rfl
    have grows := reads.grows
    rw [errors] at grows
    refine ⟨(List.prefix_append _ _).trans grows, fun same => ?_⟩
    have longer := grows.length_le
    rw [same, List.length_append, List.length_singleton] at longer
    omega

theorem Reader.read {next : State → Parser Unit}
    (rest : ∀ read, Reader standing language (next read)) :
    Reader standing language (get >>= next) :=
  fun state holds => wp_bind.mpr (wp_get.mpr (rest state state holds))

/-- A message about an undefined symbol is no syntax message. -/
theorem Reader.undefined {word : List Char} (empty : language []) :
    Reader standing language (errPrint (.undefinedSymbol word)) := by
  intro state _
  refine (wp_of_outcome (outcome_change _ _)).mpr (.same empty ?_ rfl)
  simp [State.update, Globals.print, Globals.syntaxErrors, Message.isUndefined]

end Rules

theorem define_errTXT (word : Option (List Char)) (isFormal : Nat) (globals : Globals) :
    (globals.define word isFormal).errTXT = globals.errTXT := by
  rw [Globals.define]
  split <;> rfl

theorem nameProcedure_errTXT (word : Option (List Char)) (globals : Globals) :
    (globals.nameProcedure word).errTXT = globals.errTXT := by
  rw [Globals.nameProcedure]
  split <;> rfl

private theorem var_reads (defineOrUse : DefineOrUse) (isFormal : Nat) :
    Reader none (Derives [semicolonCode] (.var defineOrUse isFormal))
      (var defineOrUse isFormal) := by
  have single : ∀ word, word = [identifierCode] →
      Derives [semicolonCode] (.var defineOrUse isFormal) word := by
    rintro _ rfl
    exact .var defineOrUse isFormal
  cases defineOrUse with
  | define =>
      have named : Reader none (· = [identifierCode]) (varDefine isFormal) :=
        .identify (fun word => .quiet (.define _ _) (define_errTXT _ _) rfl)
          (.quiet (.define _ _) (define_errTXT _ _) trivial)
      exact .quietAfter .touchLines (fun _ => rfl) (named.weaken single)
  | use =>
      have named : Reader none (· = [identifierCode]) varUse := by
        refine .identify (fun word => .read fun state => ?_) (.read fun state => ?_)
        · exact .ite (fun _ => .done rfl) fun _ => .undefined rfl
        · exact .ite (fun _ => .done trivial) fun _ _ _ => wp_throw.mpr trivial
      exact .quietAfter .touchLines (fun _ => rfl) (named.weaken single)

/-! ### The bodies as readers -/

section Bodies

variable {call : Procedure → Parser Unit}
  (calls : ∀ callee, Reader none (Derives [semicolonCode] callee) (call callee))

include calls

private theorem block_reader {language : List Int → Prop}
    {endInfo semicolonInfo beginInfo : Message} (definedEnd : endInfo.isUndefined = false)
    (definedSemicolon : semicolonInfo.isUndefined = false)
    (definedBegin : beginInfo.isUndefined = false)
    (block : ∀ decls stmts, Derives [semicolonCode] .declareStatementTable decls →
      Derives [semicolonCode] .execStatementTable stmts →
      language (beginCode :: (decls ++ semicolonCode :: (stmts ++ [endCode])))) :
    Reader none language (do
      if (← currentCode) = beginCode then
        advanced
        call .declareStatementTable
        if (← currentCode) = semicolonCode then
          advanced
          call .execStatementTable
          if (← currentCode) = endCode then
            advanced
          else
            errPrint endInfo
        else
          errPrint semicolonInfo
      else
        errPrint beginInfo) := by
  refine .expect definedBegin <| .seq (calls _) fun decls => ?_
  refine .expect definedSemicolon <| .seq (calls _) fun stmts => ?_
  exact .expectLast definedEnd fun executed declared => block decls stmts declared executed

private theorem body_reads (procedure : Procedure) :
    Reader none (Derives [semicolonCode] procedure) (body call procedure) := by
  cases procedure with
  | mainProcedure => exact (calls _).weaken fun _ => .program
  | branchProcedure => exact block_reader calls rfl rfl rfl fun _ _ => .branch
  | funcBody => exact block_reader calls rfl rfl rfl fun _ _ => .funcBody
  | declareStatementTable =>
      exact .seq (calls _) fun decl => (calls _).weaken fun _ others first => .decls first others
  | declareStatementTableA =>
      refine .look fun code => .ite (fun semicolon => ?_) fun _ => .done .declsEnd
      subst semicolon
      refine .lookAhead fun ahead => .ite (fun _ => ?_) fun _ => .done .declsEnd
      exact .advance <| .seq (calls _) fun decl =>
        (calls _).weaken fun _ others first => .declsMore first others
  | declareStatement =>
      refine .look fun code => .ite (fun integer => ?_) fun _ => .report rfl
      refine .lookAhead fun ahead => .ite (fun _ => ?_) fun _ => ?_
      · exact (calls _).weaken fun _ => .declFunction
      · exact (calls _).weaken fun _ => .declVar
  | varDeclare => exact .expect rfl ((calls _).weaken fun _ => .varDeclare)
  | var defineOrUse isFormal => exact var_reads defineOrUse isFormal
  | funcDeclare =>
      have rest : Reader none (fun word => Derives [semicolonCode] .funcDeclare
          (integerCode :: functionCode :: identifierCode :: word)) (functionRest call) :=
        .expect rfl <| .seq (calls _) fun parameter => .expect rfl <| .expect rfl <|
          (calls _).weaken fun _ derived formal => .funcDeclare formal derived
      have inner : Reader none (Derives [semicolonCode] .funcDeclare) (declaredFunction call) :=
        .expect rfl <| .expect rfl <| .identify
          (fun name => .quietBefore (.nameProcedure _) (nameProcedure_errTXT _) rest)
          (.quietBefore (.nameProcedure _) (nameProcedure_errTXT _) (rest.weaken fun _ _ => trivial))
      refine .quietBefore (.level 1) (fun _ => rfl) <| .read fun state => .seq inner fun word => ?_
      exact .quietBefore (.restore _) (fun _ => rfl) <| .quiet (.level (-1)) (fun _ => rfl)
        fun here => by rwa [List.append_nil]
  | parameter => exact (calls _).weaken fun _ => .parameter
  | execStatementTable =>
      exact .seq (calls _) fun stmt => (calls _).weaken fun _ others first => .stmts first others
  | execStatementTableA =>
      refine .look fun code => .ite (fun semicolon => ?_) fun _ => .done .stmtsEnd
      subst semicolon
      refine .lookAhead fun ahead => .ite (fun _ => ?_) fun _ => .done .stmtsEnd
      exact .advance <| .seq (calls _) fun stmt =>
        (calls _).weaken fun _ others first => .stmtsMore first others
  | execStatement =>
      exact .look fun code => .ite (fun _ => (calls _).weaken fun _ => .stmtRead) fun _ =>
        .ite (fun _ => (calls _).weaken fun _ => .stmtWrite) fun _ =>
        .ite (fun _ => (calls _).weaken fun _ => .stmtIf) fun _ =>
        .ite (fun _ => (calls _).weaken fun _ => .stmtAssign) fun _ => .report rfl
  | readStatement =>
      exact .expect rfl <| .expect rfl <| .seq (calls _) fun name => .expectLast rfl .read
  | writeStatement =>
      refine .expect rfl <| .expect rfl <| .seq (calls _) fun name => .expect rfl ?_
      exact .look fun code => .ite (fun semicolon => semicolon ▸ .advanceLast .write)
        fun _ => .stop
  | assignStatement =>
      exact .seq (calls _) fun name => .expect rfl <|
        (calls _).weaken fun _ value named => .assign named value
  | mathExpression =>
      exact .seq (calls _) fun item => (calls _).weaken fun _ others first => .expr first others
  | mathExpressionA =>
      refine .look fun code => .ite (fun minus => minus ▸ .advance ?_) fun _ => .done .exprEnd
      exact .seq (calls _) fun item =>
        (calls _).weaken fun _ others first => .exprMore first others
  | item =>
      exact .seq (calls _) fun factor => (calls _).weaken fun _ others first => .item first others
  | itemA =>
      refine .look fun code => .ite (fun times => times ▸ .advance ?_) fun _ => .done .itemEnd
      exact .seq (calls _) fun factor =>
        (calls _).weaken fun _ others first => .itemMore first others
  | factor =>
      refine .look fun code => .ite (fun _ => (calls _).weaken fun _ => .factorConstant) fun _ => ?_
      exact .lookAhead fun ahead => .ite (fun _ => (calls _).weaken fun _ => .factorCall)
        fun _ => (calls _).weaken fun _ => .factorVar
  | funcCall =>
      have rest : Reader none (fun word => Derives [semicolonCode] .funcCall (identifierCode :: word))
          (do
            if (← currentCode) = 21 then
              advanced
              call .mathExpression
              if (← currentCode) = 22 then
                advanced
              else
                errPrint .call
            else
              errPrint .call) :=
        .expect rfl <| .seq (calls _) fun argument => .expectLast rfl .call
      exact .identify (fun _ => rest) (rest.weaken fun _ _ => trivial)
  | constant => exact (calls _).weaken fun _ => .constant
  | unsignedInteger => exact .expectLast rfl .unsignedInteger
  | conditionStatement =>
      refine .expect rfl <| .seq (calls _) fun test => .expect rfl <| .seq (calls _) fun yes => ?_
      exact .expect rfl <| (calls _).weaken fun _ onFalse onTrue tested =>
        .condition tested onTrue onFalse
  | conditionExpression =>
      exact .seq (calls _) fun left => .seq (calls _) fun operator =>
        (calls _).weaken fun _ second related first => .compare first related second
  | relationOperator =>
      exact .look fun code => .ite (fun listed => .advanceLast (.operator listed))
        fun _ => .report rfl

end Bodies

/-- A call that returns without a syntax message has consumed a word of its nonterminal. -/
theorem invoke_reads (depth : Nat) (procedure : Procedure) :
    Reader none (Derives [semicolonCode] procedure) (invoke depth procedure) := by
  induction depth generalizing procedure with
  | zero => exact fun _ _ => wp_throw.mpr trivial
  | succ depth ih =>
      intro state _
      refine wp_invoke_succ.mpr (wp_mono (body_reads ih procedure _ (Context.holds_none _ _)) ?_
        fun _ _ _ => trivial)
      exact fun _ after reads => ⟨reads.grows, reads.consumed⟩

/-! ### Words that are consumed -/

/-- In front of the tokens `before` an action leaves `left` without a syntax message, unless the
calls get too deep. -/
def Takes (standing : Option Int) (before left : List Int) (action : Parser Unit) : Prop :=
  ∀ state, Context.Holds ⟨standing, true⟩ state → state.codes = before →
    wp action (fun _ after => after.codes = left ∧ after.syntaxErrors = state.syntaxErrors)
      (fun raise _ => raise = .recursionError) state

section TakesRules

variable {standing : Option Int} {before middle left : List Int}

theorem Takes.done : Takes standing left left (pure ()) :=
  fun _ _ codes => wp_pure.mpr ⟨codes, rfl⟩

theorem ahead_of_codes {state : State} {code : Int} (codes : state.codes = code :: before) :
    ∃ word rest, state.ahead = (word, code) :: rest ∧ rest.map Prod.snd = before := by
  rcases List.map_eq_cons_iff.mp codes with ⟨token, rest, ahead, same, behind⟩
  exact ⟨token.1, rest, by rw [ahead, ← same], behind⟩

theorem Takes.look {code : Int} {next : Int → Parser Unit}
    (rest : Takes (some code) (code :: before) left (next code)) :
    Takes standing (code :: before) left (currentCode >>= next) := by
  intro state _ codes
  rcases ahead_of_codes codes with ⟨word, behind, ahead, -⟩
  refine wp_look (fun none => ?_) fun token more again found => ?_
  · rw [ahead] at none
    cases none
  · rw [ahead] at again
    cases again
    refine rest state.skipped (Context.holds_some found _) ?_
    rw [Globals.codes, state.skipped_ahead]
    exact codes

theorem Takes.lookAhead {code ahead : Int} {next : Int → Parser Unit}
    (rest : Takes (some code) (code :: ahead :: before) left (next ahead)) :
    Takes (some code) (code :: ahead :: before) left (nowMoreOne >>= next) := by
  intro state holds codes
  refine wp_lookAhead (holds code rfl) (fun word single => ?_) fun word token more found => ?_
  · rw [Globals.codes_of_ahead single] at codes
    cases codes
  · have same : token.2 = ahead := by
      rw [Globals.codes_of_ahead found] at codes
      exact (List.cons.inj (List.cons.inj codes).2).1
    rw [same]
    exact rest state holds codes

theorem Takes.advance {code : Int} {next : Parser Unit} (rest : Takes none before left next) :
    Takes (some code) (code :: before) left (advanced >>= fun _ => next) := by
  intro state holds codes
  refine wp_advance (holds code rfl) fun word behind ahead moved => ?_
  refine rest state.moved (Context.holds_none _ _) ?_
  rw [Globals.codes_of_ahead ahead] at codes
  rw [Globals.codes_of_ahead moved]
  exact (List.cons.inj codes).2

theorem Takes.advanceLast {code : Int} : Takes (some code) (code :: left) left advanced := by
  have step : Takes (some code) (code :: left) left (advanced >>= fun _ => pure ()) :=
    .advance .done
  simpa using step

theorem Takes.seq {first second : Parser Unit} (start : Takes none before middle first)
    (rest : Takes none middle left second) :
    Takes standing before left (first >>= fun _ => second) := by
  intro state _ codes
  refine wp_bind.mpr (wp_mono (start state (Context.holds_none _ _) codes) ?_ fun _ _ deep => deep)
  rintro _ after ⟨codes, errors⟩
  refine wp_mono (rest after (Context.holds_none _ _) codes) ?_ fun _ _ deep => deep
  exact fun _ _ ended => ⟨ended.1, ended.2.trans errors⟩

theorem Takes.relax {action : Parser Unit} (takes : Takes none before left action) :
    Takes standing before left action :=
  fun state _ codes => takes state (Context.holds_none _ _) codes

theorem Takes.yes {condition : Prop} [Decidable condition] {yes no : Parser Unit}
    (holds : condition) (takes : Takes standing before left yes) :
    Takes standing before left (if condition then yes else no) := by
  rwa [if_pos holds]

theorem Takes.no {condition : Prop} [Decidable condition] {yes no : Parser Unit}
    (fails : ¬condition) (takes : Takes standing before left no) :
    Takes standing before left (if condition then yes else no) := by
  rwa [if_neg fails]

theorem Takes.expect {code : Int} {next : Parser Unit} {errInfo : Message}
    (rest : Takes none before left next) :
    Takes standing (code :: before) left (currentCode >>= fun current =>
      if current = code then advanced >>= fun _ => next else errPrint errInfo) :=
  .look <| .yes rfl <| .advance rest

theorem Takes.expectLast {code : Int} {no : Parser Unit} :
    Takes standing (code :: left) left (currentCode >>= fun current =>
      if current = code then advanced else no) :=
  .look <| .yes rfl .advanceLast

theorem Takes.quiet {update : Globals → Globals} (listed : Bookkeeping update)
    (messages : ∀ globals, (update globals).errTXT = globals.errTXT) :
    Takes standing left left (change update) := by
  intro state _ codes
  refine (wp_of_outcome (outcome_change _ _)).mpr ⟨?_, ?_⟩
  · exact (congrArg (List.map Prod.snd) (listed.ahead state.toGlobals)).trans codes
  · exact congrArg (List.filter _) (messages state.toGlobals)

theorem Takes.identify {next : Option (List Char) → Parser Unit}
    (rest : ∀ word, Takes none before left (next (some word))) :
    Takes standing (identifierCode :: before) left (identifier >>= next) := by
  intro state _ codes
  rcases ahead_of_codes codes with ⟨word, behind, ahead, tail⟩
  refine wp_identify (fun none => ?_) ?_ ?_
  · rw [ahead] at none
    cases none
  · intro name more again moved
    rw [ahead] at again
    cases again
    refine rest word state.moved (Context.holds_none _ _) ?_
    rw [Globals.codes_of_ahead moved, tail]
  · intro token more again other
    rw [ahead] at again
    cases again
    exact absurd rfl other

theorem Takes.read {next : State → Parser Unit}
    (rest : ∀ read, Takes standing before left (next read)) :
    Takes standing before left (get >>= next) :=
  fun state holds codes => wp_bind.mpr (wp_get.mpr (rest state state holds codes))

theorem Takes.undefined {word : List Char} :
    Takes standing left left (errPrint (.undefinedSymbol word)) := by
  intro state _ codes
  refine (wp_of_outcome (outcome_change _ _)).mpr ⟨codes, ?_⟩
  simp [State.update, Globals.print, Globals.syntaxErrors, Message.isUndefined]

end TakesRules

/-- What must stand behind a word of a nonterminal, so that the procedure stops there. -/
def Stops : Procedure → List Int → Prop
  | .declareStatementTable, rest | .declareStatementTableA, rest =>
      ∃ next more, rest = semicolonCode :: next :: more ∧ next ≠ integerCode
  | .execStatementTable, rest | .execStatementTableA, rest => ∃ more, rest = endCode :: more
  | .execStatement, rest | .assignStatement, rest | .conditionStatement, rest
  | .conditionExpression, rest | .mathExpression, rest | .mathExpressionA, rest =>
      ∃ next more, rest = next :: more ∧ next ∉ [18, 19, leftBraketCode]
  | .item, rest | .itemA, rest => ∃ next more, rest = next :: more ∧ next ∉ [19, leftBraketCode]
  | .factor, rest => ∃ next more, rest = next :: more ∧ next ≠ leftBraketCode
  | _, _ => True

theorem Takes.invoke {procedure : Procedure} {before left : List Int}
    (takes : ∀ depth, Takes none before left (body (invoke depth) procedure)) (depth : Nat) :
    Takes none before left (LabPy.invoke depth procedure) := by
  cases depth with
  | zero => exact fun _ _ _ => wp_throw.mpr rfl
  | succ depth =>
      intro state _ codes
      exact wp_invoke_succ.mpr (wp_mono (takes depth (state.logged (.entered procedure))
        (Context.holds_none _ _) codes) (fun _ _ ended => ended) fun _ _ deep => deep)

private theorem var_takes (defineOrUse : DefineOrUse) (isFormal : Nat) (rest : List Int) :
    Takes none (identifierCode :: rest) rest (var defineOrUse isFormal) := by
  refine .seq ?_ (.quiet .touchLines fun _ => rfl)
  cases defineOrUse with
  | define => exact .identify fun word => .quiet (.define _ _) (define_errTXT _ _)
  | use =>
      refine .identify fun word => .read fun state => ?_
      by_cases known : state.Knows (some word)
      · exact .yes known .done
      · exact .no known .undefined

/-- The statements behind the `;` of a block do not continue its declarations. -/
theorem stops_decls {writeEnd stmts rest : List Int} (executed : Derives writeEnd
    .execStatementTable stmts) : Stops .declareStatementTable (semicolonCode :: (stmts ++ rest)) := by
  rcases executed.starts (by decide) with ⟨code, more, rfl, listed⟩
  have other : ∀ code ∈ Procedure.execStatementTable.starts, code ≠ integerCode := by decide
  exact ⟨code, more ++ rest, rfl, other code listed⟩

private theorem block_takes {depth : Nat} {decls stmts rest : List Int}
    {endInfo semicolonInfo beginInfo : Message}
    (declared : ∀ depth rest, Stops .declareStatementTable rest →
      Takes none (decls ++ rest) rest (invoke depth .declareStatementTable))
    (derived : Derives [semicolonCode] .execStatementTable stmts)
    (executed : ∀ depth rest, Stops .execStatementTable rest →
      Takes none (stmts ++ rest) rest (invoke depth .execStatementTable)) :
    Takes none (beginCode :: (decls ++ semicolonCode :: (stmts ++ [endCode])) ++ rest) rest (do
      if (← currentCode) = beginCode then
        advanced
        invoke depth .declareStatementTable
        if (← currentCode) = semicolonCode then
          advanced
          invoke depth .execStatementTable
          if (← currentCode) = endCode then
            advanced
          else
            errPrint endInfo
        else
          errPrint semicolonInfo
      else
        errPrint beginInfo) := by
  simp only [List.cons_append, List.append_assoc, List.nil_append]
  refine .expect <| .seq (declared depth _ (stops_decls derived)) <| .expect <|
    .seq (executed depth _ ⟨rest, rfl⟩) .expectLast

/-! ### What makes a procedure stop -/

theorem stops_item {more rest : List Int}
    (derived : Derives [semicolonCode] .mathExpressionA more) (stops : Stops .mathExpression rest) :
    Stops .item (more ++ rest) := by
  cases derived with
  | exprEnd =>
      rcases stops with ⟨next, behind, rfl, other⟩
      exact ⟨next, behind, rfl, fun listed => other (List.mem_cons_of_mem 18 listed)⟩
  | exprMore => exact ⟨18, _, rfl, by decide⟩

private theorem stops_factor {more rest : List Int} (derived : Derives [semicolonCode] .itemA more)
    (stops : Stops .item rest) : Stops .factor (more ++ rest) := by
  cases derived with
  | itemEnd =>
      rcases stops with ⟨next, behind, rfl, other⟩
      refine ⟨next, behind, rfl, fun bracket => other ?_⟩
      exact List.mem_cons_of_mem 19 (List.mem_singleton.mpr bracket)
  | itemMore => exact ⟨19, _, rfl, by decide⟩

theorem stops_stmt {writeEnd more rest : List Int}
    (derived : Derives writeEnd .execStatementTableA more)
    (stops : Stops .execStatementTable rest) : Stops .execStatement (more ++ rest) := by
  cases derived with
  | stmtsEnd =>
      rcases stops with ⟨behind, rfl⟩
      exact ⟨endCode, behind, rfl, by decide⟩
  | stmtsMore => exact ⟨semicolonCode, _, rfl, by decide⟩

private theorem stops_left {operator rest : List Int}
    (derived : Derives [semicolonCode] .relationOperator operator) :
    Stops .mathExpression (operator ++ rest) := by
  cases derived with
  | @operator code listed =>
      have other : ∀ code ∈ relationCodes, code ∉ [18, 19, leftBraketCode] := by decide
      exact ⟨code, rest, rfl, other code listed⟩

/-- A statement is told apart by its first code. -/
theorem execStatement_takes {depth : Nat} {stmt rest : List Int} {callee : Procedure}
    (derived : Derives [semicolonCode] callee stmt)
    (listed : callee ∈ [.readStatement, .writeStatement, .conditionStatement, .assignStatement])
    (takes : ∀ depth, Takes none (stmt ++ rest) rest (invoke depth callee)) :
    Takes none (stmt ++ rest) rest (execStatement (invoke depth)) := by
  have full : ∀ nonterminal ∈ [Procedure.readStatement, .writeStatement, .conditionStatement,
      .assignStatement], nonterminal ∉ Procedure.tails := by
    decide
  rcases derived.starts (full callee listed) with ⟨code, more, rfl, head⟩
  have here : Takes (some code) (code :: more ++ rest) rest (invoke depth callee) :=
    (takes depth).relax
  simp only [List.mem_cons, List.not_mem_nil, or_false] at listed
  rcases listed with rfl | rfl | rfl | rfl <;> rcases List.mem_singleton.mp head with rfl
  · exact .look <| .yes rfl here
  · exact .look <| .no (by decide) <| .yes rfl here
  · exact .look <| .no (by decide) <| .no (by decide) <| .yes rfl here
  · exact .look <| .no (by decide) <| .no (by decide) <| .no (by decide) <| .yes rfl here

/-- Two calls in a row, as at the beginning of every list. -/
theorem pair_takes {depth : Nat} {first more rest : List Int} {callee other : Procedure}
    (here : Takes none (first ++ (more ++ rest)) (more ++ rest) (invoke depth callee))
    (behind : Takes none (more ++ rest) rest (invoke depth other)) :
    Takes none (first ++ more ++ rest) rest
      (invoke depth callee >>= fun _ => invoke depth other) := by
  rw [List.append_assoc]
  exact .seq here behind

/-- In front of a word of its nonterminal a procedure consumes the word without a syntax
message, if what stands behind it makes it stop. -/
theorem Derives.consumed {procedure : Procedure} {word : List Int}
    (derived : Derives [semicolonCode] procedure word) :
    ∀ depth rest, Stops procedure rest → Takes none (word ++ rest) rest (invoke depth procedure) := by
  induction derived with
  | program _ ih => exact fun _ rest _ => .invoke (fun depth => ih depth rest trivial) _
  | branch _ derived declared executed | funcBody _ derived declared executed =>
      exact fun _ rest _ => .invoke (fun depth => block_takes declared derived executed) _
  | decls _ _ first others =>
      exact fun _ rest stops => .invoke (fun depth =>
        pair_takes (first depth _ trivial) (others depth rest stops)) _
  | declsEnd =>
      rintro _ _ ⟨next, more, rfl, other⟩
      exact .invoke (fun depth => .look <| .yes rfl <| .lookAhead <| .no other .done) _
  | declsMore derived _ first others =>
      refine fun _ rest stops => .invoke (fun depth => ?_) _
      have takes := pair_takes (first depth _ trivial) (others depth rest stops)
      rcases derived.starts (by decide) with ⟨code, more, rfl, head⟩
      rcases List.mem_singleton.mp head with rfl
      exact .look <| .yes rfl <| .lookAhead <| .yes rfl <| .advance takes
  | declVar derived ih =>
      refine fun _ rest _ => .invoke (fun depth => ?_) _
      have takes : Takes (some integerCode) _ rest (invoke depth .varDeclare) :=
        (ih depth rest trivial).relax
      rcases derived with _ | _ | _ | _ | _ | _ | _ | ⟨⟨⟩⟩
      exact .look <| .yes rfl <| .lookAhead <| .no (by decide) takes
  | declFunction derived ih =>
      refine fun _ rest _ => .invoke (fun depth => ?_) _
      have takes : Takes (some integerCode) _ rest (invoke depth .funcDeclare) :=
        (ih depth rest trivial).relax
      cases derived with
      | funcDeclare => exact .look <| .yes rfl <| .lookAhead <| .yes rfl takes
  | varDeclare _ ih =>
      exact fun _ rest _ => .invoke (fun depth => .expect (ih depth rest trivial)) _
  | var defineOrUse isFormal =>
      exact fun _ rest _ => .invoke (fun _ => var_takes defineOrUse isFormal rest) _
  | @funcDeclare parameter body _ _ formal derived =>
      have inner : ∀ depth rest, Takes none
          (integerCode :: functionCode :: identifierCode :: leftBraketCode ::
            (parameter ++ rightBraketCode :: semicolonCode :: body) ++ rest) rest
          (declaredFunction (invoke depth)) := by
        intro depth rest
        simp only [List.cons_append, List.append_assoc]
        refine .expect <| .expect <| .identify fun name => ?_
        refine .seq (.quiet (.nameProcedure _) (nameProcedure_errTXT _)) ?_
        exact .expect <| .seq (formal depth _ trivial) <| .expect <| .expect (derived depth rest trivial)
      refine fun _ rest _ => .invoke (fun depth => ?_) _
      refine .seq (.quiet (.level 1) fun _ => rfl) <| .read fun state => .seq (inner depth rest) ?_
      exact .seq (.quiet (.restore _) fun _ => rfl) (.quiet (.level (-1)) fun _ => rfl)
  | parameter _ ih => exact fun _ rest _ => .invoke (fun depth => ih depth rest trivial) _
  | stmts _ derived first others =>
      exact fun _ rest stops => .invoke (fun depth =>
        pair_takes (first depth _ (stops_stmt derived stops)) (others depth rest stops)) _
  | stmtsEnd =>
      rintro _ _ ⟨more, rfl⟩
      exact .invoke (fun depth => .look <| .no (by decide) .done) _
  | stmtsMore derived more first others =>
      refine fun _ rest stops => .invoke (fun depth => ?_) _
      have takes := pair_takes (first depth _ (stops_stmt more stops)) (others depth rest stops)
      rcases derived.starts (by decide) with ⟨code, behind, rfl, head⟩
      exact .look <| .yes rfl <| .lookAhead <| .yes head <| .advance takes
  | stmtRead derived ih =>
      exact fun _ rest _ => .invoke (fun _ =>
        execStatement_takes derived (by decide) fun depth => ih depth rest trivial) _
  | stmtWrite derived ih =>
      exact fun _ rest _ => .invoke (fun _ =>
        execStatement_takes derived (by decide) fun depth => ih depth rest trivial) _
  | stmtIf derived ih =>
      exact fun _ rest stops => .invoke (fun _ =>
        execStatement_takes derived (by decide) fun depth => ih depth rest stops) _
  | stmtAssign derived ih =>
      exact fun _ rest stops => .invoke (fun _ =>
        execStatement_takes derived (by decide) fun depth => ih depth rest stops) _
  | read _ named =>
      refine fun _ rest _ => .invoke (fun depth => ?_) _
      simp only [List.cons_append, List.append_assoc, List.nil_append]
      exact .expect <| .expect <| .seq (named depth _ trivial) .expectLast
  | write _ named =>
      refine fun _ rest _ => .invoke (fun depth => ?_) _
      simp only [List.cons_append, List.append_assoc, List.nil_append]
      exact .expect <| .expect <| .seq (named depth _ trivial) <| .expect .expectLast
  | assign _ _ named value =>
      refine fun _ rest stops => .invoke (fun depth => ?_) _
      simp only [List.cons_append, List.append_assoc]
      exact .seq (named depth _ trivial) <| .expect (value depth rest stops)
  | expr _ derived first others =>
      exact fun _ rest stops => .invoke (fun depth =>
        pair_takes (first depth _ (stops_item derived stops)) (others depth rest stops)) _
  | exprEnd =>
      rintro _ _ ⟨next, more, rfl, other⟩
      exact .invoke (fun depth => .look <| .no (fun minus => other (by simp [minus])) .done) _
  | exprMore _ derived first others =>
      refine fun _ rest stops => .invoke (fun depth => .look <| .yes rfl <| .advance ?_) _
      exact pair_takes (first depth _ (stops_item derived stops)) (others depth rest stops)
  | item _ derived first others =>
      exact fun _ rest stops => .invoke (fun depth =>
        pair_takes (first depth _ (stops_factor derived stops)) (others depth rest stops)) _
  | itemEnd =>
      rintro _ _ ⟨next, more, rfl, other⟩
      exact .invoke (fun depth => .look <| .no (fun times => other (by simp [times])) .done) _
  | itemMore _ derived first others =>
      refine fun _ rest stops => .invoke (fun depth => .look <| .yes rfl <| .advance ?_) _
      exact pair_takes (first depth _ (stops_factor derived stops)) (others depth rest stops)
  | factorVar derived ih =>
      rintro _ _ ⟨next, more, rfl, other⟩
      refine .invoke (fun depth => ?_) _
      have takes : Takes (some identifierCode) _ (next :: more) (invoke depth (.var .use 0)) :=
        (ih depth (next :: more) trivial).relax
      cases derived with
      | var => exact .look <| .no (by decide) <| .lookAhead <| .no other takes
  | factorConstant derived ih =>
      refine fun _ rest _ => .invoke (fun depth => ?_) _
      have takes : Takes (some constantCode) _ rest (invoke depth .constant) :=
        (ih depth rest trivial).relax
      rcases derived.starts (by decide) with ⟨code, behind, rfl, head⟩
      rcases List.mem_singleton.mp head with rfl
      exact .look <| .yes rfl takes
  | factorCall derived ih =>
      refine fun _ rest _ => .invoke (fun depth => ?_) _
      have takes : Takes (some identifierCode) _ rest (invoke depth .funcCall) :=
        (ih depth rest trivial).relax
      cases derived with
      | call => exact .look <| .no (by decide) <| .lookAhead <| .yes rfl takes
  | call _ ih =>
      refine fun _ rest _ => .invoke (fun depth => ?_) _
      simp only [List.cons_append, List.append_assoc, List.nil_append]
      refine .identify fun _ => .expect <| .seq (ih depth _ ?_) .expectLast
      exact ⟨rightBraketCode, rest, rfl, by decide⟩
  | constant _ ih => exact fun _ rest _ => .invoke (fun depth => ih depth rest trivial) _
  | unsignedInteger => exact fun _ rest _ => .invoke (fun _ => .expectLast) _
  | condition _ _ _ tested onTrue onFalse =>
      refine fun _ rest stops => .invoke (fun depth => ?_) _
      simp only [List.cons_append, List.append_assoc]
      refine .expect <| .seq (tested depth _ ⟨thenCode, _, rfl, by decide⟩) <| .expect ?_
      refine .seq (onTrue depth _ ⟨elseCode, _, rfl, by decide⟩) <| .expect ?_
      exact onFalse depth rest stops
  | compare _ related _ first operator second =>
      refine fun _ rest stops => .invoke (fun depth => ?_) _
      simp only [List.append_assoc]
      refine .seq (first depth _ (stops_left related)) ?_
      exact .seq (operator depth _ trivial) (second depth rest stops)
  | operator listed =>
      exact fun _ rest _ => .invoke (fun _ => .look <| .yes listed .advanceLast) _

end OsCompiler.LabPy
