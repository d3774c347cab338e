/-
What every call of a parse procedure of `lab_parser.py` does, whether it returns or raises.

A relation between states that the inspections and the changes of the globals keep is
kept by every call (`invoke_kept`). So the tokens ahead only shrink, `EOF` is never
consumed and `err_TXT` only grows. As tokens are consumed between any six nested
calls, no run reaches the depth that `run` allows.
-/

import OsCompiler.LabPy.LabParser

namespace OsCompiler.LabPy

open OsCompiler.TextLines OsCompiler.Action

/-! ### Relations that every call keeps -/

def Event.globals : Event → Globals
  | .entered _ globals | .returned _ globals => globals

/-- The changes of the globals apart from the position. -/
inductive Bookkeeping : (Globals → Globals) → Prop
  | print (errInfo : Message) : Bookkeeping (Globals.print errInfo)
  | define (word : Option (List Char)) (isFormal : Nat) :
      Bookkeeping (Globals.define word isFormal)
  | touchLines : Bookkeeping Globals.touchLines
  | nameProcedure (word : Option (List Char)) : Bookkeeping (Globals.nameProcedure word)
  | restore (name : Option (List Char)) :
      Bookkeeping fun globals => { globals with nowProcedure := name }
  | level (step : Int) :
      Bookkeeping fun globals => { globals with procedureLevel := globals.procedureLevel + step }

/-- A preorder that the parts of the bodies keep and in which the tokens ahead shrink. -/
structure Kept (Related : State → State → Prop) : Prop where
  refl : ∀ state, Related state state
  trans : ∀ {first second third}, Related first second → Related second third →
    Related first third
  consumed : ∀ {before after}, Related before after → after.ahead <:+ before.ahead
  skipped : ∀ state, Related state state.skipped
  moved : ∀ {state : State} {token : List Char × Int} {rest : List (List Char × Int)},
    state.ahead = token :: rest → token.2 ≠ eof → Related state state.moved
  bookkeeping : ∀ {change : Globals → Globals}, Bookkeeping change →
    ∀ state : State, Related state (state.update change)
  logged : ∀ (event : Globals → Event), (∀ globals, (event globals).globals = globals) →
    ∀ state : State, Related state (state.logged event)

/-- The position is where `context` says. -/
def Context.Holds (context : Context) (state : State) : Prop :=
  ∀ code, context.standing = some code → state.Standing code

theorem Context.holds_none (fresh : Bool) (state : State) :
    Context.Holds ⟨none, fresh⟩ state := by
  intro code standing
  cases standing

theorem Context.holds_some {code : Int} {state : State} (standing : state.Standing code)
    (fresh : Bool) : Context.Holds ⟨some code, fresh⟩ state := by
  intro other same
  cases same
  exact standing

theorem Procedure.rank_le (procedure : Procedure) : procedure.rank ≤ 5 := by
  unfold rank
  split <;> omega

/-- Both outcomes of an action are related to the state before, and what it raises is allowed. -/
def Keeps (Related : State → State → Prop) (Allowed : Raise → Prop) {Result : Type}
    (action : Parser Result) (state : State) : Prop :=
  wp action (fun _ after => Related state after)
    (fun raise after => Related state after ∧ Allowed raise) state

section Kept

variable {Related : State → State → Prop} (kept : Kept Related)
variable {Allowed : Raise → Prop} (indexError : Allowed .indexError)
  (typeError : Allowed .typeError)

include kept

theorem Kept.after {Result : Type} {action : Parser Result} {first second : State}
    (before : Related first second) (keeps : Keeps Related Allowed action second) :
    wp action (fun _ after => Related first after)
      (fun raise after => Related first after ∧ Allowed raise) second :=
  wp_mono keeps (fun _ _ later => kept.trans before later)
    fun _ _ later => ⟨kept.trans before later.1, later.2⟩

theorem Kept.seq {Result Other : Type} {action : Parser Other} {next : Other → Parser Result}
    {state : State} (first : Keeps Related Allowed action state)
    (second : ∀ other after, Related state after → Keeps Related Allowed (next other) after) :
    Keeps Related Allowed (action >>= next) state :=
  wp_seq first fun other after related => kept.after related (second other after related)

theorem Kept.change {update : Globals → Globals} (listed : Bookkeeping update) (state : State) :
    Keeps Related Allowed (LabPy.change update) state :=
  (wp_of_outcome (outcome_change update state)).mpr (kept.bookkeeping listed state)

theorem Kept.length_le {before after : State} (related : Related before after) :
    after.ahead.length ≤ before.ahead.length :=
  (kept.consumed related).length_le

include indexError

theorem Kept.identify {Result : Type} {next : Option (List Char) → Parser Result} {state : State}
    (second : ∀ word after, Related state after → Keeps Related Allowed (next word) after) :
    Keeps Related Allowed (identifier >>= next) state := by
  refine wp_identify (fun _ => ⟨kept.skipped state, indexError⟩) ?_ ?_
  · intro word rest ahead _
    have moved := kept.moved ahead (show identifierCode ≠ eof by decide)
    exact kept.after moved (second (some word) _ moved)
  · intro token rest _ _
    have printed := kept.trans (kept.skipped state) (kept.bookkeeping (.print .identifier) _)
    exact kept.after printed (second none _ printed)

include typeError

theorem Kept.var (defineOrUse : DefineOrUse) (isFormal : Nat) (state : State) :
    Keeps Related Allowed (LabPy.var defineOrUse isFormal) state := by
  refine kept.seq ?_ fun _ after _ => kept.change .touchLines after
  cases defineOrUse with
  | define =>
      exact kept.identify indexError fun word after _ => kept.change (.define word _) after
  | use =>
      refine kept.identify indexError fun word after _ => ?_
      refine kept.seq (wp_get.mpr (kept.refl after)) fun read later _ => ?_
      split
      · exact wp_pure.mpr (kept.refl later)
      · cases word with
        | some word => exact kept.change (.print _) later
        | none => exact wp_throw.mpr ⟨kept.refl later, typeError⟩

/-- `start` is the state in which the body of the procedure begins. -/
theorem Kept.built {call : Procedure → Parser Unit} {procedure : Procedure} {start : State}
    (calls : ∀ callee state, Related start state →
      state.ahead.length < start.ahead.length ∨ callee.rank < procedure.rank →
      Keeps Related Allowed (call callee) state)
    {context : Context} {part : Parser Unit} (built : Built call procedure context part) :
    ∀ state, context.Holds state → Related start state →
      (context.fresh = false → state.ahead.length < start.ahead.length) →
      Keeps Related Allowed part state := by
  induction built with
  | done => exact fun state _ _ _ => wp_pure.mpr (kept.refl state)
  | look next ih =>
      intro state _ since consumed
      refine wp_look (fun _ => ⟨kept.skipped state, indexError⟩) fun token rest _ standing => ?_
      refine kept.after (kept.skipped state) (ih token.2 state.skipped
        (Context.holds_some standing _) (kept.trans since (kept.skipped state)) ?_)
      rwa [state.skipped_ahead]
  | lookAhead notLast next ih =>
      intro state holds since consumed
      refine wp_lookAhead (holds _ rfl) (fun _ _ => ⟨kept.refl state, indexError⟩)
        fun _ token _ _ => ?_
      exact ih token.2 state holds since consumed
  | advance notLast next ih =>
      intro state holds since consumed
      refine wp_advance (holds _ rfl) fun word rest ahead left => ?_
      have moved := kept.moved ahead notLast
      refine kept.after moved (ih state.moved (Context.holds_none _ _)
        (kept.trans since moved) fun _ => ?_)
      have before := kept.length_le since
      rw [ahead, List.length_cons] at before
      rw [left]
      omega
  | report errInfo defined => exact fun state _ _ _ => kept.change (.print errInfo) state
  | stop => exact fun state _ _ _ => wp_throw.mpr ⟨kept.refl state, typeError⟩
  | call callee bounded =>
      exact fun state _ since consumed => calls callee state since (bounded.imp_left consumed)
  | seq before after ihBefore ihAfter =>
      intro state holds since consumed
      refine kept.seq (ihBefore state holds since consumed) fun _ middle related => ?_
      exact ihAfter middle (Context.holds_none _ middle) (kept.trans since related)
        fun fresh => (kept.length_le related).trans_lt (consumed fresh)
  | identify called next ih =>
      intro state _ since consumed
      refine kept.identify indexError fun _ after related => ?_
      exact ih after (Context.holds_none _ after) (kept.trans since related)
        fun fresh => (kept.length_le related).trans_lt (consumed fresh)
  | var defineOrUse isFormal =>
      exact fun state _ _ _ => kept.var indexError typeError defineOrUse isFormal state
  | name declared next ih =>
      intro state _ since consumed
      refine kept.identify indexError fun name after related => ?_
      refine kept.seq (kept.change (.nameProcedure name) after) fun _ later named => ?_
      have onward := kept.trans related named
      exact ih later (Context.holds_none _ later) (kept.trans since onward)
        fun fresh => (kept.length_le onward).trans_lt (consumed fresh)
  | within declared inner ih =>
      intro state _ since consumed
      refine kept.seq (kept.change (.level 1) state) fun _ raised related => ?_
      refine wp_bind.mpr (wp_get.mpr ?_)
      refine kept.seq (ih raised (Context.holds_none _ _) (kept.trans since related)
        fun fresh => (kept.length_le related).trans_lt (consumed fresh)) fun _ left _ => ?_
      exact kept.seq (kept.change (.restore _) left) fun _ restored _ =>
        kept.change (.level (-1)) restored

omit indexError typeError

/-- Every call keeps what the parts of the bodies keep, however it ends, and six calls for each
token ahead are deep enough. -/
theorem Kept.invoke (depth : Nat) (procedure : Procedure) (state : State) :
    Keeps Related
      (fun raise => 6 * state.ahead.length + procedure.rank < depth → raise ≠ .recursionError)
      (invoke depth procedure) state := by
  induction depth generalizing procedure state with
  | zero => exact wp_throw.mpr ⟨kept.refl state, fun bounded => absurd bounded (by omega)⟩
  | succ depth ih =>
      have same := kept.logged (.entered procedure) (fun _ => rfl) state
      refine wp_invoke_succ.mpr (wp_mono (kept.after same (kept.built (fun _ => by decide)
        (fun _ => by decide) ?_ (body_built (LabPy.invoke depth) procedure) _
        (Context.holds_none _ _) (kept.refl _) fun fresh => ?_))
        (fun _ left related => kept.trans related (kept.logged _ (fun _ => rfl) left))
        fun _ _ raised => raised)
      · intro callee later since bounded
        refine wp_mono (ih callee later) (fun _ _ related => related) ?_
        intro raise after raised
        refine ⟨raised.1, fun deep => raised.2 ?_⟩
        have first := kept.length_le same
        have second := kept.length_le since
        have rank := callee.rank_le
        rcases bounded with shorter | lower
        · omega
        · omega
      · cases fresh

end Kept

/-! ### Properties that a return keeps -/

/-- A property of states that the inspections and the syntax messages keep. -/
structure Steady (Holds : State → Prop) : Prop where
  skipped : ∀ {state : State}, Holds state → Holds state.skipped
  moved : ∀ {state : State}, Holds state → Holds state.moved
  print : ∀ {state : State} {errInfo : Message}, errInfo.isUndefined = false → Holds state →
    Holds (state.update (Globals.print errInfo))

def Preserves (Holds : State → Prop) (action : Parser Unit) : Prop :=
  ∀ state, Holds state → wp action (fun _ after => Holds after) (fun _ _ => True) state

theorem Preserves.seq {Holds : State → Prop} {first second : Parser Unit}
    (before : Preserves Holds first) (behind : Preserves Holds second) :
    Preserves Holds (first >>= fun _ => second) :=
  fun state holds => wp_seq (before state holds) fun _ middle => behind middle

theorem Steady.identify {Holds : State → Prop} (steady : Steady Holds)
    {next : Option (List Char) → Parser Unit} (rest : ∀ word, Preserves Holds (next word)) :
    Preserves Holds (identifier >>= next) := by
  intro state holds
  refine wp_identify (fun _ => trivial) (fun word _ _ _ => ?_) fun _ _ _ _ => ?_
  · exact rest (some word) _ (steady.moved holds)
  · exact rest none _ (steady.print rfl (steady.skipped holds))

theorem Steady.varUse {Holds : State → Prop} (steady : Steady Holds)
    (undefined : ∀ {state : State} (word : List Char), Holds state →
      Holds (state.update (Globals.print (.undefinedSymbol word)))) :
    Preserves Holds LabPy.varUse := by
  refine steady.identify fun word state holds => wp_bind.mpr (wp_get.mpr ?_)
  split
  · exact wp_pure.mpr holds
  · cases word with
    | some word => exact undefined word holds
    | none => exact wp_throw.mpr trivial

/-- All but `func_declare` keep what their calls and `var` keep. -/
theorem Built.preserves {Holds : State → Prop} (steady : Steady Holds)
    {call : Procedure → Parser Unit} {procedure : Procedure} (plain : procedure ≠ .funcDeclare)
    (calls : ∀ callee, Preserves Holds (call callee))
    (named : ∀ defineOrUse isFormal, procedure = .var defineOrUse isFormal →
      Preserves Holds (LabPy.var defineOrUse isFormal))
    {context : Context} {part : Parser Unit} (built : Built call procedure context part) :
    ∀ state, context.Holds state → Holds state →
      wp part (fun _ after => Holds after) (fun _ _ => True) state := by
  induction built with
  | done => exact fun state _ holds => wp_pure.mpr holds
  | look next ih =>
      intro state _ holds
      refine wp_look (fun _ => trivial) fun token rest _ standing => ?_
      exact ih token.2 state.skipped (Context.holds_some standing _) (steady.skipped holds)
  | lookAhead notLast next ih =>
      intro state standing holds
      exact wp_lookAhead (standing _ rfl) (fun _ _ => trivial) fun _ token _ _ =>
        ih token.2 state standing holds
  | advance notLast next ih =>
      intro state standing holds
      exact wp_advance (standing _ rfl) fun _ _ _ _ =>
        ih state.moved (Context.holds_none _ _) (steady.moved holds)
  | report errInfo defined => exact fun state _ holds => steady.print defined holds
  | stop => exact fun _ _ _ => wp_throw.mpr trivial
  | call callee => exact fun state _ => calls callee state
  | seq before after ihBefore ihAfter =>
      exact fun state standing holds => wp_seq (ihBefore state standing holds) fun _ middle =>
        ihAfter middle (Context.holds_none _ middle)
  | identify called next ih =>
      exact fun state _ => steady.identify
        (fun _ after => ih after (Context.holds_none _ after)) state
  | var defineOrUse isFormal same => exact fun state _ => named defineOrUse isFormal same state
  | name declared => exact absurd declared plain
  | within declared => exact absurd declared plain

/-! ### Tokens, messages and the trace -/

def EndsInEof (codes : List Int) : Prop := ∃ front, codes = front ++ [eof] ∧ eof ∉ front

theorem endsInEof_iff (codes : List Int) :
    EndsInEof codes ↔ codes.getLast? = some eof ∧ eof ∉ codes.dropLast := by
  constructor
  · rintro ⟨front, rfl, fresh⟩
    simpa using fresh
  · rintro ⟨last, fresh⟩
    rcases List.getLast?_eq_some_iff.mp last with ⟨front, rfl⟩
    exact ⟨front, rfl, by simpa using fresh⟩

instance (codes : List Int) : Decidable (EndsInEof codes) :=
  decidable_of_iff _ (endsInEof_iff codes).symm

theorem EndsInEof.tail {code : Int} {codes : List Int} (ends : EndsInEof (code :: codes))
    (notLast : code ≠ eof) : EndsInEof codes := by
  rcases ends with ⟨_ | ⟨first, front⟩, same, fresh⟩
  · exact absurd (List.cons.inj same).1 notLast
  · exact ⟨front, (List.cons.inj same).2, fun member => fresh (List.mem_cons_of_mem _ member)⟩

theorem EndsInEof.ne_nil {codes : List Int} (ends : EndsInEof codes) : codes ≠ [] := by
  rcases ends with ⟨front, rfl, -⟩
  simp

theorem EndsInEof.of_singleton {code : Int} (ends : EndsInEof [code]) : code = eof := by
  rcases ends with ⟨_ | ⟨first, front⟩, same, -⟩
  · exact (List.cons.inj same).1
  · simp at same

theorem EndsInEof.head_ne {code next : Int} {codes : List Int}
    (ends : EndsInEof (code :: next :: codes)) : code ≠ eof := by
  rintro rfl
  rcases ends with ⟨_ | ⟨first, front⟩, same, fresh⟩
  · simp at same
  · exact fresh ((List.cons.inj same).1 ▸ List.mem_cons_self)

/-- Every call and return so far was made when `err_TXT` was a beginning of what it is now. -/
def State.Recorded (state : State) : Prop :=
  ∀ event ∈ state.trace, event.globals.errTXT <+: state.errTXT

/-- What a call leaves of the state before it, whether it returns or raises. -/
structure Onward (before after : State) : Prop where
  tokens : after.dydList = before.dydList
  consumed : after.ahead <:+ before.ahead
  messages : before.errTXT <+: after.errTXT
  calls : before.trace <+: after.trace
  recorded : before.Recorded → after.Recorded
  eofLeft : EndsInEof before.codes → EndsInEof after.codes

theorem Bookkeeping.tokens {change : Globals → Globals} (listed : Bookkeeping change)
    (globals : Globals) :
    (change globals).dydList = globals.dydList ∧ (change globals).pos = globals.pos := by
  cases listed with
  | define word isFormal =>
      simp only [Globals.define]
      split <;> exact ⟨rfl, rfl⟩
  | nameProcedure word =>
      simp only [Globals.nameProcedure]
      split <;> exact ⟨rfl, rfl⟩
  | _ => exact ⟨rfl, rfl⟩

theorem Bookkeeping.ahead {change : Globals → Globals} (listed : Bookkeeping change)
    (globals : Globals) : (change globals).ahead = globals.ahead := by
  rw [Globals.ahead, (listed.tokens globals).1, (listed.tokens globals).2, Globals.ahead]

theorem Bookkeeping.messages {change : Globals → Globals} (listed : Bookkeeping change)
    (globals : Globals) : globals.errTXT <+: (change globals).errTXT := by
  cases listed with
  | print errInfo => exact List.prefix_append _ _
  | define word isFormal =>
      simp only [Globals.define]
      split <;> exact List.prefix_rfl
  | nameProcedure word =>
      simp only [Globals.nameProcedure]
      split <;> exact List.prefix_rfl
  | _ => exact List.prefix_rfl

theorem kept_onward : Kept Onward where
  refl state := ⟨rfl, List.suffix_rfl, List.prefix_rfl, List.prefix_rfl, id, id⟩
  trans first second :=
    ⟨second.tokens.trans first.tokens, second.consumed.trans first.consumed,
      first.messages.trans second.messages, first.calls.trans second.calls,
      fun recorded => second.recorded (first.recorded recorded),
      fun ends => second.eofLeft (first.eofLeft ends)⟩
  consumed onward := onward.consumed
  skipped state := by
    have same := state.skipped_ahead
    refine ⟨rfl, same ▸ List.suffix_rfl, List.prefix_rfl, List.prefix_rfl, id, fun ends => ?_⟩
    rwa [Globals.codes, same]
  moved {state token rest} ahead notLast := by
    have left := (outcome_advanced ahead).2
    refine ⟨rfl, ?_, List.prefix_rfl, List.prefix_rfl, id, fun ends => ?_⟩
    · rw [left, ahead]
      exact List.suffix_cons token rest
    · rw [Globals.codes, ahead] at ends
      rw [Globals.codes, left]
      exact ends.tail notLast
  bookkeeping {change} listed state := by
    have same : (state.update change).ahead = state.ahead := listed.ahead state.toGlobals
    have grows := listed.messages state.toGlobals
    refine ⟨(listed.tokens _).1, same ▸ List.suffix_rfl, grows, List.prefix_rfl,
      fun recorded event member => (recorded event member).trans grows, fun ends => ?_⟩
    rwa [Globals.codes, same]
  logged event same state := by
    refine ⟨rfl, List.suffix_rfl, List.prefix_rfl, List.prefix_append _ _, ?_, id⟩
    intro recorded other member
    rcases List.mem_append.mp member with earlier | latest
    · exact recorded other earlier
    · rw [List.mem_singleton.mp latest, same]
      exact List.prefix_rfl

/-- A property of states that the inspections and the changes of the globals keep. -/
structure Invariant (Holds : State → Prop) : Prop where
  skipped : ∀ {state : State}, Holds state → Holds state.skipped
  moved : ∀ {state : State} {token : List Char × Int} {rest : List (List Char × Int)},
    state.ahead = token :: rest → token.2 ≠ eof → Holds state → Holds state.moved
  bookkeeping : ∀ {change : Globals → Globals}, Bookkeeping change →
    ∀ {state : State}, Holds state → Holds (state.update change)
  logged : ∀ (event : Globals → Event), (∀ globals, (event globals).globals = globals) →
    ∀ {state : State}, Holds state → Holds (state.logged event)

theorem Invariant.kept {Holds : State → Prop} (invariant : Invariant Holds) :
    Kept fun before after => Onward before after ∧ (Holds before → Holds after) where
  refl state := ⟨kept_onward.refl state, id⟩
  trans first second := ⟨kept_onward.trans first.1 second.1, second.2 ∘ first.2⟩
  consumed related := related.1.consumed
  skipped state := ⟨kept_onward.skipped state, invariant.skipped⟩
  moved ahead notLast := ⟨kept_onward.moved ahead notLast, invariant.moved ahead notLast⟩
  bookkeeping listed state :=
    ⟨kept_onward.bookkeeping listed state, invariant.bookkeeping listed⟩
  logged event same state := ⟨kept_onward.logged event same state, invariant.logged event same⟩

theorem invoke_onward (depth : Nat) (procedure : Procedure) (state : State) :
    wp (invoke depth procedure) (fun _ after => Onward state after)
      (fun _ after => Onward state after) state :=
  wp_mono (kept_onward.invoke depth procedure state) (fun _ _ onward => onward)
    fun _ _ raised => raised.1

theorem body_onward (depth : Nat) (procedure : Procedure) (state : State) :
    wp (body (invoke depth) procedure) (fun _ after => Onward state after)
      (fun _ after => Onward state after) state := by
  have calls : ∀ callee later,
      Keeps Onward (fun _ => True) (invoke depth callee) later := fun callee later =>
    wp_mono (invoke_onward depth callee later) (fun _ _ onward => onward)
      fun _ _ onward => ⟨onward, trivial⟩
  refine wp_mono (kept_onward.built trivial trivial (fun callee later _ _ => calls callee later)
    (body_built (invoke depth) procedure) state (Context.holds_none _ state)
    (kept_onward.refl state) fun fresh => ?_) (fun _ _ onward => onward)
    fun _ _ raised => raised.1
  cases fresh

/-! ### The run of the program -/

theorem codes_strip (rows : List DydRow) :
    (strip rows).map Prod.snd = (rows.map DydRow.code).filter (· ≠ eoln) := by
  rw [strip, List.filter_map, List.map_map]
  rfl

/-- Without the line breaks a token list still ends in its only `EOF`. -/
theorem initState_endsInEof {dydList : List DydRow}
    (ends : EndsInEof (dydList.map DydRow.code)) : EndsInEof (initState dydList).codes := by
  rcases ends with ⟨front, same, fresh⟩
  have codes : (initState dydList).codes = (strip dydList).map Prod.snd := rfl
  rw [codes, codes_strip, same, List.filter_append]
  exact ⟨front.filter (· ≠ eoln), rfl, fun member => fresh (List.mem_filter.mp member).1⟩

theorem run_onward (dydList : List DydRow) : Onward (initState dydList) (run dydList).2 := by
  have onward := wp_iff_outcome.mp
    (invoke_onward (callDepth dydList) .mainProcedure (initState dydList))
  cases ended : (run dydList).1 with
  | ok result => exact onward.1 result ended
  | error raise => exact onward.2 raise ended

/-- What holds at the start holds where the run ends, also if it raises. -/
theorem Invariant.run {Holds : State → Prop} (invariant : Invariant Holds)
    {dydList : List DydRow} (start : Holds (initState dydList)) : Holds (run dydList).2 := by
  have ended := wp_iff_outcome.mp
    (invariant.kept.invoke (callDepth dydList) .mainProcedure (initState dydList))
  cases returned : (LabPy.run dydList).1 with
  | ok result => exact (ended.1 result returned).2 start
  | error raise => exact (ended.2 raise returned).1.2 start

/-- The recursion always comes to an end. -/
theorem run_ne_recursionError (dydList : List DydRow) :
    (run dydList).1 ≠ .error .recursionError := by
  intro ended
  have raised := (wp_iff_outcome.mp
    (kept_onward.invoke (callDepth dydList) .mainProcedure (initState dydList))).2 _ ended
  refine raised.2 ?_ rfl
  change 6 * (strip dydList).length + 1 < 6 * (strip dydList).length + 2
  omega

end OsCompiler.LabPy
