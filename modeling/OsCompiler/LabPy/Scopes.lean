/-
Which undefined symbols `lab_parser.py` reports.

The trace of a run tells which names are declared, used and called, and in which
procedure. By it `scopes` keeps the names that the procedures which have not returned
have declared, innermost first. The two tables do not forget the names of a procedure
when it ends and `func_call` does not consult them, which is all that sets the reports
apart from the scopes.
-/

import OsCompiler.LabPy.Descent

namespace OsCompiler.LabPy

open OsCompiler.Action

/-! ### Names in the trace -/

def Globals.nameAhead (globals : Globals) : Option (List Char) :=
  match globals.ahead with
  | token :: _ => if token.2 = identifierCode then some token.1 else none
  | [] => none

def Globals.functionAhead (globals : Globals) : Option (List Char) :=
  match globals.ahead with
  | first :: second :: token :: _ =>
      if first.2 = integerCode ∧ second.2 = functionCode ∧ token.2 = identifierCode then
        some token.1
      else none
  | _ => none

def Event.declares : Event → Option (List Char)
  | .entered (.var .define _) globals => globals.nameAhead
  | .entered .funcDeclare globals => globals.functionAhead
  | _ => none

/-- The name in a `read` or `write`, on the left of an assignment or as a factor. -/
def Event.uses : Event → Option (List Char)
  | .entered (.var .use _) globals => globals.nameAhead
  | _ => none

def Event.calls : Event → Option (List Char)
  | .entered .funcCall globals => globals.nameAhead
  | _ => none

def declareIn : List (List (List Char)) → Option (List Char) → List (List (List Char))
  | scope :: outer, some word => (word :: scope) :: outer
  | scopes, _ => scopes

/-- The name of a function belongs to the procedure around it. -/
def nextScopes (scopes : List (List (List Char))) : Event → List (List (List Char))
  | .entered (.var .define _) globals => declareIn scopes globals.nameAhead
  | .entered .funcDeclare globals => [] :: declareIn scopes globals.functionAhead
  | .returned .funcDeclare _ => scopes.tail
  | _ => scopes

def scopes (trace : List Event) : List (List (List Char)) := trace.foldl nextScopes [[]]

def visible (trace : List Event) : List (List Char) := (scopes trace).flatten

def declared (trace : List Event) : List (List Char) := trace.filterMap Event.declares

def Reported (word : List Char) (before after : Globals) : Prop :=
  ∃ line, (.undefinedSymbol word, line) ∈ after.errTXT.drop before.errTXT.length

/-- Up to the event behind it, a name that is used or called is reported if and only if it
cannot be used there. -/
def ReportsByScope (trace : List Event) : Prop :=
  ∀ before event next word, before ++ [event] ++ [next] <+: trace →
    event.uses = some word ∨ event.calls = some word →
    (Reported word event.globals next.globals ↔ word ∉ visible before)

/-- Every name that is used is in scope or declared nowhere before, and every name that is
called is in scope. -/
def NamesInScope (trace : List Event) : Prop :=
  ∀ before event word, before ++ [event] <+: trace →
    (event.uses = some word → word ∈ declared before → word ∈ visible before) ∧
      (event.calls = some word → word ∈ visible before)

private theorem mem_flatten_declareIn {scopes : List (List (List Char))} {name : Option (List Char)}
    {word : List Char} (member : word ∈ (declareIn scopes name).flatten) :
    word ∈ scopes.flatten ∨ name = some word := by
  cases scopes with
  | nil => exact .inl member
  | cons scope outer =>
      cases name with
      | none => exact .inl member
      | some other =>
          rcases List.mem_cons.mp member with same | earlier
          · exact .inr (congrArg some same.symm)
          · exact .inl earlier

/-- Only declared names can be used. -/
theorem visible_subset (trace : List Event) : ∀ word ∈ visible trace, word ∈ declared trace := by
  induction trace using List.reverseRecOn with
  | nil =>
      intro word member
      cases member
  | append_singleton trace event ih =>
      intro word member
      have step : visible (trace ++ [event]) = (nextScopes (scopes trace) event).flatten := by
        rw [visible, scopes, List.foldl_append]
        rfl
      have goal : word ∈ (scopes trace).flatten ∨ event.declares = some word := by
        rw [step] at member
        unfold nextScopes at member
        split at member
        · exact mem_flatten_declareIn member
        · exact mem_flatten_declareIn member
        · exact .inl (List.mem_flatten.mpr (by
            rcases List.mem_flatten.mp member with ⟨scope, inside, found⟩
            exact ⟨scope, List.mem_of_mem_tail inside, found⟩))
        · exact .inl member
      rw [declared, List.filterMap_append]
      rcases goal with earlier | latest
      · exact List.mem_append_left _ (ih word earlier)
      · refine List.mem_append_right _ ?_
        rw [List.filterMap_cons_some latest]
        exact List.mem_cons_self

/-! ### What the tables know -/

/-- What is reported by `globals` of a name used or called in the event before: a use if the
name is declared nowhere, a call never. -/
def Told (before : List Event) (event : Event) (globals : Globals) : Prop :=
  ∀ word, (event.uses = some word →
      (Reported word event.globals globals ↔ word ∉ declared before)) ∧
    (event.calls = some word → ¬Reported word event.globals globals)

/-- Each event has told the next one, and the tables know the names declared so far, but for the
one `announced` by the last event. -/
structure Scoped (announced : Option (List Char)) (state : State) : Prop where
  chronicle : ∀ before event next, before ++ [event] ++ [next] <+: state.trace →
    Told before event next.globals
  pending : ∀ before event, state.trace = before ++ [event] →
    Told before event state.toGlobals
  known : ∀ word, state.Knows (some word) ∨ announced = some word ↔ word ∈ declared state.trace

private theorem reported_same (word : List Char) (globals : Globals) :
    ¬Reported word globals globals := by
  rintro ⟨line, member⟩
  rw [List.drop_length] at member
  cases member

private theorem reported_print (word : List Char) (before after : Globals) {errInfo : Message}
    (defined : errInfo.isUndefined = false) :
    Reported word before (after.print errInfo) ↔ Reported word before after := by
  constructor
  · rintro ⟨line, member⟩
    rw [Globals.print, List.drop_append] at member
    rcases List.mem_append.mp member with earlier | latest
    · exact ⟨line, earlier⟩
    · cases List.mem_singleton.mp (List.mem_of_mem_drop latest)
      cases defined
  · rintro ⟨line, member⟩
    refine ⟨line, ?_⟩
    rw [Globals.print, List.drop_append]
    exact List.mem_append_left _ member

private theorem reported_undefined (word : List Char) (before after : Globals)
    (same : after.errTXT = before.errTXT) :
    Reported word before (after.print (.undefinedSymbol word)) := by
  refine ⟨after.line, ?_⟩
  rw [Globals.print, same, List.drop_left]
  exact List.mem_singleton_self _

section Scoped

variable {announced : Option (List Char)} {state : State}

/-- A change of the globals that leaves the messages about undefined symbols alone. -/
theorem Scoped.update {announced' : Option (List Char)} (tables : Scoped announced state)
    (change : Globals → Globals)
    (reports : ∀ word before, Reported word before (change state.toGlobals) ↔
      Reported word before state.toGlobals)
    (names : ∀ word, (change state.toGlobals).Knows (some word) ∨ announced' = some word ↔
      state.Knows (some word) ∨ announced = some word) :
    Scoped announced' (state.update change) where
  chronicle := tables.chronicle
  pending before event last word := by
    have told := tables.pending before event last word
    refine ⟨fun uses => (reports word _).trans (told.1 uses), fun calls => ?_⟩
    exact fun reported => told.2 calls ((reports word _).mp reported)
  known word := (names word).trans (tables.known word)

theorem Scoped.skipped (tables : Scoped announced state) : Scoped announced state.skipped :=
  tables.update _ (fun _ _ => Iff.rfl) fun _ => Iff.rfl

theorem Scoped.moved (tables : Scoped announced state) : Scoped announced state.moved :=
  tables.skipped.update _ (fun _ _ => Iff.rfl) fun _ => Iff.rfl

theorem Scoped.print (tables : Scoped announced state) {errInfo : Message}
    (defined : errInfo.isUndefined = false) :
    Scoped announced (state.update (Globals.print errInfo)) :=
  tables.update _ (fun word before => reported_print word before _ defined) fun _ => Iff.rfl

private theorem touchLines_names (globals : Globals) :
    globals.touchLines.procedureTable.map ProcedureRow.name =
      globals.procedureTable.map ProcedureRow.name := by
  rw [Globals.touchLines, List.map_map]
  refine List.map_congr_left fun row _ => ?_
  simp only [Function.comp_apply, ProcedureRow.touch]
  split_ifs <;> rfl

theorem Scoped.touchLines (tables : Scoped announced state) :
    Scoped announced (state.update Globals.touchLines) := by
  refine tables.update _ (fun _ _ => Iff.rfl) fun word => ?_
  rw [Globals.Knows, touchLines_names]
  exact Iff.rfl

/-- A further event keeps the chronicle. -/
theorem Scoped.chronicle_logged (tables : Scoped announced state) {event : Globals → Event}
    (same : (event state.toGlobals).globals = state.toGlobals) :
    ∀ before earlier next, before ++ [earlier] ++ [next] <+: (state.logged event).trace →
      Told before earlier next.globals := by
  intro before earlier next inside
  rcases List.prefix_concat_iff.mp inside with whole | front
  · rcases List.append_inj' whole rfl with ⟨front, last⟩
    cases last
    rw [same]
    exact tables.pending before earlier front.symm
  · exact tables.chronicle before earlier next front

private theorem declared_logged (state : State) (event : Globals → Event) (word : List Char) :
    word ∈ declared (state.logged event).trace ↔
      word ∈ declared state.trace ∨ (event state.toGlobals).declares = some word := by
  have split : declared (state.logged event).trace =
      declared state.trace ++ (event state.toGlobals).declares.toList := by
    rw [declared, State.logged, List.filterMap_append, declared]
    cases found : (event state.toGlobals).declares <;> simp [found]
  rw [split, List.mem_append, Option.mem_toList]

/-- The event is appended, and what it declares is announced. -/
theorem Scoped.logged (tables : Scoped none state) (event : Globals → Event)
    (same : (event state.toGlobals).globals = state.toGlobals)
    (unused : (event state.toGlobals).uses = none)
    (announces : (event state.toGlobals).declares = announced) :
    Scoped announced (state.logged event) where
  chronicle := tables.chronicle_logged same
  pending before last whole word := by
    cases (List.append_inj' whole rfl).2
    refine ⟨fun uses => ?_, fun _ => ?_⟩
    · rw [unused] at uses
      cases uses
    · rw [same]
      exact reported_same word state.toGlobals
  known word := by
    rw [declared_logged, ← tables.known word, announces]
    simp only [reduceCtorEq, or_false]
    exact Iff.rfl

theorem Scoped.returned (tables : Scoped none state) (procedure : Procedure) :
    Scoped none (state.logged (.returned procedure)) :=
  tables.logged (.returned procedure) rfl rfl rfl

end Scoped

/-! ### The bodies -/

/-- An action that returns keeps the tables up to date. -/
def Lists (announced : Option (List Char)) (action : Parser Unit) (state : State) : Prop :=
  Scoped announced state → wp action (fun _ after => Scoped none after) (fun _ _ => True) state

private theorem steady_scoped (announced : Option (List Char)) : Steady (Scoped announced) :=
  ⟨Scoped.skipped, Scoped.moved, fun defined tables => tables.print defined⟩

theorem Built.lists {call : Procedure → Parser Unit} {procedure : Procedure}
    (plain : procedure ≠ .funcDeclare ∧
      ∀ defineOrUse isFormal, procedure ≠ .var defineOrUse isFormal)
    (calls : ∀ callee state, Lists none (call callee) state)
    {context : Context} {part : Parser Unit} (built : Built call procedure context part) :
    ∀ state, context.Holds state → Lists none part state :=
  built.preserves (steady_scoped none) plain.1 calls
    fun defineOrUse isFormal same => absurd same (plain.2 defineOrUse isFormal)

private theorem knows_define (globals : Globals) (word other : Option (List Char))
    (isFormal : Nat) :
    (globals.define word isFormal).Knows other ↔ globals.Knows other ∨ word = other := by
  rw [Globals.define]
  split
  · rename_i found
    refine ⟨.inl, ?_⟩
    rintro (known | rfl)
    · exact known
    · exact .inl found
  · simp only [Globals.Knows, List.map_append, List.mem_append, List.map_cons, List.map_nil,
      List.mem_singleton]
    grind

private theorem knows_nameProcedure (globals : Globals) (word other : Option (List Char)) :
    (globals.nameProcedure word).Knows other ↔ globals.Knows other ∨ word = other := by
  rw [Globals.nameProcedure]
  split
  · rename_i found
    refine ⟨.inl, ?_⟩
    rintro (known | rfl)
    · exact known
    · exact .inr found
  · simp only [Globals.Knows, List.map_append, List.mem_append, List.map_cons, List.map_nil,
      List.mem_singleton]
    grind

private theorem reported_define (globals : Globals) (name : Option (List Char)) (isFormal : Nat)
    (word : List Char) (before : Globals) :
    Reported word before (globals.define name isFormal) ↔ Reported word before globals := by
  rw [Globals.define]
  split <;> exact Iff.rfl

private theorem reported_nameProcedure (globals : Globals) (name : Option (List Char))
    (word : List Char) (before : Globals) :
    Reported word before (globals.nameProcedure name) ↔ Reported word before globals := by
  rw [Globals.nameProcedure]
  split <;> exact Iff.rfl

/-- A declared variable enters the tables as announced. -/
theorem varDefine_lists (isFormal : Nat) (state : State) :
    Lists state.nameAhead (var .define isFormal) state := by
  intro tables
  refine wp_bind.mpr (wp_identify (fun _ => trivial) ?_ ?_)
  · intro word rest ahead _
    have announced : state.nameAhead = some word := by
      rw [Globals.nameAhead, ahead]
      rfl
    rw [announced] at tables
    refine Scoped.touchLines (tables.moved.update _ (reported_define _ _ _) fun other => ?_)
    rw [knows_define]
    simp only [reduceCtorEq, or_false]
  · intro token rest ahead other
    have announced : state.nameAhead = none := by
      rw [Globals.nameAhead, ahead]
      exact if_neg other
    rw [announced] at tables
    refine Scoped.touchLines (Scoped.update (tables.skipped.print rfl) _ (reported_define _ _ _)
      fun other => ?_)
    rw [knows_define]
    simp only [reduceCtorEq, or_false]

theorem functionAhead_none {globals : Globals}
    (other : ∀ first second name rest, globals.ahead ≠
      (first, integerCode) :: (second, functionCode) :: (name, identifierCode) :: rest) :
    globals.functionAhead = none := by
  unfold Globals.functionAhead
  split
  · rename_i first second token rest ahead
    refine if_neg ?_
    rintro ⟨integer, function, identifier⟩
    refine other first.1 second.1 token.1 rest ?_
    rw [ahead, ← integer, ← function, ← identifier]
  · rfl

/-- What the inspections and a syntax message keep holds at the name, which is the one that was
ahead, or where the declaration breaks off in front of it. -/
theorem wp_declaredFunction {call : Procedure → Parser Unit} {Holds : State → Prop}
    {returns : Unit → State → Prop} (steady : Steady Holds) {state : State} (holds : Holds state)
    (stops : state.functionAhead = none → ∀ after, Holds after → returns () after)
    (named : ∀ after, Holds after → wp (functionRest call) returns (fun _ _ => True)
      (after.update (Globals.nameProcedure state.functionAhead))) :
    wp (declaredFunction call) returns (fun _ _ => True) state := by
  refine wp_expect (fun _ => trivial) (fun word behind ahead left => ?_)
    fun token behind ahead other => ?_
  · refine wp_expect (fun _ => trivial) (fun word' behind' ahead' left' => ?_)
      fun token behind' ahead' other => ?_
    · refine wp_identify (fun _ => trivial) ?_ ?_
      · intro name behind'' ahead'' _
        have found : state.functionAhead = some name := by
          rw [Globals.functionAhead, ahead, ← left, ahead', ← left', ahead'']
          rfl
        rw [← found]
        exact named _ (steady.moved (steady.moved (steady.moved holds)))
      · intro token behind'' ahead'' other
        have missing : state.functionAhead = none := by
          refine functionAhead_none fun first second name tail same => ?_
          rw [ahead, ← left, ahead', ← left', ahead''] at same
          simp only [List.cons.injEq] at same
          exact other (congrArg Prod.snd same.2.2.1)
        rw [← missing]
        exact named _ (steady.print rfl (steady.skipped (steady.moved (steady.moved holds))))
    · have missing : state.functionAhead = none := by
        refine functionAhead_none fun first second name tail same => ?_
        rw [ahead, ← left, ahead'] at same
        simp only [List.cons.injEq] at same
        exact other (congrArg Prod.snd same.2.1)
      exact stops missing _ (steady.print rfl (steady.skipped (steady.moved holds)))
  · have missing : state.functionAhead = none := by
      refine functionAhead_none fun first second name tail same => ?_
      rw [ahead] at same
      exact other (congrArg Prod.snd (List.cons.inj same).1)
    exact stops missing _ (steady.print rfl (steady.skipped holds))

private theorem declaredFunction_lists {call : Procedure → Parser Unit}
    (calls : ∀ callee state, Lists none (call callee) state) (state : State) :
    Lists state.functionAhead (declaredFunction call) state := by
  intro tables
  have built : Built call .mainProcedure ⟨none, true⟩ (functionRest call) := functionRest_built
  have plain : Procedure.mainProcedure ≠ .funcDeclare ∧
      ∀ defineOrUse isFormal, Procedure.mainProcedure ≠ .var defineOrUse isFormal :=
    ⟨nofun, nofun⟩
  refine wp_declaredFunction (steady_scoped state.functionAhead) tables
    (fun missing after left => missing ▸ left) fun after left => ?_
  refine built.lists plain calls _ (Context.holds_none _ _)
    (left.update _ (reported_nameProcedure _ _) fun other => ?_)
  rw [knows_nameProcedure]
  simp only [reduceCtorEq, or_false]

private theorem funcDeclare_lists {call : Procedure → Parser Unit}
    (calls : ∀ callee state, Lists none (call callee) state) (state : State) :
    Lists state.functionAhead (funcDeclare call) state := by
  intro tables
  refine wp_bind.mpr (wp_of_outcome (outcome_change _ _) |>.mpr (wp_bind.mpr (wp_get.mpr ?_)))
  refine wp_seq (declaredFunction_lists calls _
    (tables.update _ (fun _ _ => Iff.rfl) fun _ => Iff.rfl)) fun _ after left => ?_
  exact (left.update _ (fun _ _ => Iff.rfl) fun _ => Iff.rfl).update _
    (fun _ _ => Iff.rfl) fun _ => Iff.rfl

/-- A use of a variable tells what the tables know. -/
theorem varUse_lists (isFormal : Nat) {state : State} (tables : Scoped none state) :
    wp (var .use isFormal) (fun _ after => Scoped none after) (fun _ _ => True)
      (state.logged (.entered (.var .use isFormal))) := by
  have entered : ∀ {after : State},
      after.trace = (state.logged (.entered (.var .use isFormal))).trace →
      (∀ word, after.Knows (some word) ↔ state.Knows (some word)) →
      (∀ word, state.nameAhead = some word →
        (Reported word state.toGlobals after.toGlobals ↔ ¬state.Knows (some word))) →
      Scoped none after := by
    intro after trace names told
    refine ⟨?_, ?_, fun word => ?_⟩
    · rw [trace]
      exact tables.chronicle_logged rfl
    · intro before last whole word
      rw [trace] at whole
      rcases List.append_inj' whole rfl with ⟨rfl, same⟩
      cases same
      refine ⟨fun uses => (told word uses).trans ?_, fun calls => by cases calls⟩
      rw [← tables.known word]
      simp only [reduceCtorEq, or_false]
    · rw [trace, declared_logged, ← tables.known word, names]
      simp only [reduceCtorEq, or_false, Event.declares]
  have touched : ∀ (globals : Globals) (word : List Char),
      globals.touchLines.Knows (some word) ↔ globals.Knows (some word) := by
    intro globals word
    rw [Globals.Knows, touchLines_names]
    exact Iff.rfl
  cases ahead : (state.logged (.entered (.var .use isFormal))).ahead with
  | nil =>
      refine wp_bind.mpr (wp_identify (fun _ => trivial) ?_ ?_)
      · intro word rest some
        rw [ahead] at some
        cases some
      · intro token rest some
        rw [ahead] at some
        cases some
  | cons token rest =>
      have head : state.nameAhead = if token.2 = identifierCode then some token.1 else none := by
        have same : state.ahead = token :: rest := ahead
        rw [Globals.nameAhead, same]
      by_cases name : token.2 = identifierCode
      · refine (wp_of_outcome (outcome_var_use_name isFormal ahead name)).mpr ?_
        rw [if_pos name] at head
        split
        · rename_i known
          refine entered rfl (touched _) fun word here => ?_
          cases head.symm.trans here
          exact iff_of_false (reported_same _ _) fun unknown => unknown known
        · rename_i unknown
          refine entered rfl (touched _) fun word here => ?_
          cases head.symm.trans here
          exact iff_of_true (reported_undefined token.1 _ state.skipLines rfl) unknown
      · have found := outcome_var_use_other isFormal ahead name
        rw [if_neg name] at head
        split at found
        · refine (wp_of_outcome found).mpr (entered rfl (touched _) fun word here => ?_)
          rw [head] at here
          cases here
        · exact (wp_of_raise found).mpr trivial

private theorem body_lists {call : Procedure → Parser Unit}
    (calls : ∀ callee state, Lists none (call callee) state) (procedure : Procedure)
    {state : State} (tables : Scoped none state) :
    wp (body call procedure) (fun _ after => Scoped none after) (fun _ _ => True)
      (state.logged (.entered procedure)) := by
  by_cases plain : procedure ≠ .funcDeclare ∧
      ∀ defineOrUse isFormal, procedure ≠ .var defineOrUse isFormal
  · have unused : (Event.entered procedure state.toGlobals).uses = none := by
      unfold Event.uses
      split
      · rename_i same
        cases same
        exact absurd rfl (plain.2 _ _)
      · rfl
    have nothing : (Event.entered procedure state.toGlobals).declares = none := by
      unfold Event.declares
      split
      · rename_i same
        cases same
        exact absurd rfl (plain.2 _ _)
      · rename_i same
        cases same
        exact absurd rfl plain.1
      · rfl
    exact (body_built call procedure).lists plain calls _ (Context.holds_none _ _)
      (tables.logged (.entered procedure) rfl unused nothing)
  · cases procedure with
    | funcDeclare =>
        exact funcDeclare_lists calls _ (tables.logged (.entered .funcDeclare) rfl rfl rfl)
    | var defineOrUse isFormal =>
        cases defineOrUse with
        | define =>
            exact varDefine_lists isFormal _
              (tables.logged (.entered (.var .define isFormal)) rfl rfl rfl)
        | use => exact varUse_lists isFormal tables
    | _ => exact absurd ⟨nofun, nofun⟩ plain

private theorem invoke_lists (depth : Nat) (procedure : Procedure) (state : State) :
    Lists none (invoke depth procedure) state := by
  induction depth generalizing procedure state with
  | zero => exact fun _ => wp_throw.mpr trivial
  | succ depth ih =>
      intro tables
      exact wp_invoke_succ.mpr (wp_mono (body_lists ih procedure tables)
        (fun _ _ kept => kept.returned procedure) fun _ _ _ => trivial)

/-! ### The run of the program -/

theorem invoke_returned {depth : Nat} {procedure : Procedure} {state : State} :
    wp (invoke depth procedure) (fun _ after => ∃ front globals,
      after.trace = front ++ [.returned procedure globals]) (fun _ _ => True) state := by
  cases depth with
  | zero => exact wp_throw.mpr trivial
  | succ depth =>
      refine wp_invoke_succ.mpr (wp_mono (body_onward depth procedure _) ?_ fun _ _ _ => trivial)
      exact fun _ after _ => ⟨after.trace, after.toGlobals, rfl⟩

/-- Where `main_procedure` returns, the messages about undefined symbols are those that the
scopes ask for exactly if no name is used out of its scope after its declaration and no name is
called out of scope. -/
theorem reportsByScope_iff {dydList : List DydRow} (returns : (run dydList).1 = .ok ()) :
    ReportsByScope (run dydList).2.trace ↔ NamesInScope (run dydList).2.trace := by
  have start : Scoped none (initState dydList) := by
    refine ⟨fun before event next inside => ?_, fun before event whole => ?_, fun word => ?_⟩
    · exact absurd (List.prefix_nil.mp inside) (List.append_ne_nil_of_right_ne_nil _ nofun)
    · exact absurd whole.symm (List.append_ne_nil_of_right_ne_nil _ nofun)
    · exact iff_of_false (by rintro ((member | member) | same) <;> cases ‹_›)
        (List.not_mem_nil)
  have tables := (wp_iff_outcome.mp (invoke_lists _ _ _ start)).1 () returns
  have last := (wp_iff_outcome.mp invoke_returned).1 () returns
  rcases last with ⟨front, globals, ended⟩
  change (run dydList).2.trace = _ at ended
  constructor
  · intro byScope before event word inside
    have next : before ++ [event] = (run dydList).2.trace ∨
        ∃ next, before ++ [event] ++ [next] <+: (run dydList).2.trace := by
      rcases inside with ⟨_ | ⟨next, behind⟩, whole⟩
      · exact .inl (by rw [← whole, List.append_nil])
      · exact .inr ⟨next, behind, by rw [← whole, List.append_assoc]; rfl⟩
    rcases next with whole | ⟨next, inside⟩
    · rw [ended] at whole
      cases (List.append_inj' whole rfl).2
      exact ⟨fun uses => (by cases uses), fun calls => (by cases calls)⟩
    · have told := tables.chronicle before event next inside word
      refine ⟨fun uses known => ?_, fun calls => ?_⟩
      · by_contra hidden
        exact (told.1 uses).mp ((byScope _ _ _ _ inside (.inl uses)).mpr hidden) known
      · by_contra hidden
        exact told.2 calls ((byScope _ _ _ _ inside (.inr calls)).mpr hidden)
  · intro inScope before event next word inside occurs
    have told := tables.chronicle before event next inside word
    have here := inScope before event word ((List.prefix_append _ _).trans inside)
    rcases occurs with uses | calls
    · rw [told.1 uses]
      exact ⟨fun unknown shown => unknown (visible_subset before word shown),
        fun hidden known => hidden (here.1 uses known)⟩
    · exact iff_of_false (told.2 calls) fun hidden => hidden (here.2 calls)

private theorem namesInScope_of_index {events : List Event}
    (inScope : ∀ index < events.length,
      (∀ word ∈ events[index]?.bind Event.uses, word ∈ declared (events.take index) →
        word ∈ visible (events.take index)) ∧
      ∀ word ∈ events[index]?.bind Event.calls, word ∈ visible (events.take index)) :
    NamesInScope events := by
  rintro before event word ⟨behind, rfl⟩
  have here := inScope before.length (by simp)
  simp only [List.append_assoc, List.take_left, List.singleton_append,
    List.getElem?_append_right (Nat.le_refl _), Nat.sub_self, List.getElem?_cons_zero,
    Option.bind_some, Option.mem_def] at here
  exact ⟨here.1 word, here.2 word⟩

private def recursiveFunction : List DydRow :=
  tokensOf "begin integer k;integer function f(n);begin integer n;f:=f(m)end;k:=f(k)end"

/-- A function that calls itself, with an argument that is declared nowhere. -/
theorem reportsByScope_iff_recursive_function :
    ReportsByScope (run recursiveFunction).2.trace := by
  have inScope : NamesInScope (run recursiveFunction).2.trace :=
    namesInScope_of_index (by decide +kernel)
  exact (reportsByScope_iff (by decide +kernel)).mpr inScope

private theorem take_append_shorter {items : List Event} {index : Nat} {event next : Event}
    (here : items[index]? = some event) (behind : items[index + 1]? = some next) :
    items.take index ++ [event] ++ [next] <+: items := by
  rcases List.getElem?_eq_some_iff.mp here with ⟨inside, rfl⟩
  rcases List.getElem?_eq_some_iff.mp behind with ⟨inside', rfl⟩
  rw [List.take_append_getElem, List.take_append_getElem]
  exact List.take_prefix _ _

private def usedOutside : List DydRow :=
  tokensOf "begin integer k;integer function f(n);begin integer m;m:=n end;k:=m end"

/-- The variable `m` of the function `f` is used behind the function. -/
theorem local_variable_used_outside :
    ¬∀ dydList : List DydRow, (run dydList).1 = .ok () →
      ReportsByScope (run dydList).2.trace := by
  intro reports
  -- The use of `m` is the event 64 of the trace.
  have traced : (run usedOutside).1 = .ok () ∧
      ((run usedOutside).2.trace[64]?).bind Event.uses = some ['m'] ∧
      ((run usedOutside).2.trace[65]?).map (fun event => event.globals.errTXT) = some [] ∧
      ['m'] ∉ visible ((run usedOutside).2.trace.take 64) := by
    decide +kernel
  rcases traced with ⟨returns, uses, silent, hidden⟩
  have byScope := reports usedOutside returns
  rcases Option.bind_eq_some_iff.mp uses with ⟨event, here, uses⟩
  rcases Option.map_eq_some_iff.mp silent with ⟨next, behind, silent⟩
  have reported := (byScope _ _ _ _ (take_append_shorter here behind) (.inl uses)).mpr hidden
  rcases reported with ⟨line, member⟩
  rw [silent, List.drop_nil] at member
  cases member

/-- A function that is declared nowhere can be called. -/
example : (run (tokensOf "begin integer k;k:=g(k)end")).1 = .ok () ∧
    (run (tokensOf "begin integer k;k:=g(k)end")).2.errTXT = [] := by
  decide +kernel

end OsCompiler.LabPy
