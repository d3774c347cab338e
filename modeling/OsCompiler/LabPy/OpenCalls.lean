/-
The calls of `lab_parser.py` that have not returned, and the rows of `var_Table`.

The trace tells which calls are open. While the declarations of so many functions are
read, `procedure_level` is their number and `now_Procedure` the name of the innermost
one, except where `func_declare` has not read the name yet or is about to return.
-/

import Mathlib.Data.List.Nodup
import OsCompiler.LabPy.Scopes

namespace OsCompiler.LabPy

open OsCompiler.Action

/-! ### Calls in the trace -/

def nextCalls (calls : List (Procedure × Globals)) : Event → List (Procedure × Globals)
  | .entered procedure globals => (procedure, globals) :: calls
  | .returned _ _ => calls.tail

/-- The calls that have not returned, innermost first, with the globals at their entry. -/
def openCalls (trace : List Event) : List (Procedure × Globals) := trace.foldl nextCalls []

def functionNames (calls : List (Procedure × Globals)) : List (Option (List Char)) :=
  (calls.filter fun call => call.1 = .funcDeclare).map fun call => call.2.functionAhead

/-- The procedure and the level of what is declared inside these functions. -/
def owner (names : List (Option (List Char))) : Option (List Char) × Int :=
  (names.headD (some ['m', 'a', 'i', 'n']), names.length)

def VarRow.owner (row : VarRow) : Option (List Char) × Int := (row.procedure, row.level)

def Globals.owner (globals : Globals) : Option (List Char) × Int :=
  (globals.nowProcedure, globals.procedureLevel)

def ReturnsTo (calls : List (Procedure × Globals)) (procedure : Procedure) (globals : Globals) :
    Prop :=
  ∃ entry outer, calls = (procedure, entry) :: outer ∧ globals.owner = entry.owner

/-- The rows that have been appended belong to the innermost of these functions. -/
def Appends (names : List (Option (List Char))) (before after : Globals) : Prop :=
  ∃ rows, after.varTable = before.varTable ++ rows ∧ ∀ row ∈ rows, row.owner = owner names

private theorem openCalls_append (trace : List Event) (event : Event) :
    openCalls (trace ++ [event]) = nextCalls (openCalls trace) event := by
  rw [openCalls, List.foldl_append]
  rfl

private theorem functionNames_other {procedure : Procedure} (plain : procedure ≠ .funcDeclare)
    (entry : Globals) (calls : List (Procedure × Globals)) :
    functionNames ((procedure, entry) :: calls) = functionNames calls := by
  simp [functionNames, plain]

private theorem functionNames_funcDeclare (entry : Globals) (calls : List (Procedure × Globals)) :
    functionNames ((.funcDeclare, entry) :: calls) =
      entry.functionAhead :: functionNames calls := by
  simp [functionNames]

theorem Appends.refl (names : List (Option (List Char))) (globals : Globals) :
    Appends names globals globals :=
  ⟨[], (List.append_nil _).symm, nofun⟩

theorem Appends.trans {names : List (Option (List Char))} {first second third : Globals}
    (before : Appends names first second) (behind : Appends names second third) :
    Appends names first third := by
  rcases before with ⟨rows, table, owned⟩
  rcases behind with ⟨rows', table', owned'⟩
  refine ⟨rows ++ rows', by rw [table', table, List.append_assoc], fun row member => ?_⟩
  rcases List.mem_append.mp member with earlier | latest
  · exact owned row earlier
  · exact owned' row latest

private theorem appends_define {names : List (Option (List Char))} {globals : Globals}
    (settled : globals.owner = owner names) (word : Option (List Char)) (isFormal : Nat) :
    Appends names globals (globals.define word isFormal) := by
  rw [Globals.define]
  split
  · exact .refl names globals
  · refine ⟨_, rfl, fun row member => ?_⟩
    rw [List.mem_singleton.mp member]
    exact settled

/-! ### What the trace records -/

/-- Every return so far was to the innermost open call, and every row was appended for the
innermost function being read. -/
structure Chronicle (calls : List (Procedure × Globals)) (state : State) : Prop where
  opened : openCalls state.trace = calls
  returns : ∀ before procedure globals, before ++ [.returned procedure globals] <+: state.trace →
    ReturnsTo (openCalls before) procedure globals
  rows : ∀ before event next, before ++ [event] ++ [next] <+: state.trace →
    Appends (functionNames (openCalls (before ++ [event]))) event.globals next.globals
  pending : ∀ before event, state.trace = before ++ [event] →
    Appends (functionNames calls) event.globals state.toGlobals

section Chronicle

variable {calls : List (Procedure × Globals)} {state : State}

theorem Chronicle.update (chronicle : Chronicle calls state) {change : Globals → Globals}
    (appends : Appends (functionNames calls) state.toGlobals (change state.toGlobals)) :
    Chronicle calls (state.update change) where
  opened := chronicle.opened
  returns := chronicle.returns
  rows := chronicle.rows
  pending before event last := (chronicle.pending before event last).trans appends

theorem Chronicle.same (chronicle : Chronicle calls state) {change : Globals → Globals}
    (table : (change state.toGlobals).varTable = state.varTable) :
    Chronicle calls (state.update change) :=
  chronicle.update ⟨[], table.trans (List.append_nil _).symm, nofun⟩

theorem Chronicle.logged (chronicle : Chronicle calls state) (event : Globals → Event)
    (same : (event state.toGlobals).globals = state.toGlobals)
    (returns : ∀ procedure globals, event state.toGlobals = .returned procedure globals →
      ReturnsTo calls procedure globals) :
    Chronicle (nextCalls calls (event state.toGlobals)) (state.logged event) where
  opened := by
    rw [State.logged, openCalls_append, chronicle.opened]
  returns before procedure globals inside := by
    rcases List.prefix_concat_iff.mp inside with whole | front
    · rcases List.append_inj' whole rfl with ⟨rfl, last⟩
      rw [chronicle.opened]
      exact returns procedure globals (List.cons.inj last).1.symm
    · exact chronicle.returns before procedure globals front
  rows before earlier next inside := by
    rcases List.prefix_concat_iff.mp inside with whole | front
    · rcases List.append_inj' whole rfl with ⟨front, last⟩
      rw [(List.cons.inj last).1, same, front, chronicle.opened]
      exact chronicle.pending before earlier front.symm
    · exact chronicle.rows before earlier next front
  pending before last whole := by
    rcases List.append_inj' whole rfl with ⟨-, latest⟩
    rw [← (List.cons.inj latest).1, same]
    exact .refl _ _

end Chronicle

/-! ### The bodies -/

/-- The globals are settled for the innermost function being read. -/
structure Running (calls : List (Procedure × Globals)) (state : State) : Prop where
  chronicle : Chronicle calls state
  settled : state.owner = owner (functionNames calls)

section Running

variable {calls : List (Procedure × Globals)} {state : State}

theorem Running.same (running : Running calls state) {change : Globals → Globals}
    (table : (change state.toGlobals).varTable = state.varTable)
    (settled : (change state.toGlobals).owner = state.owner) :
    Running calls (state.update change) :=
  ⟨running.chronicle.same table, settled.trans running.settled⟩

theorem steady_running (calls : List (Procedure × Globals)) : Steady (Running calls) where
  skipped running := running.same rfl rfl
  moved running := (running.same rfl rfl).same rfl rfl
  print _ running := running.same rfl rfl

theorem Running.define (running : Running calls state) (word : Option (List Char))
    (isFormal : Nat) : Running calls (state.update (Globals.define word isFormal)) := by
  refine ⟨running.chronicle.update (appends_define running.settled word isFormal), ?_⟩
  have same : (state.define word isFormal).owner = state.owner := by
    rw [Globals.define]
    split <;> rfl
  exact same.trans running.settled

private theorem var_running (calls : List (Procedure × Globals)) (defineOrUse : DefineOrUse)
    (isFormal : Nat) : Preserves (Running calls) (var defineOrUse isFormal) := by
  have touch : Preserves (Running calls) (change Globals.touchLines) :=
    fun state running => running.same rfl rfl
  cases defineOrUse with
  | define =>
      have named : Preserves (Running calls) (varDefine isFormal) :=
        (steady_running calls).identify fun word state running => running.define word isFormal
      exact named.seq touch
  | use =>
      have named : Preserves (Running calls) varUse :=
        (steady_running calls).varUse fun word running => running.same rfl rfl
      exact named.seq touch

/-- At the end of a body the globals are settled for the call itself. -/
structure Finished (calls : List (Procedure × Globals)) (entry : Globals) (state : State) :
    Prop where
  chronicle : Chronicle calls state
  restored : state.owner = entry.owner

/-- Inside `func_declare` the level is that of the function, `now_Procedure` may not be its name. -/
structure Naming (calls : List (Procedure × Globals)) (entry : Globals) (state : State) :
    Prop where
  chronicle : Chronicle ((.funcDeclare, entry) :: calls) state
  level : state.procedureLevel = entry.procedureLevel + 1

theorem Naming.same {entry : Globals} (naming : Naming calls entry state)
    {change : Globals → Globals}
    (table : (change state.toGlobals).varTable = state.varTable)
    (level : (change state.toGlobals).procedureLevel = state.procedureLevel) :
    Naming calls entry (state.update change) :=
  ⟨naming.chronicle.same table, level.trans naming.level⟩

theorem owner_nameProcedure (word : Option (List Char)) (globals : Globals) :
    (globals.nameProcedure word).owner = (word, globals.procedureLevel) ∧
      (globals.nameProcedure word).varTable = globals.varTable := by
  rw [Globals.nameProcedure]
  split <;> exact ⟨rfl, rfl⟩

private theorem owner_funcDeclare {entry : Globals}
    (settled : entry.owner = owner (functionNames calls)) :
    owner (functionNames ((.funcDeclare, entry) :: calls)) =
      (entry.functionAhead, entry.procedureLevel + 1) := by
  have level : entry.procedureLevel = (functionNames calls).length := congrArg Prod.snd settled
  rw [functionNames_funcDeclare, owner, level]
  rfl

private theorem declaredFunction_running {call : Procedure → Parser Unit} {entry : Globals}
    (recursive : ∀ callee, Preserves (Running ((.funcDeclare, entry) :: calls)) (call callee))
    (settled : entry.owner = owner (functionNames calls))
    (ahead : state.functionAhead = entry.functionAhead) (naming : Naming calls entry state) :
    wp (declaredFunction call) (fun _ after => Naming calls entry after) (fun _ _ => True)
      state := by
  have steady : Steady (Naming calls entry) :=
    ⟨fun naming => naming.same rfl rfl, fun naming => (naming.same rfl rfl).same rfl rfl,
      fun _ naming => naming.same rfl rfl⟩
  refine wp_declaredFunction steady naming (fun _ _ naming => naming) fun after naming => ?_
  have named := owner_nameProcedure state.functionAhead after.toGlobals
  have running : Running ((.funcDeclare, entry) :: calls)
      (after.update (Globals.nameProcedure state.functionAhead)) := by
    refine ⟨naming.chronicle.same named.2, named.1.trans ?_⟩
    rw [owner_funcDeclare settled, ahead, naming.level]
  have built : Built call .mainProcedure ⟨none, true⟩ (functionRest call) := functionRest_built
  have plain : Procedure.mainProcedure ≠ .funcDeclare := nofun
  refine wp_mono (built.preserves (steady_running _) plain recursive nofun _
    (Context.holds_none _ _) running) ?_ fun _ _ _ => trivial
  intro _ last running
  have level := congrArg Prod.snd running.settled
  rw [owner_funcDeclare settled] at level
  exact ⟨running.chronicle, level⟩

private theorem funcDeclare_running {call : Procedure → Parser Unit} {entry : Globals}
    (recursive : ∀ callee, Preserves (Running ((.funcDeclare, entry) :: calls)) (call callee))
    (settled : entry.owner = owner (functionNames calls))
    (chronicle : Chronicle ((.funcDeclare, entry) :: calls) state)
    (same : state.toGlobals = entry) :
    wp (funcDeclare call) (fun _ after => Finished ((.funcDeclare, entry) :: calls) entry after)
      (fun _ _ => True) state := by
  subst same
  have raised : Naming calls state.toGlobals (state.update fun globals =>
      { globals with procedureLevel := globals.procedureLevel + 1 }) :=
    ⟨chronicle.same rfl, rfl⟩
  refine wp_bind.mpr (wp_of_outcome (outcome_change _ _) |>.mpr (wp_bind.mpr (wp_get.mpr ?_)))
  refine wp_seq (declaredFunction_running recursive settled rfl raised) fun _ after naming => ?_
  have lowered : after.procedureLevel - 1 = state.procedureLevel := by
    have level := naming.level
    omega
  exact ⟨(naming.chronicle.same rfl).same rfl, Prod.ext rfl lowered⟩

private theorem body_running {call : Procedure → Parser Unit} (procedure : Procedure)
    (recursive : ∀ calls callee, Preserves (Running calls) (call callee))
    (running : Running calls state) :
    wp (body call procedure) (fun _ after => Finished ((procedure, state.toGlobals) :: calls)
      state.toGlobals after) (fun _ _ => True) (state.logged (.entered procedure)) := by
  have entered : Chronicle ((procedure, state.toGlobals) :: calls)
      (state.logged (.entered procedure)) :=
    running.chronicle.logged (.entered procedure) rfl fun _ _ same => Event.noConfusion same
  by_cases declared : procedure = .funcDeclare
  · subst declared
    exact funcDeclare_running (recursive _) running.settled entered rfl
  · have settled : state.owner =
        owner (functionNames ((procedure, state.toGlobals) :: calls)) := by
      rw [functionNames_other declared]
      exact running.settled
    refine wp_mono ((body_built call procedure).preserves (steady_running _) declared
      (recursive _) (fun defineOrUse isFormal _ => var_running _ defineOrUse isFormal) _
      (Context.holds_none _ _) ⟨entered, settled⟩) ?_ fun _ _ _ => trivial
    exact fun _ after ended => ⟨ended.chronicle, ended.settled.trans settled.symm⟩

private theorem invoke_running (depth : Nat) (calls : List (Procedure × Globals))
    (procedure : Procedure) :
    Preserves (Running calls) (invoke depth procedure) := by
  induction depth generalizing calls procedure with
  | zero => exact fun _ _ => wp_throw.mpr trivial
  | succ depth ih =>
      intro state running
      refine wp_invoke_succ.mpr (wp_mono (body_running procedure ih running) ?_
        fun _ _ _ => trivial)
      intro _ after finished
      have returned : Chronicle calls (after.logged (.returned procedure)) := by
        refine finished.chronicle.logged (.returned procedure) rfl fun _ globals same => ?_
        cases same
        exact ⟨state.toGlobals, calls, rfl, finished.restored⟩
      exact ⟨returned, finished.restored.trans running.settled⟩

end Running

/-! ### The rows of `var_Table` -/

structure Globals.Numbered (globals : Globals) : Prop where
  names : (globals.varTable.map VarRow.name).Nodup
  count : globals.varCount = globals.varTable.length
  addresses : globals.varTable.map VarRow.address = List.range globals.varTable.length

theorem Globals.Numbered.define {globals : Globals} (numbered : globals.Numbered)
    (word : Option (List Char)) (isFormal : Nat) : (globals.define word isFormal).Numbered := by
  rw [Globals.define]
  split
  · exact numbered
  · rename_i fresh
    constructor
    · simp only [List.map_append, List.map_cons, List.map_nil]
      refine List.Nodup.append numbered.names (List.nodup_singleton word) ?_
      exact List.disjoint_singleton.mpr fresh
    · simp only [List.length_append, List.length_singleton, numbered.count]
    · simp only [List.map_append, List.map_cons, List.map_nil, List.length_append,
        List.length_singleton, List.range_succ, numbered.addresses, numbered.count]

theorem Globals.Numbered.of_table {globals globals' : Globals} (numbered : globals.Numbered)
    (table : globals'.varTable = globals.varTable) (count : globals'.varCount = globals.varCount) :
    globals'.Numbered := by
  constructor
  · rw [table]
    exact numbered.names
  · rw [count, table]
    exact numbered.count
  · rw [table]
    exact numbered.addresses

theorem invariant_numbered : Invariant fun state => state.Numbered where
  skipped numbered := numbered.of_table rfl rfl
  moved _ _ numbered := numbered.of_table rfl rfl
  bookkeeping {change} listed state numbered := by
    cases listed with
    | define word isFormal => exact numbered.define word isFormal
    | nameProcedure word =>
        refine numbered.of_table (owner_nameProcedure word state.toGlobals).2 ?_
        simp only [State.update, Globals.nameProcedure]
        split <;> rfl
    | _ => exact numbered.of_table rfl rfl
  logged _ _ _ numbered := numbered

/-! ### The run of the program -/

/-- The trace of a run that returns begins with the call of `main_procedure` and ends with its
return. -/
theorem run_trace {dydList : List DydRow} (returns : (run dydList).1 = .ok ()) :
    ∃ events, (run dydList).2.trace = .entered .mainProcedure (initGlobals dydList) :: events ++
      [.returned .mainProcedure (run dydList).2.toGlobals] := by
  have whole : wp (invoke (callDepth dydList) .mainProcedure) (fun _ after => ∃ events,
      after.trace = .entered .mainProcedure (initGlobals dydList) :: events ++
        [.returned .mainProcedure after.toGlobals]) (fun _ _ => True) (initState dydList) := by
    refine wp_invoke_succ.mpr (wp_mono (body_onward _ .mainProcedure _) ?_ fun _ _ _ => trivial)
    intro _ after onward
    rcases onward.calls with ⟨events, calls⟩
    refine ⟨events, ?_⟩
    rw [State.logged, ← calls]
    rfl
  exact (wp_iff_outcome.mp whole).1 () returns

/-- Where `main_procedure` returns, every call has returned with `now_Procedure` and
`procedure_level` as at its entry. Every row of `var_Table` that was appended between two events
of the trace, the table being empty at the first and complete at the last one, has the number of
open calls of `func_declare` as its level and the name of the innermost as its procedure. No name
has two rows, and the addresses count from 0 on. -/
theorem lab_parser_bookkeeping {dydList : List DydRow} (returns : (run dydList).1 = .ok ()) :
    (openCalls (run dydList).2.trace = [] ∧
        ∀ before procedure globals,
          before ++ [.returned procedure globals] <+: (run dydList).2.trace →
          ∃ entry outer, openCalls before = (procedure, entry) :: outer ∧
            globals.nowProcedure = entry.nowProcedure ∧
            globals.procedureLevel = entry.procedureLevel) ∧
      ((∃ events, (run dydList).2.trace = .entered .mainProcedure (initGlobals dydList) :: events ++
          [.returned .mainProcedure (run dydList).2.toGlobals]) ∧
        ∀ before event next, before ++ [event] ++ [next] <+: (run dydList).2.trace →
          ∃ rows : List VarRow, next.globals.varTable = event.globals.varTable ++ rows ∧
            ∀ row ∈ rows,
              row.level = (functionNames (openCalls (before ++ [event]))).length ∧
              row.procedure = (functionNames (openCalls (before ++ [event]))).headD
                (some ['m', 'a', 'i', 'n'])) ∧
      ((run dydList).2.varTable.map VarRow.name).Nodup ∧
      ∀ (index : Nat) (row : VarRow), (run dydList).2.varTable[index]? = some row →
        row.address = index := by
  have start : Running [] (initState dydList) := by
    refine ⟨⟨rfl, fun before procedure globals inside => ?_, fun before event next inside => ?_,
      fun before event whole => ?_⟩, rfl⟩
    · exact absurd (List.prefix_nil.mp inside) (List.append_ne_nil_of_right_ne_nil _ nofun)
    · exact absurd (List.prefix_nil.mp inside) (List.append_ne_nil_of_right_ne_nil _ nofun)
    · exact absurd whole.symm (List.append_ne_nil_of_right_ne_nil _ nofun)
  have ended := (wp_iff_outcome.mp
    (invoke_running (callDepth dydList) [] .mainProcedure _ start)).1 () returns
  have chronicle : Chronicle [] (run dydList).2 := ended.chronicle
  have numbered : (run dydList).2.Numbered := by
    refine invariant_numbered.run ⟨?_, rfl, rfl⟩
    exact List.nodup_nil
  refine ⟨⟨chronicle.opened, fun before procedure globals inside => ?_⟩,
    ⟨run_trace returns, fun before event next inside => ?_⟩, numbered.names, ?_⟩
  · rcases chronicle.returns before procedure globals inside with ⟨entry, outer, innermost, same⟩
    exact ⟨entry, outer, innermost, congrArg Prod.fst same, congrArg Prod.snd same⟩
  · rcases chronicle.rows before event next inside with ⟨rows, table, owned⟩
    exact ⟨rows, table, fun row member =>
      ⟨congrArg Prod.snd (owned row member), congrArg Prod.fst (owned row member)⟩⟩
  · intro index row here
    have address := congrArg (fun addresses => addresses[index]?) numbered.addresses
    rw [List.getElem?_map, here, List.getElem?_range] at address
    · exact Option.some.inj address
    · exact (List.getElem?_eq_some_iff.mp here).1

private def nestedFunctions : List DydRow :=
  tokensOf "begin integer k;integer function f(n);begin integer n;integer function g(m;k:=n end end"

/-- The declaration of `g` lacks its `)`. -/
theorem lab_parser_bookkeeping_nested :
    ((openCalls (run nestedFunctions).2.trace = [] ∧
        ∀ before procedure globals,
          before ++ [.returned procedure globals] <+: (run nestedFunctions).2.trace →
          ∃ entry outer, openCalls before = (procedure, entry) :: outer ∧
            globals.nowProcedure = entry.nowProcedure ∧
            globals.procedureLevel = entry.procedureLevel) ∧
      ((∃ events, (run nestedFunctions).2.trace =
          .entered .mainProcedure (initGlobals nestedFunctions) :: events ++
            [.returned .mainProcedure (run nestedFunctions).2.toGlobals]) ∧
        ∀ before event next, before ++ [event] ++ [next] <+: (run nestedFunctions).2.trace →
          ∃ rows : List VarRow, next.globals.varTable = event.globals.varTable ++ rows ∧
            ∀ row ∈ rows,
              row.level = (functionNames (openCalls (before ++ [event]))).length ∧
              row.procedure = (functionNames (openCalls (before ++ [event]))).headD
                (some ['m', 'a', 'i', 'n'])) ∧
      ((run nestedFunctions).2.varTable.map VarRow.name).Nodup ∧
      ∀ (index : Nat) (row : VarRow), (run nestedFunctions).2.varTable[index]? = some row →
        row.address = index) ∧
      (run nestedFunctions).2.varTable.map VarRow.owner =
        [(some "main".toList, 0), (some ['f'], 1), (some ['g'], 2)] :=
  ⟨lab_parser_bookkeeping (by decide +kernel), by decide +kernel⟩

end OsCompiler.LabPy
