/-
Which correct programs `lab_parser.c` accepts.

Without a function the parser follows the derivation to its end. With one, the declarations
in front of the first function are followed, and the call of `J` there reports an error.
-/

import OsCompiler.LabParser.Functions
import OsCompiler.LabParser.Following

namespace OsCompiler.LabParser

open OsCompiler.Action

variable {input : List Entry} {names : List String} {word rest : List Entry}
variable {before after : Scope} {state : State}

/-! ### Declarations -/

/-- The place of the declaration is not that of the parameter. -/
theorem describeVar_vkind (name : String) (elsewhere : state.pToken ≠ state.currentPro.parameter) :
    (state.describeVar name).currentVar.vkind = false :=
  decide_eq_false elsewhere

private theorem isVarExisted_enterVar (name other : String)
    (elsewhere : state.pToken ≠ state.currentPro.parameter) :
    (state.describeVar name).enterVar.isVarExisted other state.currentPro.pname false = true ↔
      state.isVarExisted other state.currentPro.pname false = true ∨ other = name := by
  have row : (state.describeVar name).enterVar.var =
      state.var ++ [(state.describeVar name).currentVar] := rfl
  have vname : (state.describeVar name).currentVar.vname = name := rfl
  have vproc : (state.describeVar name).currentVar.vproc = state.currentPro.pname := rfl
  have pro : (state.describeVar name).enterVar.pro = state.pro := rfl
  have found : decide (name = other) = true ↔ other = name := by
    rw [decide_eq_true_iff]
    exact eq_comm
  simp only [State.isVarExisted, row, pro, List.any_append, List.any_cons, List.any_nil, vname,
    vproc, describeVar_vkind name elsewhere, Bool.or_eq_true, and_true, found, Bool.or_false]
  exact or_right_comm

theorem Parses.enterVar (parses : Parses input names word state)
    (elsewhere : state.pToken ≠ state.currentPro.parameter) (text : String) :
    Parses input (names ++ [text]) word (state.describeVar text).enterVar := by
  refine ⟨parses.noLine, parses.upper, parses.ahead, parses.pChar, parses.errors, parses.parameter,
    fun other => ?_⟩
  rw [List.mem_append, List.mem_singleton, ← parses.known other]
  exact isVarExisted_enterVar text other elsewhere

private theorem leads_declareVar {name : Entry} (parses : Parses input names (name :: rest) state)
    (moved : 0 < state.pToken) (fresh : name.text ∉ names) :
    Leads (Parses input (names ++ [name.text]) (name :: rest)) (fun _ => declareVar input)
      state := by
  have elsewhere : state.pToken ≠ state.currentPro.parameter := by
    rw [parses.parameter]
    exact Nat.ne_of_gt moved
  have vkind := describeVar_vkind name.text elsewhere
  have missing : ¬ (state.describeVar name.text).isVarExisted name.text state.currentPro.pname
      (state.describeVar name.text).currentVar.vkind = true := by
    rw [vkind]
    exact fun known => fresh ((parses.known name.text).mp known)
  have here : state.current input = name := parses.current
  have run : outcome (declareVar input) state =
      (.ok (), (state.describeVar name.text).enterVar) := by
    change outcome (if (state.describeVar (state.current input).text).isVarExisted
      (state.current input).text state.currentPro.pname
      (state.describeVar (state.current input).text).currentVar.vkind = true
      then error SIGN_REDEFINED_ERR none else change State.enterVar)
      (state.describeVar (state.current input).text) = _
    rw [here, if_neg missing]
    rfl
  exact leads_of_outcome run (parses.enterVar elsewhere name.text)

private theorem leads_E {integer name : Entry} (type : IsWord "integer" integer)
    (identifier : IsIdentifier name) (fresh : name.text ∉ names)
    (parses : Parses input names (integer :: name :: rest) state) :
    Leads (Parses input (names ++ [name.text]) rest) (fun depth => invoke input depth .E)
      state := by
  have type' : Leads (fun after => Parses input names (name :: rest) after ∧ 0 < after.pToken)
      (fun _ => expect input "integer" fun _ => true)
      (state.logged (.entered .E state.pToken)) := by
    have parses := parses.logged (.entered .E state.pToken)
    refine leads_current.mpr ?_
    have there : (front (integer :: name :: rest)).text = "integer" := type.text
    rw [parses.current, if_pos there]
    exact leads_of_outcome rfl
      ⟨(parses.logged _).moved, Nat.zero_lt_of_lt (lt_moved_pToken input _)⟩
  refine leads_invoke (type'.seq fun _ _ reached => ?_)
  refine (leads_declareVar reached.1 reached.2 fresh).seq fun _ _ parses => ?_
  exact leads_F parses identifier

def Plain (word : List Entry) : Prop :=
  ∀ entry ∈ word, entry.text ≠ "function"

theorem plain_nil : Plain [] := nofun

theorem plain_cons {entry : Entry} : Plain (entry :: word) ↔
    entry.text ≠ "function" ∧ Plain word :=
  List.forall_mem_cons

theorem plain_append {first second : List Entry} :
    Plain (first ++ second) ↔ Plain first ∧ Plain second :=
  List.forall_mem_append

theorem IsIdentifier.plain {entry : Entry} (identifier : IsIdentifier entry) :
    entry.text ≠ "function" := by
  intro same
  exact identifier.notReserved (same ▸ by decide)

theorem IsWord.plain {sign : String} {entry : Entry} (isSign : IsWord sign entry)
    (other : sign ≠ "function") : entry.text ≠ "function" := by
  rwa [isSign.text]

/-- A declaration is that of a variable, or begins with `integer function`. -/
theorem Declares.cases_D (declares : Declares before .D word after) :
    (∃ integer name, word = [integer, name] ∧ IsWord "integer" integer ∧ IsIdentifier name ∧
      before.Fresh name.text ∧ after = before.withVariable name.text) ∨
    ∃ integer function others, word = integer :: function :: others ∧
      IsWord "integer" integer ∧ IsWord "function" function := by
  cases declares with
  | D_E declares =>
      cases declares with
      | E type identifier fresh => exact Or.inl ⟨_, _, rfl, type, identifier, fresh, rfl⟩
  | D_J declares =>
      cases declares with
      | J type word => exact Or.inr ⟨_, _, _, rfl, type, word⟩

theorem leads_D {integer name : Entry} (type : IsWord "integer" integer)
    (identifier : IsIdentifier name) (fresh : name.text ∉ names)
    (parses : Parses input names (integer :: name :: rest) state) :
    Leads (Parses input (names ++ [name.text]) rest) (fun depth => invoke input depth .D)
      state := by
  have parses := parses.logged (.entered .D state.pToken)
  refine leads_invoke (leads_get.mpr ?_)
  have variable_ : ¬ (entryAt input ((state.logged (.entered .D state.pToken)).pToken + 1)).text =
      "function" := by
    rcases parses.right_behind with line | same
    · rw [line]
      decide
    · rw [same]
      exact identifier.plain
  simp only [if_neg variable_]
  exact leads_E type identifier fresh parses

/-- What the parser still has ahead is in front of these positions. -/
structure InOneLine (input : List Entry) (rest : List Entry) : Prop where
  lines : ∀ index, rest.length < (ahead input index).length →
    (entryAt input index).text = "integer" → (entryAt input (index + 1)).text ≠ "EOLN"

private theorem reports_D {integer function : Entry} {behind : List Entry} (depth : Nat)
    (lines : InOneLine input behind) (type : IsWord "integer" integer)
    (isFunction : IsWord "function" function) (shorter : behind.length ≤ rest.length)
    (parses : Parses input names (integer :: function :: rest) state) :
    Ends Reported (invoke input depth .D) state := by
  refine ends_invoke fun depth _ => ends_get.mpr ?_
  have parses := parses.logged (.entered .D state.pToken)
  have here : (entryAt input state.pToken).text = "integer" := by
    have first : entryAt input state.pToken = integer := parses.current
    rw [first]
    exact type.text
  have further : behind.length < (ahead input state.pToken).length := by
    have whole : ahead input state.pToken = integer :: function :: rest := parses.ahead
    rw [whole]
    simp only [List.length_cons]
    omega
  have there : (entryAt input ((state.logged (.entered .D state.pToken)).pToken + 1)).text =
      "function" := by
    rcases parses.right_behind with line | same
    · exact absurd line (lines.lines state.pToken further here)
    · rw [same]
      exact isFunction.text
  rw [if_pos there]
  exact reports_J depth _

/-- `C_` goes on at a semicolon with `integer` behind it. -/
theorem goes_on_C_ {semicolon integer : Entry} (sign : IsWord ";" semicolon)
    (type : IsWord "integer" integer)
    (parses : Parses input names (semicolon :: integer :: rest) state) :
    (state.current input).text = ";" ∧
      (entryAt input (state.getNextToken input)).text = "integer" := by
  rw [parses.current, parses.next]
  exact ⟨sign.text, type.text⟩

section Rest

variable {procedure : Procedure} {semicolon : Entry} {behind : List Entry}

/-- By induction on the declarations that are left. -/
theorem Declares.leads_C_ (declares : Declares before procedure word after)
    (isRest : procedure = .C_) (plain : Plain word) (sign : IsWord ";" semicolon)
    (statement : (front behind).text ≠ "integer") :
    after.functionNames = before.functionNames ∧
      ∀ state, Parses input before.variableNames (word ++ semicolon :: behind) state →
        Leads (Parses input after.variableNames (semicolon :: behind))
          (fun depth => invoke input depth .C_) state := by
  induction declares with
  | @C_next _ _ _ next _ others sign first _ _ ih =>
      rw [plain_cons, plain_append] at plain
      rcases first.cases_D with ⟨integer, name, rfl, type, identifier, fresh, rfl⟩ |
        ⟨integer, function, _, rfl, _, isFunction⟩
      · rcases ih rfl plain.2.2 with ⟨functions, leads⟩
        refine ⟨functions, fun state parses => leads_invoke (leads_get.mpr ?_)⟩
        have parses : Parses input _ (next :: integer :: name :: (others ++ semicolon :: behind))
            (state.logged (.entered .C_ state.pToken)) := parses.logged _
        simp only [if_pos (goes_on_C_ sign type parses)]
        refine (leads_next parses).seq fun _ _ parses => ?_
        refine (leads_D type identifier fresh.1 parses).seq fun _ state parses => ?_
        exact leads state parses
      · exact absurd isFunction.text (plain.2.1 function (by simp))
  | C_empty =>
      refine ⟨rfl, fun state parses => leads_invoke (leads_get.mpr ?_)⟩
      have parses : Parses input _ (semicolon :: behind)
          (state.logged (.entered .C_ state.pToken)) := parses.logged _
      have noMore : ¬ ((front (semicolon :: behind)).text = ";" ∧
          (front behind).text = "integer") := fun more => statement more.2
      have noInteger : ¬ (front (semicolon :: behind)).text = "integer" := by
        rw [front, List.headD_cons, sign.text]
        decide
      simp only [parses.current, parses.next, if_neg noMore, if_neg noInteger]
      exact leads_done parses
  | _ => cases isRest

private theorem ends_of_leads {returns : State → Prop}
    (leads : Leads returns (fun depth => invoke input depth procedure) state) (depth : Nat) :
    Ends returns (invoke input depth procedure) state := by
  rcases leads with ⟨enough, result, after, holds, run⟩
  rcases run' : outcome (invoke input depth procedure) state with ⟨raise | result', after'⟩
  · exact (wp_of_raise run').mpr trivial
  · have deeper := (invoke_deeper input (Nat.le_max_left depth enough) procedure).returns run'
    rw [run _ (Nat.le_max_right depth enough)] at deeper
    cases deeper
    exact (wp_of_outcome run').mpr holds

/-- Up to the first function the parser follows the declarations. -/
theorem Declares.reports_C_ (declares : Declares before procedure word after)
    (isRest : procedure = .C_) (function : ¬ Plain word) (lines : InOneLine input behind) :
    ∀ depth state, Parses input before.variableNames (word ++ behind) state →
      Ends Reported (invoke input depth .C_) state := by
  induction declares with
  | @C_next here _ _ next _ others sign first _ _ ih =>
      intro depth state parses
      refine ends_invoke fun depth _ => ends_get.mpr ?_
      have keeps : Keeps Reported (invoke input depth .C_) := inferInstance
      rcases first.cases_D with ⟨integer, name, rfl, type, identifier, fresh, rfl⟩ |
        ⟨integer, function', more, rfl, type, isFunction⟩
      · have parses : Parses input _ (next :: integer :: name :: (others ++ behind))
            (state.logged (.entered .C_ state.pToken)) := parses.logged _
        have function : ¬ Plain others := fun plain => function (plain_cons.mpr
          ⟨sign.plain (by decide), plain_append.mpr ⟨plain_cons.mpr ⟨type.plain (by decide),
            plain_cons.mpr ⟨identifier.plain, plain_nil⟩⟩, plain⟩⟩)
        rw [if_pos (goes_on_C_ sign type parses)]
        refine (ends_change (parses.logged _).moved).seq fun _ _ parses => ?_
        refine (ends_of_leads (leads_D type identifier fresh.1 parses) depth).seq
          fun _ state parses => ?_
        exact ih rfl function depth state parses
      · have parses : Parses input here.variableNames
            (next :: integer :: function' :: (more ++ others ++ behind))
            (state.logged (.entered .C_ state.pToken)) := by
          simpa using parses.logged (.entered .C_ state.pToken)
        rw [if_pos (goes_on_C_ sign type parses)]
        have shorter : behind.length ≤ (more ++ others ++ behind).length := by
          rw [List.length_append]
          exact Nat.le_add_left _ _
        refine (ends_change (parses.logged _).moved).seq fun _ _ parses => ?_
        exact (reports_D depth lines type isFunction shorter parses).seq fun _ => keeps.keeps
  | C_empty => exact absurd plain_nil function
  | _ => cases isRest

theorem Declares.leads_C (declares : Declares before .C word after) (plain : Plain word)
    (sign : IsWord ";" semicolon) (statement : (front behind).text ≠ "integer")
    (parses : Parses input before.variableNames (word ++ semicolon :: behind) state) :
    after.functionNames = before.functionNames ∧
      Leads (Parses input after.variableNames (semicolon :: behind))
        (fun depth => invoke input depth .C) state := by
  cases declares with
  | @C _ _ _ _ others first rest =>
      rw [plain_append] at plain
      rcases first.cases_D with ⟨integer, name, rfl, type, identifier, fresh, rfl⟩ |
        ⟨integer, function, _, rfl, _, isFunction⟩
      · rcases rest.leads_C_ rfl plain.2 sign statement with ⟨functions, leads⟩
        refine ⟨functions, leads_invoke ?_⟩
        have parses : Parses input _ (integer :: name :: (others ++ semicolon :: behind))
            (state.logged (.entered .C state.pToken)) := parses.logged _
        exact (leads_D type identifier fresh.1 parses).seq fun _ state parses => leads state parses
      · exact absurd isFunction.text (plain.1 function (by simp))

theorem Declares.reports_C (declares : Declares before .C word after) (function : ¬ Plain word)
    (lines : InOneLine input behind) (depth : Nat)
    (parses : Parses input before.variableNames (word ++ behind) state) :
    Ends Reported (invoke input depth .C) state := by
  cases declares with
  | @C _ _ _ _ others first rest =>
      refine ends_invoke fun depth _ => ?_
      have keeps : Keeps Reported (invoke input depth .C_) := inferInstance
      rcases first.cases_D with ⟨integer, name, rfl, type, identifier, fresh, rfl⟩ |
        ⟨integer, function', more, rfl, type, isFunction⟩
      · have parses : Parses input _ (integer :: name :: (others ++ behind))
            (state.logged (.entered .C state.pToken)) := parses.logged _
        have function : ¬ Plain others := fun plain => function (plain_append.mpr
          ⟨plain_cons.mpr ⟨type.plain (by decide),
            plain_cons.mpr ⟨identifier.plain, plain_nil⟩⟩, plain⟩)
        refine (ends_of_leads (leads_D type identifier fresh.1 parses) depth).seq
          fun _ state parses => ?_
        exact rest.reports_C_ rfl function lines depth state parses
      · have parses : Parses input before.variableNames
            (integer :: function' :: (more ++ others ++ behind))
            (state.logged (.entered .C state.pToken)) := by
          simpa using parses.logged (.entered .C state.pToken)
        have shorter : behind.length ≤ (more ++ others ++ behind).length := by
          rw [List.length_append]
          exact Nat.le_add_left _ _
        exact (reports_D depth lines type isFunction shorter parses).seq fun _ => keeps.keeps

end Rest

/-! ### Statements -/

theorem Executes.front_N {scope : Scope} (executes : Executes scope .N word) (rest : List Entry) :
    (front (word ++ rest)).text ≠ "integer" := by
  have signs (sign : String) (other : sign ≠ "integer") (entry : Entry)
      (isSign : IsWord sign entry) : entry.text ≠ "integer" := by rwa [isSign.text]
  cases executes with
  | N_O statement =>
      cases statement with
      | O first => exact signs "read" (by decide) _ first
  | N_P statement =>
      cases statement with
      | P first => exact signs "write" (by decide) _ first
  | N_Q statement =>
      cases statement with
      | Q identifier =>
          intro same
          exact identifier.notReserved (same ▸ by decide)
  | N_W statement =>
      cases statement with
      | W first => exact signs "if" (by decide) _ first

theorem Executes.front_M {scope : Scope} (executes : Executes scope .M word) (rest : List Entry) :
    (front (word ++ rest)).text ≠ "integer" := by
  cases executes with
  | M first _ =>
      rw [List.append_assoc]
      exact first.front_N _

theorem IsConstant.plain {entry : Entry} (number : IsConstant entry) :
    entry.text ≠ "function" := by
  intro same
  rcases number.digits with ⟨first, others, text, digit, _⟩
  rw [same] at text
  obtain ⟨rfl, -⟩ := List.cons.inj text
  exact absurd digit (by decide)

theorem IsRelation.plain {entry : Entry} (relation : IsRelation entry) :
    entry.text ≠ "function" := by
  intro same
  have member := relation.text
  rw [same] at member
  exact absurd member (by decide)

/-- The statements have no word `function`. -/
theorem Executes.plain {scope : Scope} {procedure : Procedure}
    (executes : Executes scope procedure word) : Plain word := by
  induction executes with
  | M _ _ statement others => exact plain_append.mpr ⟨statement, others⟩
  | M_next sign _ _ statement others =>
      exact plain_cons.mpr ⟨sign.plain (by decide), plain_append.mpr ⟨statement, others⟩⟩
  | M_empty | R_empty | S_empty => exact plain_nil
  | N_O _ statement | N_P _ statement | N_Q _ statement | N_W _ statement => exact statement
  | O first opening identifier _ closing | P first opening identifier _ closing =>
      simp only [plain_cons]
      exact ⟨first.plain (by decide), opening.plain (by decide), identifier.plain,
        closing.plain (by decide), plain_nil⟩
  | Q identifier _ sign _ value =>
      simp only [plain_cons]
      exact ⟨identifier.plain, sign.plain (by decide), value⟩
  | R _ _ term others => exact plain_append.mpr ⟨term, others⟩
  | R_minus sign _ _ term others =>
      exact plain_cons.mpr ⟨sign.plain (by decide), plain_append.mpr ⟨term, others⟩⟩
  | S _ _ factor others => exact plain_append.mpr ⟨factor, others⟩
  | S_times sign _ _ factor others =>
      exact plain_cons.mpr ⟨sign.plain (by decide), plain_append.mpr ⟨factor, others⟩⟩
  | T_F identifier => exact plain_cons.mpr ⟨identifier.plain, plain_nil⟩
  | T_U number => exact plain_cons.mpr ⟨number.plain, plain_nil⟩
  | T_Z _ application => exact application
  | W first _ second _ third _ test onTrue onFalse =>
      simp only [plain_cons, plain_append]
      exact ⟨first.plain (by decide), test, second.plain (by decide), onTrue,
        third.plain (by decide), onFalse⟩
  | X _ sign _ less more => exact plain_append.mpr ⟨less, plain_cons.mpr ⟨sign.plain, more⟩⟩
  | Z identifier _ opening _ closing argument =>
      simp only [plain_cons, plain_append]
      exact ⟨identifier.plain, opening.plain (by decide), argument, closing.plain (by decide),
        plain_nil⟩

/-! ### Programs -/

section Block

variable {begin_ semicolon end_ : Entry} {declarations statements : List Entry}

private theorem leads_B (first : IsWord "begin" begin_)
    (declares : Declares before .C declarations after)
    (sign : IsWord ";" semicolon) (executes : Executes after .M statements)
    (last : IsWord "end" end_) (plain : Plain declarations) (none : before.functionNames = [])
    (parses : Parses input before.variableNames
      (begin_ :: (declarations ++ semicolon :: (statements ++ end_ :: rest))) state) :
    Leads (Parses input after.variableNames rest) (fun depth => invoke input depth .B) state := by
  refine leads_invoke ((leads_expect first _ (parses.logged _)).seq fun _ state parses => ?_)
  rcases declares.leads_C plain sign (executes.front_M _) parses with ⟨functions, leads⟩
  refine leads.seq fun _ _ parses => ?_
  refine (leads_expect sign _ parses).seq fun _ state parses => ?_
  refine (executes.consumed (functions.trans none) (end_ :: rest) state last parses).seq
    fun _ _ parses => ?_
  exact leads_expect last _ parses

private theorem ends_expected {sign : String} {entry : Entry} (isSign : IsWord sign entry)
    (skips : Entry → Bool) (parses : Parses input names (entry :: word) state) :
    Ends (Parses input names word) (expect input sign skips) state := by
  refine ends_current.mpr ?_
  have there : (front (entry :: word)).text = sign := isSign.text
  rw [parses.current, if_pos there]
  exact ends_change (parses.logged _).moved

private theorem reports_B (first : IsWord "begin" begin_)
    (declares : Declares before .C declarations after)
    (function : ¬ Plain declarations) (lines : InOneLine input rest) (depth : Nat)
    (parses : Parses input before.variableNames (begin_ :: (declarations ++ rest)) state) :
    Ends Reported (invoke input depth .B) state := by
  have others (depth : Nat) : Keeps Reported (do
      expect input ";" fun entry => !startsStatement entry
      invoke input depth .M
      expect input "end" fun _ => false) := inferInstance
  refine ends_invoke fun depth _ => ?_
  refine (ends_expected first _ (parses.logged _)).seq fun _ _ parses => ?_
  exact (declares.reports_C function lines depth parses).seq fun _ => (others depth).keeps

end Block

section Program

variable {program behind : List Entry}

theorem entryAt_program {index : Nat} (inside : index < program.length) :
    entryAt (program ++ behind) index = entryAt program index := by
  simp only [entryAt, List.getD_eq_getElem?_getD, List.getElem?_append_left inside]

private theorem entryAt_program_length :
    entryAt (program ++ behind) program.length = entryAt behind 0 := by
  simp only [entryAt, List.getD_eq_getElem?_getD, List.getElem?_append_right (Nat.le_refl _),
    Nat.sub_self]

private theorem ahead_program_length :
    ahead (program ++ behind) program.length = behind.filter notLine := by
  rw [ahead, List.drop_left]

theorem CorrectProgram.nonempty (correct : CorrectProgram program behind) :
    0 < program.length := by
  rcases correct.derives with ⟨scope, declares⟩
  refine List.length_pos_iff.mpr ?_
  rintro rfl
  cases declares with
  | A declares => cases declares

theorem CorrectProgram.starts (correct : CorrectProgram program behind) :
    Parses (program ++ behind) [] (program.filter notLine ++ behind.filter notLine) start := by
  refine ⟨?_, Nat.zero_le _, List.filter_append _ _, rfl, rfl, rfl, fun name => ?_⟩
  · have first := correct.first
    rwa [← entryAt_program correct.nonempty] at first
  · simp [State.isVarExisted, start]

theorem CorrectProgram.inOneLine (correct : CorrectProgram program behind)
    (shorter : (behind.filter notLine).length ≤ rest.length) :
    InOneLine (program ++ behind) rest := by
  refine ⟨fun index further integer => ?_⟩
  have inside : index < program.length := by
    refine Classical.byContradiction fun outside => ?_
    have fewer := length_ahead_le (program ++ behind) (Nat.le_of_not_lt outside)
    rw [ahead_program_length] at fewer
    omega
  rw [entryAt_program inside] at integer
  rcases Nat.eq_or_lt_of_le (Nat.succ_le_of_lt inside) with last | before
  · have last : index + 1 = program.length := last
    rw [last, entryAt_program_length]
    exact correct.behind
  · rw [entryAt_program before]
    exact correct.integer index integer

/-- Where the entries behind the program are ahead, `pToken` stands behind the program. -/
theorem CorrectProgram.pToken_eq (correct : CorrectProgram program behind) {names : List String}
    (parses : Parses (program ++ behind) names (behind.filter notLine) state) :
    state.pToken = program.length := by
  have same : ahead (program ++ behind) state.pToken =
      ahead (program ++ behind) program.length := by
    rw [parses.ahead, ahead_program_length]
  rcases Nat.le_total state.pToken program.length with le | ge
  · exact eq_of_ahead_eq parses.noLine le (by simp) same
  · refine (eq_of_ahead_eq ?_ ge parses.upper same.symm).symm
    rw [entryAt_program_length]
    exact correct.behind

/-- The run returns without an error, and `pToken` stands there. -/
def Accepts (input : List Entry) (stop : Nat) : Prop :=
  ∃ depth after, outcome (invoke input depth .A) start = (.ok (), after) ∧ after.errors = [] ∧
    after.pToken = stop

theorem CorrectProgram.accepts (correct : CorrectProgram program behind)
    (plain : ∀ entry ∈ program, entry.text ≠ "function") :
    Accepts (program ++ behind) program.length := by
  rcases correct.derives with ⟨scope, declares⟩
  have starts := correct.starts
  have words : Plain (program.filter notLine) := fun entry member =>
    plain entry (List.mem_filter.mp member).1
  generalize program.filter notLine = word at declares starts words
  cases declares with
  | A declares =>
      cases declares with
      | @B _ _ begin_ semicolon end_ declarations statements first declares sign executes last =>
          simp only [plain_cons, plain_append] at words
          have parses : Parses (program ++ behind) Scope.outermost.variableNames
              (begin_ :: (declarations ++ semicolon ::
                (statements ++ end_ :: behind.filter notLine)))
              (start.logged (.entered .A start.pToken)) := by
            simpa [Scope.outermost] using starts.logged (.entered .A start.pToken)
          have leads : Leads
              (Parses (program ++ behind) scope.variableNames (behind.filter notLine))
              (fun depth => invoke (program ++ behind) depth .A) start :=
            leads_invoke (leads_B first declares sign executes last words.2.1
              rfl parses)
          rcases leads with ⟨depth, _, after, parses, run⟩
          exact ⟨depth, after, run depth (Nat.le_refl _), parses.errors, correct.pToken_eq parses⟩

theorem CorrectProgram.reports (correct : CorrectProgram program behind)
    (function : ¬ Plain (program.filter notLine)) (depth : Nat) :
    Ends Reported (invoke (program ++ behind) depth .A) start := by
  rcases correct.derives with ⟨scope, declares⟩
  have starts := correct.starts
  generalize program.filter notLine = word at declares starts function
  cases declares with
  | A declares =>
      cases declares with
      | @B _ _ begin_ semicolon end_ declarations statements first declares sign executes last =>
          have function : ¬ Plain declarations := fun plain => function (by
            simp only [plain_cons, plain_append]
            exact ⟨first.plain (by decide), plain, sign.plain (by decide), executes.plain,
              last.plain (by decide), plain_nil⟩)
          have parses : Parses (program ++ behind) Scope.outermost.variableNames
              (begin_ :: (declarations ++ (semicolon ::
                (statements ++ end_ :: behind.filter notLine))))
              (start.logged (.entered .A start.pToken)) := by
            simpa [Scope.outermost] using starts.logged (.entered .A start.pToken)
          have lines : InOneLine (program ++ behind)
              (semicolon :: (statements ++ end_ :: behind.filter notLine)) := by
            refine correct.inOneLine ?_
            simp only [List.length_cons, List.length_append]
            omega
          exact ends_invoke fun depth _ => reports_B first declares function lines depth parses

/-- A correct program is accepted exactly if it declares no function. -/
theorem accepts_iff (correct : CorrectProgram program behind) :
    Accepts (program ++ behind) program.length ↔ ∀ entry ∈ program, entry.text ≠ "function" := by
  constructor
  · rintro ⟨depth, after, run, errors, _⟩ entry member function
    have reported : Reported after := by
      refine (wp_of_outcome run).mp (correct.reports (fun plain => ?_) depth)
      refine plain entry (List.mem_filter.mpr ⟨member, ?_⟩) function
      simp [notLine, function]
    exact reported errors
  · exact correct.accepts

end Program

/-! ### Two programs -/

theorem isWord_of {sign : String} {kind : Int} (other : kind ≠ 10 ∧ kind ≠ 11) :
    IsWord sign ⟨sign, kind⟩ :=
  ⟨rfl, other.1, other.2⟩

theorem isIdentifier_of {name : String} (letter : Char) (text : name.toList = [letter])
    (isLetter : letter.isAlpha = true) (notReserved : name ∉ reservedWords) :
    IsIdentifier ⟨name, 10⟩ :=
  ⟨rfl, ⟨letter, [], text, isLetter, nofun⟩, notReserved⟩

private theorem integer_of {program : List Entry} (inside : ∀ index < program.length,
    (entryAt program index).text = "integer" → (entryAt program (index + 1)).text ≠ "EOLN")
    (index : Nat) (integer : (entryAt program index).text = "integer") :
    (entryAt program (index + 1)).text ≠ "EOLN" := by
  refine inside index (Classical.byContradiction fun outside => ?_) integer
  rw [entryAt_outside outside] at integer
  exact absurd integer (by decide)

private theorem executes_read {scope : Scope} {name : String} (identifier : IsIdentifier ⟨name, 10⟩)
    (declared : name ∈ scope.variableNames) :
    Executes scope .M [⟨"read", 8⟩, ⟨"(", 21⟩, ⟨name, 10⟩, ⟨")", 22⟩] :=
  .M (.N_O (.O (isWord_of (by decide)) (isWord_of (by decide)) identifier declared
    (isWord_of (by decide)))) .M_empty

theorem declares_E {before : Scope} {name : String} (identifier : IsIdentifier ⟨name, 10⟩)
    (fresh : before.Fresh name) :
    Declares before .D [⟨"integer", 3⟩, ⟨name, 10⟩] (before.withVariable name) :=
  .D_E (.E (isWord_of (by decide)) identifier fresh)

theorem correct_readProgram : CorrectProgram readProgram [⟨"EOF", 25⟩] := by
  have identifier : IsIdentifier ⟨"x", 10⟩ :=
    isIdentifier_of 'x' (by decide) (by decide) (by decide)
  have declares : Declares .outermost .C [⟨"integer", 3⟩, ⟨"x", 10⟩]
      (Scope.outermost.withVariable "x") :=
    .C (declares_E identifier ⟨by decide, by decide⟩) .C_empty
  have program : Declares .outermost .A [⟨"begin", 1⟩, ⟨"integer", 3⟩, ⟨"x", 10⟩, ⟨";", 23⟩,
      ⟨"read", 8⟩, ⟨"(", 21⟩, ⟨"x", 10⟩, ⟨")", 22⟩, ⟨"end", 2⟩]
      (Scope.outermost.withVariable "x") :=
    .A (.B (isWord_of (by decide)) declares (isWord_of (by decide))
      (executes_read identifier (by decide)) (isWord_of (by decide)))
  have word : readProgram.filter notLine = [⟨"begin", 1⟩, ⟨"integer", 3⟩, ⟨"x", 10⟩, ⟨";", 23⟩,
      ⟨"read", 8⟩, ⟨"(", 21⟩, ⟨"x", 10⟩, ⟨")", 22⟩, ⟨"end", 2⟩] := by decide
  exact ⟨⟨_, word ▸ program⟩, by decide, integer_of (by decide), by decide⟩

theorem accepts_readProgram : Accepts (readProgram ++ [⟨"EOF", 25⟩]) 10 :=
  (accepts_iff correct_readProgram).mpr (by decide)

def functionProgram : List Entry :=
  [⟨"begin", 1⟩, ⟨"integer", 3⟩, ⟨"k", 10⟩, ⟨";", 23⟩, ⟨"EOLN", 24⟩, ⟨"integer", 3⟩,
    ⟨"function", 7⟩, ⟨"F", 10⟩, ⟨"(", 21⟩, ⟨"n", 10⟩, ⟨")", 22⟩, ⟨";", 23⟩, ⟨"EOLN", 24⟩,
    ⟨"begin", 1⟩, ⟨"integer", 3⟩, ⟨"n", 10⟩, ⟨";", 23⟩, ⟨"EOLN", 24⟩, ⟨"F", 10⟩, ⟨":=", 20⟩,
    ⟨"n", 10⟩, ⟨"end", 2⟩, ⟨";", 23⟩, ⟨"EOLN", 24⟩, ⟨"read", 8⟩, ⟨"(", 21⟩, ⟨"k", 10⟩, ⟨")", 22⟩,
    ⟨"end", 2⟩]

private theorem correct_functionProgram : CorrectProgram functionProgram [⟨"EOF", 25⟩] := by
  have nameK : IsIdentifier ⟨"k", 10⟩ := isIdentifier_of 'k' (by decide) (by decide) (by decide)
  have nameF : IsIdentifier ⟨"F", 10⟩ := isIdentifier_of 'F' (by decide) (by decide) (by decide)
  have nameN : IsIdentifier ⟨"n", 10⟩ := isIdentifier_of 'n' (by decide) (by decide) (by decide)
  let inside : Scope := ((Scope.outermost.withVariable "k").inFunction "F").withVariable "n"
  have value : Executes inside .R [⟨"n", 10⟩] :=
    .R (.S (.T_F nameN (by decide)) .S_empty) .R_empty
  have statements : Executes inside .M [⟨"F", 10⟩, ⟨":=", 20⟩, ⟨"n", 10⟩] :=
    .M (.N_Q (.Q nameF (by decide) (isWord_of (by decide)) value)) .M_empty
  have declarations : Declares ((Scope.outermost.withVariable "k").inFunction "F") .C
      [⟨"integer", 3⟩, ⟨"n", 10⟩] inside :=
    .C (declares_E nameN ⟨by decide, by decide⟩) .C_empty
  have body : Declares ((Scope.outermost.withVariable "k").inFunction "F") .L
      [⟨"begin", 1⟩, ⟨"integer", 3⟩, ⟨"n", 10⟩, ⟨";", 23⟩, ⟨"F", 10⟩, ⟨":=", 20⟩, ⟨"n", 10⟩,
        ⟨"end", 2⟩] inside :=
    .L (isWord_of (by decide)) declarations (isWord_of (by decide)) statements
      (isWord_of (by decide))
  have function : Declares (Scope.outermost.withVariable "k") .D
      [⟨"integer", 3⟩, ⟨"function", 7⟩, ⟨"F", 10⟩, ⟨"(", 21⟩, ⟨"n", 10⟩, ⟨")", 22⟩, ⟨";", 23⟩,
        ⟨"begin", 1⟩, ⟨"integer", 3⟩, ⟨"n", 10⟩, ⟨";", 23⟩, ⟨"F", 10⟩, ⟨":=", 20⟩, ⟨"n", 10⟩,
        ⟨"end", 2⟩] ((Scope.outermost.withVariable "k").behind inside) :=
    .D_J (.J (isWord_of (by decide)) (isWord_of (by decide)) nameF ⟨by decide, by decide⟩
      (isWord_of (by decide)) nameN (isWord_of (by decide)) (isWord_of (by decide)) body
      (by decide))
  have both : Declares .outermost .C [⟨"integer", 3⟩, ⟨"k", 10⟩, ⟨";", 23⟩, ⟨"integer", 3⟩,
      ⟨"function", 7⟩, ⟨"F", 10⟩, ⟨"(", 21⟩, ⟨"n", 10⟩, ⟨")", 22⟩, ⟨";", 23⟩, ⟨"begin", 1⟩,
      ⟨"integer", 3⟩, ⟨"n", 10⟩, ⟨";", 23⟩, ⟨"F", 10⟩, ⟨":=", 20⟩, ⟨"n", 10⟩, ⟨"end", 2⟩]
      ((Scope.outermost.withVariable "k").behind inside) :=
    .C (declares_E nameK ⟨by decide, by decide⟩)
      (.C_next (isWord_of (by decide)) function .C_empty)
  have program : Declares .outermost .A [⟨"begin", 1⟩, ⟨"integer", 3⟩, ⟨"k", 10⟩, ⟨";", 23⟩,
      ⟨"integer", 3⟩, ⟨"function", 7⟩, ⟨"F", 10⟩, ⟨"(", 21⟩, ⟨"n", 10⟩, ⟨")", 22⟩, ⟨";", 23⟩,
      ⟨"begin", 1⟩, ⟨"integer", 3⟩, ⟨"n", 10⟩, ⟨";", 23⟩, ⟨"F", 10⟩, ⟨":=", 20⟩, ⟨"n", 10⟩,
      ⟨"end", 2⟩, ⟨";", 23⟩, ⟨"read", 8⟩, ⟨"(", 21⟩, ⟨"k", 10⟩, ⟨")", 22⟩, ⟨"end", 2⟩]
      ((Scope.outermost.withVariable "k").behind inside) :=
    .A (.B (isWord_of (by decide)) both (isWord_of (by decide))
      (executes_read nameK (by decide)) (isWord_of (by decide)))
  have word : functionProgram.filter notLine = [⟨"begin", 1⟩, ⟨"integer", 3⟩, ⟨"k", 10⟩, ⟨";", 23⟩,
      ⟨"integer", 3⟩, ⟨"function", 7⟩, ⟨"F", 10⟩, ⟨"(", 21⟩, ⟨"n", 10⟩, ⟨")", 22⟩, ⟨";", 23⟩,
      ⟨"begin", 1⟩, ⟨"integer", 3⟩, ⟨"n", 10⟩, ⟨";", 23⟩, ⟨"F", 10⟩, ⟨":=", 20⟩, ⟨"n", 10⟩,
      ⟨"end", 2⟩, ⟨";", 23⟩, ⟨"read", 8⟩, ⟨"(", 21⟩, ⟨"k", 10⟩, ⟨")", 22⟩, ⟨"end", 2⟩] := by decide
  exact ⟨⟨_, word ▸ program⟩, by decide, integer_of (by decide), by decide⟩

/-- The run ends where it should, but reports that the declaration of `n` is missing. -/
theorem functionProgram_rejected : CorrectProgram functionProgram [⟨"EOF", 25⟩] ∧
    ¬ Accepts (functionProgram ++ [⟨"EOF", 25⟩]) functionProgram.length ∧
      (outcome (invoke (functionProgram ++ [⟨"EOF", 25⟩]) 20 .A) start).2.errors =
        [⟨NO_PARA_ERR, some "n"⟩] := by
  refine ⟨correct_functionProgram, ?_, by decide +kernel⟩
  have reports := correct_functionProgram.reports fun plain =>
    plain ⟨"function", 7⟩ (by decide) rfl
  rintro ⟨depth, after, run, errors, _⟩
  exact (wp_of_outcome run).mp (reports depth) errors

end OsCompiler.LabParser
