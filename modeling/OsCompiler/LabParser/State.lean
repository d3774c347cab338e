/-
The global variables of `lab_parser.c` and the functions that read and change them.

`input` and `kind` are one array of entries; behind its end stand empty strings. The
arrays `var` and `pro` are lists, their lengths the counts. A call of `error` is recorded
with the arguments that the caller gives, and the trace has each procedure entered and
each call of `nextToken`, with the `pToken` at that point.
-/

import OsCompiler.Lib.Action

namespace OsCompiler.LabParser

open OsCompiler.Action

structure Entry where
  text : String
  kind : Int
  deriving DecidableEq

def SIGN_UNDEFINED_ERR : Nat := 1
def SIGN_REDEFINED_ERR : Nat := 2
def SIGN_EXECUTE_ERR : Nat := 3
def NO_SIGN_ERR : Nat := 4
def NO_PARA_ERR : Nat := 6

inductive Types
  | integer
  deriving DecidableEq

structure VarRecord where
  vname : String
  vproc : String
  vkind : Bool
  vtype : Types
  vlev : Int
  vadr : Nat
  deriving DecidableEq

structure ProRecord where
  pname : String
  ptype : Types
  plev : Int
  varNum : Nat
  fadr : Nat
  ladr : Nat
  parameter : Nat
  parameterIsDefined : Bool
  deriving DecidableEq

/-- The procedures, under the letters of the productions; `C_` stands for `C'`. -/
inductive Procedure
  | A | B | C | C_ | D | E | F | G | J | K | L | M | M_ | N | O | P | Q | R | R_ | S | S_ | T
  | U | W | X | Y | Z
  deriving DecidableEq

structure ErrorCall where
  errNum : Nat
  symbol : Option String
  deriving DecidableEq

inductive Event
  | entered (procedure : Procedure) (pToken : Nat)
  | next (pToken : Nat)
  deriving DecidableEq

def Event.pToken : Event → Nat
  | .entered _ pToken | .next pToken => pToken

structure State where
  pToken : Nat
  pChar : Nat
  lineNum : Nat
  currentVar : VarRecord
  currentPro : ProRecord
  var : List VarRecord
  pro : List ProRecord
  errors : List ErrorCall
  trace : List Event
  deriving DecidableEq

/-- The only way in which a run does not return: the calls inside one another are too many. -/
inductive Raise
  | tooDeep
  deriving DecidableEq

abbrev Parser (Result : Type) := Action State Raise Result

def start : State where
  pToken := 0
  pChar := 0
  lineNum := 0
  currentVar := ⟨"", "", false, .integer, 0, 0⟩
  currentPro := ⟨"", .integer, 0, 0, 0, 0, 0, false⟩
  var := []
  pro := []
  errors := []
  trace := []

def change (update : State → State) : Parser Unit := modify update

@[simp] theorem outcome_change (update : State → State) (state : State) :
    outcome (change update) state = (.ok (), update state) := rfl

/-- `input[index]` with `kind[index]`. -/
def entryAt (input : List Entry) (index : Nat) : Entry := input.getD index ⟨"", 0⟩

def skipLines (input : List Entry) (index : Nat) : Nat :=
  if _ : index < input.length then
    if input[index].text = "EOLN" then skipLines input (index + 1) else index
  else index
termination_by input.length - index

namespace State

variable (input : List Entry) (state : State)

def current : Entry := entryAt input state.pToken

/-- `input[pToken]` for the new `pToken`, and how many lines end before it. -/
def moved : State :=
  let pToken := state.pToken + 1
  if (entryAt input pToken).text = "$EOF" then { state with pToken := pToken, pChar := 0 }
  else { state with
    pToken := skipLines input pToken
    pChar := 0
    lineNum := state.lineNum + (skipLines input pToken - pToken) }

def logged (event : Event) : State := { state with trace := state.trace ++ [event] }

def getNextToken : Nat := skipLines input (state.pToken + 1)

def isProExisted (vname : String) : Bool :=
  state.var.any (fun row => row.vname = vname) || state.pro.any (fun row => row.pname = vname)

def isVarExisted (vname vproc : String) (vkind : Bool) : Bool :=
  state.var.any (fun row => row.vname = vname ∧ row.vproc = vproc ∧ row.vkind = vkind) ||
    state.pro.any (fun row => row.pname = vname)

def knowsVariable (vname : String) : Bool :=
  state.isVarExisted vname state.currentPro.pname false ||
    state.isVarExisted vname state.currentPro.pname true

/-- What `E` notes in `currentVar`; at the place of the parameter also in `currentPro`. -/
def describeVar (vname : String) : State :=
  let isParameter : Bool := state.pToken = state.currentPro.parameter
  { state with
    currentVar :=
      { vname := vname
        vproc := state.currentPro.pname
        vkind := isParameter
        vtype := .integer
        vlev := state.currentPro.plev
        vadr := state.var.length }
    currentPro := { state.currentPro with
      parameterIsDefined := isParameter || state.currentPro.parameterIsDefined } }

def enterVar : State :=
  { state with
    currentPro := { state.currentPro with
      fadr := if state.currentPro.varNum = 0 then state.currentVar.vadr else state.currentPro.fadr
      ladr := state.currentVar.vadr
      varNum := state.currentPro.varNum + 1 }
    var := state.var ++ [state.currentVar] }

def describePro (pname : String) : State :=
  { state with currentPro := { state.currentPro with
    pname := pname
    ptype := .integer
    plev := state.currentPro.plev + 1
    varNum := 0
    parameterIsDefined := false } }

def noteParameter : State :=
  { state with currentPro := { state.currentPro with parameter := state.pToken } }

def enterPro : State := { state with pro := state.pro ++ [state.currentPro] }

def restorePro (proBackup : ProRecord) : State := { state with currentPro := proBackup }

end State

def current (input : List Entry) : Parser Entry := do return (← get).current input

def error (errNum : Nat) (symbol : Option String) : Parser Unit :=
  change fun state => { state with errors := state.errors ++ [⟨errNum, symbol⟩] }

def nextToken (input : List Entry) : Parser Unit :=
  change fun state => (state.logged (.next state.pToken)).moved input

/-- `if (strcmp(input[pToken], word) == 0) nextToken();`, else an error and `nextToken()` where
the entry is one to be skipped. -/
def expect (input : List Entry) (word : String) (skips : Entry → Bool) : Parser Unit := do
  let entry ← current input
  if entry.text = word then nextToken input
  else
    error NO_SIGN_ERR (some word)
    if skips entry then nextToken input else pure ()

end OsCompiler.LabParser
