/-
The parse procedures of `lab_parser.c`.

The procedures call one another without end in sight, so each is written over a
parameter `call`, and `invoke` closes the recursion down to a depth. Each call leaves
its entry in the trace.
-/

import OsCompiler.LabParser.State

namespace OsCompiler.LabParser

open OsCompiler.Action

/-- Words with which the parser goes on where a sign is missing. -/
def startsStatement (entry : Entry) : Bool :=
  entry.text = "integer" ∨ entry.text = "read" ∨ entry.text = "write" ∨ entry.kind = 10

def isOperand (entry : Entry) : Bool := entry.kind = 10 ∨ entry.kind = 11

def isRelation (entry : Entry) : Bool :=
  entry.text = "<" ∨ entry.text = "<=" ∨ entry.text = ">" ∨ entry.text = ">=" ∨
    entry.text = "=" ∨ entry.text = "<>"

section Procedures

variable (input : List Entry) (call : Procedure → Parser Unit)

def A : Parser Unit :=
  call .B

def B : Parser Unit := do
  expect input "begin" fun entry => entry.text ≠ "integer"
  call .C
  expect input ";" fun entry => !startsStatement entry
  call .M
  expect input "end" fun _ => false

def C : Parser Unit := do
  call .D
  call .C_

def C_ : Parser Unit := do
  let state ← get
  if (state.current input).text = ";" ∧
      (entryAt input (state.getNextToken input)).text = "integer" then
    nextToken input
    call .D
    call .C_
  else if (state.current input).text = "integer" then
    error NO_SIGN_ERR (some ";")
    call .D
    call .C_
  else
    pure ()

def D : Parser Unit := do
  if (entryAt input ((← get).pToken + 1)).text = "function" then
    call .J
  else
    call .E

def declareVar : Parser Unit := do
  let name := (← current input).text
  change fun state => state.describeVar name
  let state ← get
  if state.isVarExisted name state.currentPro.pname state.currentVar.vkind then
    error SIGN_REDEFINED_ERR none
  else
    change State.enterVar

def E : Parser Unit := do
  expect input "integer" fun _ => true
  declareVar input
  call .F

def F : Parser Unit :=
  call .G

/-- `G->HG'` is the token of an identifier. -/
def G : Parser Unit := do
  if (← current input).kind = 10 then
    nextToken input
  else
    pure ()

def declarePro : Parser Unit := do
  let name := (← current input).text
  change fun state => state.describePro name
  if (← get).isProExisted name then
    error SIGN_REDEFINED_ERR none
  else
    pure ()

def functionHead : Parser Unit := do
  expect input "integer" fun entry => entry.text ≠ "function"
  expect input "function" fun entry => entry.kind ≠ 10
  declarePro input
  call .G
  expect input "(" fun entry => entry.kind ≠ 10
  change State.noteParameter

def functionRest : Parser Unit := do
  call .K
  expect input ")" fun entry => entry.text ≠ ";"
  expect input ";" fun entry => entry.text ≠ "begin"
  call .L

def J : Parser Unit := do
  let proBackup := (← get).currentPro
  functionHead input call
  functionRest input call
  change fun state => state.restorePro proBackup

def K : Parser Unit :=
  call .F

/-- The test of `L` behind the declarations. -/
def checkParameter : Parser Unit := do
  let currentPro := (← get).currentPro
  if currentPro.parameterIsDefined = false then
    error NO_PARA_ERR (some (entryAt input currentPro.parameter).text)
  else
    pure ()

def L : Parser Unit := do
  expect input "begin" fun entry => entry.text ≠ "integer"
  call .C
  checkParameter input
  change State.enterPro
  expect input ";" fun entry => !startsStatement entry
  call .M
  expect input "end" fun entry => entry.text ≠ ";" ∧ entry.text ≠ "end"

def M : Parser Unit := do
  call .N
  call .M_

def M_ : Parser Unit := do
  let entry ← current input
  if entry.text = ";" then
    nextToken input
    call .N
    call .M_
  else if entry.text ≠ "end" ∧ entry.text ≠ "EOF" then
    error NO_SIGN_ERR (some ";")
    call .N
    call .M_
  else
    pure ()

def N : Parser Unit := do
  let entry ← current input
  if entry.text = "read" then
    call .O
  else if entry.text = "write" then
    call .P
  else if entry.text = "if" then
    call .W
  else if entry.kind = 10 then
    call .Q
  else
    error SIGN_EXECUTE_ERR none
    nextToken input

def checkVar : Parser Unit := do
  let state ← get
  if state.knowsVariable (state.current input).text then
    pure ()
  else
    error SIGN_UNDEFINED_ERR none

/-- `O` and `P` behind their first words: `(F)`. -/
def inBrackets (word : String) : Parser Unit := do
  expect input word fun entry => entry.text ≠ "("
  expect input "(" fun entry => entry.kind ≠ 10
  checkVar input
  call .F
  expect input ")" fun entry => entry.text ≠ ";" ∧ entry.text ≠ "end"

def O : Parser Unit :=
  inBrackets input call "read"

def P : Parser Unit :=
  inBrackets input call "write"

/-- The test before the left side of an assignment, which may be a function. -/
def checkAssigned : Parser Unit := do
  let state ← get
  if state.knowsVariable (state.current input).text ∨
      state.isProExisted (state.current input).text then
    pure ()
  else
    error SIGN_UNDEFINED_ERR none

def Q : Parser Unit := do
  checkAssigned input
  call .F
  expect input ":=" fun entry => !isOperand entry
  call .R

def R : Parser Unit := do
  call .S
  call .R_

def R_ : Parser Unit := do
  let entry ← current input
  if entry.text = "-" then
    nextToken input
    call .S
    call .R_
  else if isOperand entry then
    call .S
    call .R_
  else
    pure ()

def S : Parser Unit := do
  call .T
  call .S_

def S_ : Parser Unit := do
  let entry ← current input
  if entry.text = "*" then
    nextToken input
    call .T
    call .S_
  else if isOperand entry then
    call .T
    call .S_
  else
    pure ()

def digitAt (entry : Entry) (pChar : Nat) : Bool :=
  entry.text.toList[pChar]?.any Char.isDigit

def T : Parser Unit := do
  let state ← get
  if digitAt (state.current input) state.pChar then
    call .U
  else if (entryAt input (state.getNextToken input)).text = "(" then
    call .Z
  else
    checkVar input
    call .F

/-- `U->V` is the token of a constant. -/
def U : Parser Unit := do
  if (← current input).kind = 11 then
    nextToken input
  else
    pure ()

def W : Parser Unit := do
  expect input "if" fun entry => !isOperand entry
  call .X
  expect input "then" fun entry => !startsStatement entry
  call .N
  expect input "else" fun entry => !startsStatement entry
  call .N

def X : Parser Unit := do
  call .R
  call .Y
  call .R

def Y : Parser Unit := do
  let entry ← current input
  if isRelation entry then
    nextToken input
  else
    error NO_SIGN_ERR (some "关系运算符")
    if !isOperand entry then nextToken input else pure ()

def checkPro : Parser Unit := do
  let state ← get
  if state.isProExisted (state.current input).text then
    pure ()
  else
    error SIGN_UNDEFINED_ERR none

def Z : Parser Unit := do
  checkPro input
  call .G
  expect input "(" fun entry => !isOperand entry
  call .R
  expect input ")" fun entry => entry.text ≠ "-" ∧ entry.text ≠ "*" ∧ entry.text ≠ ";" ∧
    entry.text ≠ "end"

def body : Procedure → Parser Unit
  | .A => A call
  | .B => B input call
  | .C => C call
  | .C_ => C_ input call
  | .D => D input call
  | .E => E input call
  | .F => F call
  | .G => G input
  | .J => J input call
  | .K => K call
  | .L => L input call
  | .M => M call
  | .M_ => M_ input call
  | .N => N input call
  | .O => O input call
  | .P => P input call
  | .Q => Q input call
  | .R => R call
  | .R_ => R_ input call
  | .S => S call
  | .S_ => S_ input call
  | .T => T input call
  | .U => U input
  | .W => W input call
  | .X => X call
  | .Y => Y input
  | .Z => Z input call

end Procedures

/-- The call of a procedure, with so many calls inside one another at most. -/
def invoke (input : List Entry) : Nat → Procedure → Parser Unit
  | 0, _ => throw .tooDeep
  | depth + 1, procedure => do
      change fun state => state.logged (.entered procedure state.pToken)
      body input (invoke input depth) procedure

end OsCompiler.LabParser
