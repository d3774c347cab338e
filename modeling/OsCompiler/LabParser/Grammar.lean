/-
The correct programs of `lab_parser.c`, by the productions of its comment.

A derivation is about the entries other than `EOLN`. It carries what has been declared so
far: the variables of the procedure that is being declared, and the functions.
-/

import OsCompiler.LabParser.State

namespace OsCompiler.LabParser

def notLine (entry : Entry) : Bool := entry.text ≠ "EOLN"

def reservedWords : List String :=
  ["begin", "end", "integer", "if", "then", "else", "function", "read", "write"]

/-- `G->HG'`, `G'->HG'|IG'|ε` -/
structure IsIdentifier (entry : Entry) : Prop where
  kind : entry.kind = 10
  letters : ∃ first others, entry.text.toList = first :: others ∧ first.isAlpha = true ∧
    ∀ letter ∈ others, letter.isAlphanum = true
  notReserved : entry.text ∉ reservedWords

/-- `V->IV'`, `V'->IV'|ε` -/
structure IsConstant (entry : Entry) : Prop where
  kind : entry.kind = 11
  digits : ∃ first others, entry.text.toList = first :: others ∧ first.isDigit = true ∧
    ∀ digit ∈ others, digit.isDigit = true

structure IsWord (word : String) (entry : Entry) : Prop where
  text : entry.text = word
  noIdentifier : entry.kind ≠ 10
  noConstant : entry.kind ≠ 11

/-- `Y-><|<=|>|>=|=|<>` -/
structure IsRelation (entry : Entry) : Prop where
  text : entry.text ∈ ["<", "<=", ">", ">=", "=", "<>"]
  noIdentifier : entry.kind ≠ 10
  noConstant : entry.kind ≠ 11

structure Scope where
  variableNames : List String
  functionNames : List String

def Scope.outermost : Scope := ⟨[], []⟩

namespace Scope

variable (scope : Scope) (name : String)

def Fresh : Prop := name ∉ scope.variableNames ∧ name ∉ scope.functionNames

def withVariable : Scope := ⟨scope.variableNames ++ [name], scope.functionNames⟩

def inFunction : Scope := ⟨[], scope.functionNames ++ [name]⟩

def behind (body : Scope) : Scope := ⟨scope.variableNames, body.functionNames⟩

end Scope

/-- The productions from `M` on, where these variables and functions are declared. -/
inductive Executes (scope : Scope) : Procedure → List Entry → Prop
  | M {statement others : List Entry} (first : Executes scope .N statement)
      (rest : Executes scope .M_ others) : Executes scope .M (statement ++ others)
  | M_next {semicolon : Entry} {statement others : List Entry} (sign : IsWord ";" semicolon)
      (first : Executes scope .N statement) (rest : Executes scope .M_ others) :
      Executes scope .M_ (semicolon :: (statement ++ others))
  | M_empty : Executes scope .M_ []
  | N_O {word : List Entry} (statement : Executes scope .O word) : Executes scope .N word
  | N_P {word : List Entry} (statement : Executes scope .P word) : Executes scope .N word
  | N_Q {word : List Entry} (statement : Executes scope .Q word) : Executes scope .N word
  | N_W {word : List Entry} (statement : Executes scope .W word) : Executes scope .N word
  | O {read left name right : Entry} (first : IsWord "read" read) (opening : IsWord "(" left)
      (identifier : IsIdentifier name) (declared : name.text ∈ scope.variableNames)
      (closing : IsWord ")" right) : Executes scope .O [read, left, name, right]
  | P {write left name right : Entry} (first : IsWord "write" write) (opening : IsWord "(" left)
      (identifier : IsIdentifier name) (declared : name.text ∈ scope.variableNames)
      (closing : IsWord ")" right) : Executes scope .P [write, left, name, right]
  | Q {name assign : Entry} {value : List Entry} (identifier : IsIdentifier name)
      (declared : name.text ∈ scope.variableNames ∨ name.text ∈ scope.functionNames)
      (sign : IsWord ":=" assign) (expression : Executes scope .R value) :
      Executes scope .Q (name :: assign :: value)
  | R {term others : List Entry} (first : Executes scope .S term)
      (rest : Executes scope .R_ others) : Executes scope .R (term ++ others)
  | R_minus {minus : Entry} {term others : List Entry} (sign : IsWord "-" minus)
      (first : Executes scope .S term) (rest : Executes scope .R_ others) :
      Executes scope .R_ (minus :: (term ++ others))
  | R_empty : Executes scope .R_ []
  | S {factor others : List Entry} (first : Executes scope .T factor)
      (rest : Executes scope .S_ others) : Executes scope .S (factor ++ others)
  | S_times {times : Entry} {factor others : List Entry} (sign : IsWord "*" times)
      (first : Executes scope .T factor) (rest : Executes scope .S_ others) :
      Executes scope .S_ (times :: (factor ++ others))
  | S_empty : Executes scope .S_ []
  | T_F {name : Entry} (identifier : IsIdentifier name)
      (declared : name.text ∈ scope.variableNames) : Executes scope .T [name]
  | T_U {constant : Entry} (number : IsConstant constant) : Executes scope .T [constant]
  | T_Z {word : List Entry} (application : Executes scope .Z word) : Executes scope .T word
  | W {if_ then_ else_ : Entry} {condition yes no : List Entry} (first : IsWord "if" if_)
      (test : Executes scope .X condition) (second : IsWord "then" then_)
      (onTrue : Executes scope .N yes) (third : IsWord "else" else_)
      (onFalse : Executes scope .N no) :
      Executes scope .W (if_ :: (condition ++ then_ :: (yes ++ else_ :: no)))
  | X {relation : Entry} {left right : List Entry} (first : Executes scope .R left)
      (sign : IsRelation relation) (second : Executes scope .R right) :
      Executes scope .X (left ++ relation :: right)
  | Z {name left right : Entry} {argument : List Entry} (identifier : IsIdentifier name)
      (declared : name.text ∈ scope.functionNames) (opening : IsWord "(" left)
      (expression : Executes scope .R argument) (closing : IsWord ")" right) :
      Executes scope .Z (name :: left :: (argument ++ [right]))

/-- The productions up to `L`, from one scope to the next. -/
inductive Declares : Scope → Procedure → List Entry → Scope → Prop
  | A {before after : Scope} {word : List Entry} (program : Declares before .B word after) :
      Declares before .A word after
  | B {before after : Scope} {begin_ semicolon end_ : Entry} {declarations statements : List Entry}
      (first : IsWord "begin" begin_) (declares : Declares before .C declarations after)
      (sign : IsWord ";" semicolon) (executes : Executes after .M statements)
      (last : IsWord "end" end_) :
      Declares before .B (begin_ :: (declarations ++ semicolon :: (statements ++ [end_]))) after
  | C {before middle after : Scope} {declaration others : List Entry}
      (first : Declares before .D declaration middle) (rest : Declares middle .C_ others after) :
      Declares before .C (declaration ++ others) after
  | C_next {before middle after : Scope} {semicolon : Entry} {declaration others : List Entry}
      (sign : IsWord ";" semicolon) (first : Declares before .D declaration middle)
      (rest : Declares middle .C_ others after) :
      Declares before .C_ (semicolon :: (declaration ++ others)) after
  | C_empty {scope : Scope} : Declares scope .C_ [] scope
  | D_E {before after : Scope} {word : List Entry} (variable_ : Declares before .E word after) :
      Declares before .D word after
  | D_J {before after : Scope} {word : List Entry} (function : Declares before .J word after) :
      Declares before .D word after
  | E {before : Scope} {integer name : Entry} (type : IsWord "integer" integer)
      (identifier : IsIdentifier name) (fresh : before.Fresh name.text) :
      Declares before .E [integer, name] (before.withVariable name.text)
  | J {before inside : Scope} {integer function name left parameter right semicolon : Entry}
      {body : List Entry} (type : IsWord "integer" integer) (word : IsWord "function" function)
      (identifier : IsIdentifier name) (fresh : before.Fresh name.text)
      (opening : IsWord "(" left) (formal : IsIdentifier parameter) (closing : IsWord ")" right)
      (sign : IsWord ";" semicolon)
      (declares : Declares (before.inFunction name.text) .L body inside)
      (defined : parameter.text ∈ inside.variableNames) :
      Declares before .J (integer :: function :: name :: left :: parameter :: right :: semicolon ::
        body) (before.behind inside)
  | L {before after : Scope} {begin_ semicolon end_ : Entry} {declarations statements : List Entry}
      (first : IsWord "begin" begin_) (declares : Declares before .C declarations after)
      (sign : IsWord ";" semicolon) (executes : Executes after .M statements)
      (last : IsWord "end" end_) :
      Declares before .L (begin_ :: (declarations ++ semicolon :: (statements ++ [end_]))) after

/-- A correct program and the entries behind its last `end`. Of the places of `EOLN` only those
are left out that no division into lines between the statements has. -/
structure CorrectProgram (program rest : List Entry) : Prop where
  derives : ∃ scope, Declares .outermost .A (program.filter notLine) scope
  first : (entryAt program 0).text ≠ "EOLN"
  integer : ∀ index, (entryAt program index).text = "integer" →
    (entryAt program (index + 1)).text ≠ "EOLN"
  behind : (entryAt rest 0).text ≠ "EOLN"

def readProgram : List Entry :=
  [⟨"begin", 1⟩, ⟨"integer", 3⟩, ⟨"x", 10⟩, ⟨";", 23⟩, ⟨"EOLN", 24⟩, ⟨"read", 8⟩, ⟨"(", 21⟩,
    ⟨"x", 10⟩, ⟨")", 22⟩, ⟨"end", 2⟩]

end OsCompiler.LabParser
