/-
The scanner `lab_lex.c`: one call of `LexAnalyze` and the loop of `main`.

A C character is the character of its code. `char` is signed, so that `EOF`, which is
-1, is the character of code 255. The buffers are texts with a size each: `none` stands
for a write past the end of one, or for a read that the buffers do not allow.
-/

import Mathlib.Data.List.GetD
import OsCompiler.Lib.TextLines

namespace OsCompiler.ParserLex

open TextLines

def TOKENSIZE : Nat := 256
def MAXSIZE : Nat := 2048
def MAXLINE : Nat := 128

def nul : Char := '\x00'
def eof : Char := '\xff'

/-- A source text: the string that `read` leaves in the zeroed array `code`. -/
structure SourceText where
  chars : List Char
  isString : nul ∉ chars
  inBuffer : chars.length < MAXSIZE

inductive Output
  | printed (str : List Char) (num : Nat)
  | reported (line : Nat) (info : List Char)
  deriving DecidableEq

structure Lexer where
  code : SourceText
  project : Nat
  word : Char
  token : List Char
  dydFile : List Char
  errFile : List Char
  line : Nat
  outputs : List Output

/-- Which strings the buffers hold, and which positions of a text may be read. -/
class Buffers where
  holds (size length : Nat) : Bool
  reads (length position : Nat) : Bool
  shorter {size short long : Nat} : short ≤ long → holds size long = true → holds size short = true
  inside {length position : Nat} : position ≤ length → reads length position = true

/-- The buffers of the program hold a string with its null character, and reading goes on in the
zeroed array behind a text. -/
instance declared : Buffers where
  holds size length := length < size
  reads _ _ := true
  shorter below room := decide_eq_true (Nat.lt_of_le_of_lt below (of_decide_eq_true room))
  inside _ := rfl

/-! ### Reading the text -/

def Lexer.advance (s : Lexer) : Lexer :=
  { s with word := s.code.chars.getD s.project nul, project := s.project + 1 }

def retract (s : Lexer) : Lexer := { s with project := s.project - 1, word := nul }

/-- What the pointer can still read, the character just read included. -/
def Lexer.unread (s : Lexer) : Nat :=
  s.code.chars.length - s.project + if s.word = nul then 0 else 1

theorem advance_unread {s : Lexer} (inside : s.word ≠ nul) : s.advance.unread < s.unread := by
  rw [Lexer.unread, Lexer.unread, if_neg inside, Lexer.advance]
  dsimp only
  split
  · omega
  · rename_i read
    have before : s.project < s.code.chars.length := by
      by_contra beyond
      exact read (List.getD_eq_default _ _ (Nat.le_of_not_lt beyond))
    omega

section Reading

variable [Buffers]

def getchar1 (s : Lexer) : Option Lexer :=
  if Buffers.reads s.code.chars.length s.project then some s.advance else none

theorem getchar1_eq {s next : Lexer} (read : getchar1 s = some next) : next = s.advance :=
  (Option.some.inj (Option.ite_none_right_eq_some.mp read).2).symm

def getnbc (s : Lexer) : Option Lexer :=
  if s.word = ' ' then
    match _ : getchar1 s with
    | none => none
    | some next => getnbc next
  else some s
termination_by s.unread
decreasing_by
  rename_i blank read
  rw [getchar1_eq read]
  exact advance_unread (by rw [blank]; decide)

end Reading

def letter (word : Char) : Bool := ('a' ≤ word && word ≤ 'z') || ('A' ≤ word && word ≤ 'Z')
def digit (word : Char) : Bool := '0' ≤ word && word ≤ '9'

theorem digit_nul : digit nul = false := rfl

theorem digit_or_letter_nul : (digit nul || letter nul) = false := rfl

/-! ### Writing the buffers -/

section Writing

variable [Buffers]

def strcat (size : Nat) (dest src : List Char) : Option (List Char) :=
  if Buffers.holds size (dest.length + src.length) then some (dest ++ src) else none

def Lexer.append (s : Lexer) : Lexer := { s with token := s.token ++ [s.word] }

def concat (s : Lexer) : Option Lexer := do
  let token ← strcat TOKENSIZE s.token [s.word]
  return { s with token := token }

theorem concat_eq (s : Lexer) :
    concat s = if Buffers.holds TOKENSIZE (s.token.length + 1) then some s.append else none := by
  rw [concat, strcat, List.length_singleton]
  split
  · rfl
  · rfl

theorem collected_eq {s next : Lexer} (collected : (concat s).bind getchar1 = some next) :
    next = s.append.advance := by
  rcases Option.bind_eq_some_iff.mp collected with ⟨longer, appended, read⟩
  rw [concat_eq, Option.ite_none_right_eq_some, Option.some.injEq] at appended
  rw [getchar1_eq read, appended.2]

/-- `while (test) { concat(); getchar1(); }` for a test that the end of the string fails. -/
def collect (test : Char → Bool) (stops : test nul = false) (s : Lexer) : Option Lexer :=
  if test s.word = true then
    match _ : (concat s).bind getchar1 with
    | none => none
    | some next => collect test stops next
  else some s
termination_by s.unread
decreasing_by
  rename_i inside collected
  rw [collected_eq collected]
  apply advance_unread (s := s.append)
  intro ends
  rw [show s.word = nul from ends, stops] at inside
  cases inside

/-- `"%16s %2d\n"` -/
def printLine (str : List Char) (num : Nat) : List Char :=
  rjust 16 str ++ ' ' :: rjust 2 (decimal num) ++ ['\n']

def print (str : List Char) (num : Nat) (s : Lexer) : Option Lexer := do
  let tem ← strcat MAXLINE [] (printLine str num)
  let dydFile ← strcat MAXSIZE s.dydFile tem
  return { s with dydFile := dydFile, outputs := s.outputs ++ [.printed str num] }

/-- `"**LINE:%d %s\n"` -/
def errorLine (line : Nat) (info : List Char) : List Char :=
  "**LINE:".toList ++ decimal line ++ ' ' :: info ++ ['\n']

def error (info : List Char) (s : Lexer) : Option Lexer := do
  let tem ← strcat MAXLINE [] (errorLine s.line info)
  let errFile ← strcat MAXSIZE s.errFile tem
  return { s with errFile := errFile, outputs := s.outputs ++ [.reported s.line info] }

end Writing

/-! ### One call -/

def num2word : List (List Char) :=
  ["0", "$BEGIN", "$END", "$INT", "$IF", "$THEN", "$ELSE", "$FUNCTION", "$READ", "$WRITE",
    "$SYMBOL", "$CONST", "= $EQ", "!= $NE", "<= $LE", "< $L", ">= $GE", "> $G", "_ $", "* $",
    ":= $", "(", ")", ";"].map String.toList

def reserved (token : List Char) : Nat :=
  if token = "begin".toList then 1
  else if token = "end".toList then 2
  else if token = "integer".toList then 3
  else if token = "if".toList then 4
  else if token = "then".toList then 5
  else if token = "else".toList then 6
  else if token = "function".toList then 7
  else if token = "read".toList then 8
  else if token = "write".toList then 9
  else 0

section Analyze

variable [Buffers]

/-- The case of `':'`, which the case of `'*'` runs into. -/
def colonCase (s : Lexer) : Option Lexer := do
  let s ← getchar1 s
  if s.word = '=' then print "$ASSIGN".toList 20 s else return retract s

def lessCase (s : Lexer) : Option Lexer := do
  let s ← getchar1 s
  if s.word = '>' then print "$NE".toList 13 s
  else if s.word = '=' then print "$LE".toList 14 s
  else print "$L".toList 15 (retract s)

def greaterCase (s : Lexer) : Option Lexer := do
  let s ← getchar1 s
  if s.word = '=' then print "$GE".toList 16 s else print "$G".toList 17 (retract s)

def switchWord (s : Lexer) : Option (Bool × Lexer) :=
  if s.word = '\n' then do
    let s ← print "$EOLN".toList 24 s
    return (true, { s with line := s.line + 1 })
  else if s.word = eof then return (false, ← print "$EOF".toList 25 s)
  else if s.word = nul then return (false, s)
  else if s.word = '=' then return (true, ← print "$E".toList 12 s)
  else if s.word = '<' then return (true, ← lessCase s)
  else if s.word = '>' then return (true, ← greaterCase s)
  else if s.word = '-' then return (true, ← print "$MINUS".toList 18 s)
  else if s.word = '*' then do
    let s ← print "$MUTIPLY".toList 19 s
    return (true, ← colonCase s)
  else if s.word = ':' then return (true, ← colonCase s)
  else if s.word = '(' then return (true, ← print "$LBRACKET".toList 21 s)
  else if s.word = ')' then return (true, ← print "$RBRACKET".toList 22 s)
  else if s.word = ';' then return (true, ← print "$SEMI".toList 23 s)
  else return (true, ← error "ILLEGAL_CHAR_ERR".toList s)

def lexAnalyze (s : Lexer) : Option (Bool × Lexer) := do
  let s ← getnbc (← getchar1 { s with token := [] })
  if letter s.word then
    let s := retract (← collect (fun word => digit word || letter word) digit_or_letter_nul s)
    let num := reserved s.token
    if num ≠ 0 then return (true, ← print (num2word.getD num []) num s)
    else return (true, ← print s.token 10 s)
  else if digit s.word then
    let s := retract (← collect digit digit_nul s)
    return (true, ← print "$CONSTANT".toList 11 s)
  else switchWord s

end Analyze

end OsCompiler.ParserLex
