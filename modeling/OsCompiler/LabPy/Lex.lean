/-
The character automaton of `lex.py`: `lex_main` with the lexeme it collects, the
lines it prints to the token file and the messages it writes.

Whatever the text, the pending lexeme has the form its state stands for. What is
known of printed lexemes follows from that.
-/

import OsCompiler.Lib.TextLines

namespace OsCompiler.LabPy

open OsCompiler.TextLines

/-- The values of `state`; the source writes 0, 1, 3, 5, 6, 7, 8, 9, 10, 12, 14, 17, 20. -/
inductive LexState
  | start
  | word
  | number
  | equal
  | minus
  | times
  | opening
  | closing
  | less
  | unequal
  | greater
  | colon
  | semicolon
  deriving DecidableEq

def itemList : List (List Char × Nat) :=
  [(['b', 'e', 'g', 'i', 'n'], 1), (['e', 'n', 'd'], 2),
    (['i', 'n', 't', 'e', 'g', 'e', 'r'], 3), (['i', 'f'], 4), (['t', 'h', 'e', 'n'], 5),
    (['e', 'l', 's', 'e'], 6), (['f', 'u', 'n', 'c', 't', 'i', 'o', 'n'], 7),
    (['r', 'e', 'a', 'd'], 8), (['w', 'r', 'i', 't', 'e'], 9), (['='], 12), (['<', '>'], 13),
    (['<', '='], 14), (['<'], 15), (['>', '='], 16), (['>'], 17), (['-'], 18), (['*'], 19),
    ([':', '='], 20), (['('], 21), ([')'], 22), ([';'], 23)]

def itemDict (word : List Char) : Option Nat := itemList.lookup word

def token : Nat := 10
def constants : Nat := 11

inductive LexError
  | illegalCharacter
  | missingEqual
  | wrongKeyword

def LexError.text : LexError → String
  | .illegalCharacter => "  出现了无法识别的字符\n"
  | .missingEqual => "  请注意，:后必须跟=\n"
  | .wrongKeyword => "  错误的关键字\n"

/-- The globals of `lex.py`; `printed` lists the arguments of the calls of `Print`. -/
structure Lexer where
  temp : List Char
  state : LexState
  printed : List (List Char × Nat)
  target : List Char
  line : Nat
  error : List Char

def initLexer : Lexer := ⟨[], .start, [], [], 0, []⟩

def Lexer.print (lexer : Lexer) (printWord : List Char) (num : Nat) : Lexer :=
  { lexer with target := lexer.target ++ (rjust 16 printWord ++ ' ' :: decimal num ++ ['\n']) }

/-- A call of `Print`, with its arguments listed. -/
def Lexer.callPrint (lexer : Lexer) (printWord : List Char) (num : Nat) : Lexer :=
  Lexer.print { lexer with printed := lexer.printed ++ [(printWord, num)] } printWord num

def Lexer.errorWrite (lexer : Lexer) (error : LexError) : Lexer :=
  { lexer with
    error := lexer.error ++ ("   LINE:".toList ++ decimal lexer.line ++ error.text.toList) }

def Lexer.endWord (lexer : Lexer) : Lexer :=
  if lexer.temp ≠ [] then
    let printed :=
      match lexer.state, itemDict lexer.temp with
      | .word, some code => lexer.callPrint lexer.temp code
      | .word, none => lexer.callPrint lexer.temp token
      | .number, _ => lexer.callPrint lexer.temp constants
      | _, some code => lexer.callPrint lexer.temp code
      | _, none => lexer.errorWrite .missingEqual
    { printed with temp := [] }
  else lexer

def Lexer.collect (lexer : Lexer) (word : Char) (state : LexState) : Lexer :=
  { lexer with temp := lexer.temp ++ [word], state := state }

/-- The test `"z" >= word >= "A"`, which six signs between the two alphabets pass as well. -/
def isWordChar (c : Char) : Bool := 'A' ≤ c && c ≤ 'z'

def Lexer.next (lexer : Lexer) (word : Char) : Lexer :=
  if word = ' ' then
    if lexer.state ≠ .start then { lexer.endWord with state := .start } else lexer
  else if isWordChar word then
    if lexer.state ≠ .start ∧ lexer.state ≠ .word then lexer.endWord.collect word .word
    else lexer.collect word .word
  else if '0' ≤ word ∧ word ≤ '9' then
    if lexer.state ≠ .number then lexer.endWord.collect word .number
    else lexer.collect word .number
  else if word = '=' then
    if lexer.state ∉ [.start, .less, .greater, .colon] then lexer.endWord.collect word .equal
    else { (lexer.collect word lexer.state).endWord with state := .start }
  else if word = '-' then lexer.endWord.collect word .minus
  else if word = '*' then lexer.endWord.collect word .times
  else if word = '(' then lexer.endWord.collect word .opening
  else if word = ')' then lexer.endWord.collect word .closing
  else if word = '<' then lexer.endWord.collect word .less
  else if word = '>' then
    if lexer.state ≠ .less then { lexer.endWord with state := .greater }
    else lexer.collect word .unequal
  else if word = ':' then lexer.endWord.collect word .colon
  else if word = ';' then lexer.endWord.collect word .semicolon
  else if word = '\n' then
    let ended := { lexer.endWord with state := .start }
    { ended.callPrint ['E', 'O', 'L', 'N'] 24 with line := lexer.line + 1 }
  else lexer.errorWrite .illegalCharacter

def lexMain (wordList : List Char) : Lexer :=
  (wordList.foldl Lexer.next initLexer).endWord.callPrint ['E', 'O', 'F'] 25

/-! ### What one character does -/

def LexState.sign : LexState → Option (List Char)
  | .start | .greater => some []
  | .word | .number => none
  | .equal => some ['=']
  | .minus => some ['-']
  | .times => some ['*']
  | .opening => some ['(']
  | .closing => some [')']
  | .less => some ['<']
  | .unequal => some ['<', '>']
  | .colon => some [':']
  | .semicolon => some [';']

/-- The form of the pending lexeme in each state. -/
def Shape (state : LexState) (temp : List Char) : Prop :=
  match state with
  | .word => temp ≠ [] ∧ ∀ c ∈ temp, isWordChar c = true
  | .number => temp ≠ [] ∧ ∀ c ∈ temp, '0' ≤ c ∧ c ≤ '9'
  | state => state.sign = some temp

def flushed (state : LexState) (temp : List Char) : List (List Char × Nat) :=
  if temp = [] then []
  else
    match state, itemDict temp with
    | .word, found => [(temp, found.getD token)]
    | .number, _ => [(temp, constants)]
    | _, some code => [(temp, code)]
    | _, none => []

def begins (c : Char) : Option LexState :=
  if isWordChar c then some .word
  else if '0' ≤ c ∧ c ≤ '9' then some .number
  else if c = '=' then some .equal
  else if c = '-' then some .minus
  else if c = '*' then some .times
  else if c = '(' then some .opening
  else if c = ')' then some .closing
  else if c = '<' then some .less
  else if c = ':' then some .colon
  else if c = ';' then some .semicolon
  else none

def grows (state : LexState) (c : Char) : Option LexState :=
  match state with
  | .word => if isWordChar c then some .word else none
  | .number => if '0' ≤ c ∧ c ≤ '9' then some .number else none
  | .less => if c = '>' then some .unequal else none
  | _ => none

def closes (state : LexState) (c : Char) : Prop :=
  c = '=' ∧ state ∈ [LexState.start, .less, .greater, .colon]

/-- All that one character can do to the state and the pending lexeme, with what it prints. -/
inductive Moves (state : LexState) (temp : List Char) (c : Char) :
    LexState → List Char → List (List Char × Nat) → Prop
  | ignored (illegal : begins c = none) (noBreak : c ≠ ' ' ∧ c ≠ '\n' ∧ c ≠ '>') :
      Moves state temp c state temp []
  | grown {after : LexState} (goesOn : grows state c = some after) :
      Moves state temp c after (temp ++ [c]) []
  | closed (completes : closes state c) :
      Moves state temp c .start [] (flushed state (temp ++ [c]))
  | begun {after : LexState} (starts : begins c = some after) (breaks : grows state c = none)
      (open_ : ¬ closes state c) : Moves state temp c after [c] (flushed state temp)
  | blank (isBlank : c = ' ') : Moves state temp c .start [] (flushed state temp)
  | dropped (isGreater : c = '>') (notLess : state ≠ .less) :
      Moves state temp c .greater [] (flushed state temp)
  | newline (isNewline : c = '\n') :
      Moves state temp c .start [] (flushed state temp ++ [(['E', 'O', 'L', 'N'], 24)])

def targetText (printed : List (List Char × Nat)) : List Char :=
  printed.flatMap fun row => record 16 row.1 row.2 ++ ['\n']

theorem targetText_append (first second : List (List Char × Nat)) :
    targetText (first ++ second) = targetText first ++ targetText second :=
  List.flatMap_append

/-- The lexer has printed these rows since. -/
structure Printed (before after : Lexer) (rows : List (List Char × Nat)) : Prop where
  printed : after.printed = before.printed ++ rows
  target : after.target = before.target ++ targetText rows

theorem Printed.none {before after : Lexer} (printed : after.printed = before.printed)
    (target : after.target = before.target) : Printed before after [] where
  printed := by rw [printed, List.append_nil]
  target := by rw [target, targetText, List.flatMap_nil, List.append_nil]

theorem Printed.trans {before middle after : Lexer} {first second : List (List Char × Nat)}
    (earlier : Printed before middle first) (later : Printed middle after second) :
    Printed before after (first ++ second) where
  printed := by rw [later.printed, earlier.printed, List.append_assoc]
  target := by
    rw [later.target, earlier.target, targetText_append, List.append_assoc]

theorem printed_callPrint (lexer : Lexer) (printWord : List Char) (num : Nat) :
    Printed lexer (lexer.callPrint printWord num) [(printWord, num)] where
  printed := rfl
  target := by
    rw [targetText, List.flatMap_singleton]
    rfl

theorem endWord_temp (lexer : Lexer) : lexer.endWord.temp = [] := by
  unfold Lexer.endWord
  by_cases empty : lexer.temp = []
  · rw [if_neg (not_not.mpr empty), empty]
  · rw [if_pos empty]

theorem printed_endWord (lexer : Lexer) :
    Printed lexer lexer.endWord (flushed lexer.state lexer.temp) := by
  unfold Lexer.endWord flushed
  by_cases empty : lexer.temp = []
  · rw [if_neg (not_not.mpr empty), if_pos empty]
    exact Printed.none rfl rfl
  · rw [if_pos empty, if_neg empty]
    dsimp only
    cases lexer.state <;> cases itemDict lexer.temp <;>
      first
        | exact Printed.none rfl rfl
        | exact ⟨rfl, (printed_callPrint lexer lexer.temp _).target⟩

theorem grows_eq_none {state : LexState} {c : Char}
    (word : state = .word → isWordChar c = false)
    (number : state = .number → ¬ ('0' ≤ c ∧ c ≤ '9')) (less : state = .less → c ≠ '>') :
    grows state c = none := by
  unfold grows
  split
  · rw [word rfl, if_neg (by decide)]
  · rw [if_neg (number rfl)]
  · rw [if_neg (less rfl)]
  · rfl

/-- The pending lexeme is printed and another one begins. -/
theorem moves_begun {lexer : Lexer} {c : Char} {after : LexState} (starts : begins c = some after)
    (breaks : grows lexer.state c = none) (open_ : ¬ closes lexer.state c) :
    ∃ rows, Moves lexer.state lexer.temp c (lexer.endWord.collect c after).state
        (lexer.endWord.collect c after).temp rows ∧
      Printed lexer (lexer.endWord.collect c after) rows := by
  have temp : (lexer.endWord.collect c after).temp = [c] := by
    rw [Lexer.collect, endWord_temp, List.nil_append]
  refine ⟨flushed lexer.state lexer.temp, ?_, ?_⟩
  · rw [temp]
    exact .begun starts breaks open_
  · exact ⟨(printed_endWord lexer).printed, (printed_endWord lexer).target⟩

/-- A sign that neither goes on with a word or a number nor completes another sign. -/
theorem moves_sign {lexer : Lexer} {c : Char} {after : LexState} (starts : begins c = some after)
    (noWord : isWordChar c = false) (noDigit : ¬ ('0' ≤ c ∧ c ≤ '9')) (noGreater : c ≠ '>')
    (noEqual : c ≠ '=') :
    ∃ rows, Moves lexer.state lexer.temp c (lexer.endWord.collect c after).state
        (lexer.endWord.collect c after).temp rows ∧
      Printed lexer (lexer.endWord.collect c after) rows := by
  apply moves_begun starts
  · exact grows_eq_none (fun _ => noWord) (fun _ => noDigit) (fun _ => noGreater)
  · intro completes
    exact noEqual completes.1

theorem Shape.temp_eq_nil {temp : List Char} (shape : Shape .start temp) : temp = [] :=
  (Option.some.inj shape).symm

private theorem endWord_of_empty {lexer : Lexer} (empty : lexer.temp = []) :
    lexer.endWord = lexer := by
  rw [Lexer.endWord, if_neg (not_not.mpr empty)]

/-- Printing the pending lexeme and returning to the first state. -/
theorem moves_reset {lexer : Lexer} {c : Char} {after : LexState}
    (moves : Moves lexer.state lexer.temp c after [] (flushed lexer.state lexer.temp)) :
    ∃ rows, Moves lexer.state lexer.temp c after ({ lexer.endWord with state := after }).temp rows ∧
      Printed lexer { lexer.endWord with state := after } rows := by
  refine ⟨flushed lexer.state lexer.temp, ?_, (printed_endWord lexer).printed,
    (printed_endWord lexer).target⟩
  dsimp only
  rw [endWord_temp]
  exact moves

theorem moves_grown {lexer : Lexer} {c : Char} {after : LexState}
    (goesOn : grows lexer.state c = some after) :
    ∃ rows, Moves lexer.state lexer.temp c (lexer.collect c after).state
      (lexer.collect c after).temp rows ∧ Printed lexer (lexer.collect c after) rows :=
  ⟨[], .grown goesOn, Printed.none rfl rfl⟩

private theorem next_moves_blank {lexer : Lexer} (shape : Shape lexer.state lexer.temp) :
    ∃ rows, Moves lexer.state lexer.temp ' ' (lexer.next ' ').state (lexer.next ' ').temp rows ∧
      Printed lexer (lexer.next ' ') rows := by
  have same : lexer.next ' ' = { lexer.endWord with state := .start } := by
    rw [Lexer.next, if_pos rfl]
    by_cases atStart : lexer.state = .start
    · rw [if_neg (not_not.mpr atStart)]
      have empty : lexer.temp = [] := by
        rw [atStart] at shape
        exact shape.temp_eq_nil
      rw [endWord_of_empty empty, ← atStart]
    · rw [if_pos atStart]
  rw [same]
  exact moves_reset (.blank rfl)

private theorem next_moves_wordChar {lexer : Lexer} (shape : Shape lexer.state lexer.temp)
    {c : Char}
    (noBlank : c ≠ ' ') (wordChar : isWordChar c = true) :
    ∃ rows, Moves lexer.state lexer.temp c (lexer.next c).state (lexer.next c).temp rows ∧
      Printed lexer (lexer.next c) rows := by
  have starts : begins c = some .word := by rw [begins, if_pos wordChar]
  by_cases inWord : lexer.state = .word
  · have same : lexer.next c = lexer.collect c .word := by
      rw [Lexer.next, if_neg noBlank, if_pos wordChar, if_neg (fun both => both.2 inWord)]
    rw [same]
    apply moves_grown
    rw [inWord, grows, if_pos wordChar]
  · have same : lexer.next c = lexer.endWord.collect c .word := by
      rw [Lexer.next, if_neg noBlank, if_pos wordChar]
      by_cases atStart : lexer.state = .start
      · rw [if_neg (fun both => both.1 atStart)]
        rw [atStart] at shape
        rw [endWord_of_empty shape.temp_eq_nil]
      · rw [if_pos ⟨atStart, inWord⟩]
    have noDigit : ¬ ('0' ≤ c ∧ c ≤ '9') := by
      intro digit
      have lower : 'A' ≤ c := by
        simp only [isWordChar, Bool.and_eq_true, decide_eq_true_eq] at wordChar
        exact wordChar.1
      exact absurd (Char.le_trans lower digit.2) (by decide)
    have noGreater : c ≠ '>' := by
      intro greater
      rw [greater] at wordChar
      cases wordChar
    rw [same]
    apply moves_begun starts
    · exact grows_eq_none (fun atWord => absurd atWord inWord) (fun _ => noDigit)
        (fun _ => noGreater)
    · intro completes
      rw [completes.1] at wordChar
      cases wordChar

private theorem next_moves_digit {lexer : Lexer} {c : Char} (noBlank : c ≠ ' ')
    (noWord : isWordChar c = false) (digit : '0' ≤ c ∧ c ≤ '9') :
    ∃ rows, Moves lexer.state lexer.temp c (lexer.next c).state (lexer.next c).temp rows ∧
      Printed lexer (lexer.next c) rows := by
  have starts : begins c = some .number := by
    rw [begins, if_neg (by rw [noWord]; decide), if_pos digit]
  by_cases inNumber : lexer.state = .number
  · have same : lexer.next c = lexer.collect c .number := by
      rw [Lexer.next, if_neg noBlank, if_neg (by rw [noWord]; decide), if_pos digit,
        if_neg (not_not.mpr inNumber)]
    rw [same]
    apply moves_grown
    rw [inNumber, grows, if_pos digit]
  · have same : lexer.next c = lexer.endWord.collect c .number := by
      rw [Lexer.next, if_neg noBlank, if_neg (by rw [noWord]; decide), if_pos digit,
        if_pos inNumber]
    have noGreater : c ≠ '>' := by
      intro greater
      rw [greater] at digit
      exact absurd digit.2 (by decide)
    have noEqual : c ≠ '=' := by
      intro equal
      rw [equal] at digit
      exact absurd digit.2 (by decide)
    rw [same]
    apply moves_begun starts
    · exact grows_eq_none (fun _ => noWord) (fun atNumber => absurd atNumber inNumber)
        (fun _ => noGreater)
    · intro completes
      exact noEqual completes.1

private theorem next_moves_equal (lexer : Lexer) :
    ∃ rows, Moves lexer.state lexer.temp '=' (lexer.next '=').state (lexer.next '=').temp rows ∧
      Printed lexer (lexer.next '=') rows := by
  have same : lexer.next '=' =
      if lexer.state ∉ [LexState.start, .less, .greater, .colon] then
        lexer.endWord.collect '=' .equal
      else { (lexer.collect '=' lexer.state).endWord with state := .start } := rfl
  rw [same]
  by_cases open_ : lexer.state ∈ [LexState.start, .less, .greater, .colon]
  · rw [if_neg (not_not.mpr open_)]
    have ended := printed_endWord (lexer.collect '=' lexer.state)
    refine ⟨flushed lexer.state (lexer.temp ++ ['=']), ?_, ended.printed, ended.target⟩
    dsimp only
    rw [endWord_temp]
    exact .closed ⟨rfl, open_⟩
  · rw [if_pos open_]
    apply moves_begun rfl
    · cases lexer.state <;> rfl
    · intro completes
      exact open_ completes.2

private theorem next_moves_greater (lexer : Lexer) :
    ∃ rows, Moves lexer.state lexer.temp '>' (lexer.next '>').state (lexer.next '>').temp rows ∧
      Printed lexer (lexer.next '>') rows := by
  have same : lexer.next '>' =
      if lexer.state ≠ .less then { lexer.endWord with state := .greater }
      else lexer.collect '>' .unequal := rfl
  rw [same]
  by_cases less : lexer.state = .less
  · rw [if_neg (not_not.mpr less)]
    apply moves_grown
    rw [less]
    rfl
  · rw [if_pos less]
    exact moves_reset (.dropped rfl less)

private theorem next_moves_newline (lexer : Lexer) :
    ∃ rows, Moves lexer.state lexer.temp '\n' (lexer.next '\n').state (lexer.next '\n').temp rows ∧
      Printed lexer (lexer.next '\n') rows := by
  have ended := printed_endWord lexer
  have row := printed_callPrint { lexer.endWord with state := .start } ['E', 'O', 'L', 'N'] 24
  refine ⟨flushed lexer.state lexer.temp ++ [(['E', 'O', 'L', 'N'], 24)], ?_, ?_⟩
  · have temp : (lexer.next '\n').temp = lexer.endWord.temp := rfl
    rw [temp, endWord_temp]
    exact .newline rfl
  · exact ended.trans ⟨row.printed, row.target⟩

/-- The other characters start a sign or are reported. -/
theorem next_other (lexer : Lexer) {c : Char} (noBlank : c ≠ ' ') (noWord : isWordChar c = false)
    (noDigit : ¬ ('0' ≤ c ∧ c ≤ '9')) (noEqual : c ≠ '=') (noGreater : c ≠ '>')
    (noNewline : c ≠ '\n') :
    (∃ after, begins c = some after ∧ lexer.next c = lexer.endWord.collect c after) ∨
      (begins c = none ∧ lexer.next c = lexer.errorWrite .illegalCharacter) := by
  unfold Lexer.next begins
  rw [if_neg noBlank, noWord, if_neg Bool.false_ne_true, if_neg noDigit, if_neg noEqual,
    if_neg Bool.false_ne_true, if_neg noDigit, if_neg noEqual]
  by_cases minus : c = '-'
  · exact Or.inl ⟨.minus, by rw [if_pos minus], by rw [if_pos minus]⟩
  by_cases times : c = '*'
  · exact Or.inl ⟨.times, by rw [if_neg minus, if_pos times], by rw [if_neg minus, if_pos times]⟩
  rw [if_neg minus, if_neg times, if_neg minus, if_neg times]
  by_cases opening : c = '('
  · exact Or.inl ⟨.opening, by rw [if_pos opening], by rw [if_pos opening]⟩
  by_cases closing : c = ')'
  · exact Or.inl ⟨.closing, by rw [if_neg opening, if_pos closing],
      by rw [if_neg opening, if_pos closing]⟩
  rw [if_neg opening, if_neg closing, if_neg opening, if_neg closing, if_neg noGreater]
  by_cases less : c = '<'
  · exact Or.inl ⟨.less, by rw [if_pos less], by rw [if_pos less]⟩
  by_cases colon : c = ':'
  · exact Or.inl ⟨.colon, by rw [if_neg less, if_pos colon], by rw [if_neg less, if_pos colon]⟩
  rw [if_neg less, if_neg colon, if_neg less, if_neg colon]
  by_cases semicolon : c = ';'
  · exact Or.inl ⟨.semicolon, by rw [if_pos semicolon], by rw [if_pos semicolon]⟩
  · rw [if_neg semicolon, if_neg semicolon, if_neg noNewline]
    exact Or.inr ⟨rfl, rfl⟩

theorem next_moves {lexer : Lexer} (shape : Shape lexer.state lexer.temp) (c : Char) :
    ∃ rows, Moves lexer.state lexer.temp c (lexer.next c).state (lexer.next c).temp rows ∧
      Printed lexer (lexer.next c) rows := by
  by_cases blank : c = ' '
  · exact blank ▸ next_moves_blank shape
  by_cases wordChar : isWordChar c = true
  · exact next_moves_wordChar shape blank wordChar
  have noWord : isWordChar c = false := Bool.eq_false_iff.mpr wordChar
  by_cases digit : '0' ≤ c ∧ c ≤ '9'
  · exact next_moves_digit blank noWord digit
  by_cases equal : c = '='
  · exact equal ▸ next_moves_equal lexer
  by_cases greater : c = '>'
  · exact greater ▸ next_moves_greater lexer
  by_cases newline : c = '\n'
  · exact newline ▸ next_moves_newline lexer
  rcases next_other lexer blank noWord digit equal greater newline with sign | illegal
  · rcases sign with ⟨after, starts, same⟩
    rw [same]
    exact moves_sign starts noWord digit greater equal
  · rcases illegal with ⟨unknown, same⟩
    rw [same]
    exact ⟨[], .ignored unknown ⟨blank, newline, greater⟩, Printed.none rfl rfl⟩

/-! ### The form of the pending and of the printed lexemes -/

def signs : List (List Char) :=
  [['='], ['-'], ['*'], ['('], [')'], ['<'], ['<', '>'], ['<', '='], [':', '='], [';']]

inductive Lexeme (word : List Char) : Prop
  | word (nonempty : word ≠ []) (all : ∀ c ∈ word, isWordChar c = true)
  | number (nonempty : word ≠ []) (all : ∀ c ∈ word, '0' ≤ c ∧ c ≤ '9')
  | sign (listed : word ∈ signs)

private theorem branch_or_rest {condition : Prop} [Decidable condition] {value after : LexState}
    {rest : Option LexState} (starts : (if condition then some value else rest) = some after) :
    condition ∧ value = after ∨ rest = some after := by
  by_cases holds : condition
  · rw [if_pos holds] at starts
    exact .inl ⟨holds, Option.some.inj starts⟩
  · rw [if_neg holds] at starts
    exact .inr starts

theorem shape_of_begins {c : Char} {after : LexState} (starts : begins c = some after) :
    Shape after [c] := by
  unfold begins at starts
  rcases branch_or_rest starts with ⟨wordChar, rfl⟩ | starts
  · refine ⟨List.cons_ne_nil c [], ?_⟩
    intro d member
    exact List.mem_singleton.mp member ▸ wordChar
  rcases branch_or_rest starts with ⟨digit, rfl⟩ | starts
  · refine ⟨List.cons_ne_nil c [], ?_⟩
    intro d member
    exact List.mem_singleton.mp member ▸ digit
  repeat
    rcases branch_or_rest starts with ⟨rfl, rfl⟩ | starts
    · rfl
  cases starts

theorem Moves.shape {state after : LexState} {temp rest : List Char} {c : Char}
    {rows : List (List Char × Nat)} (moves : Moves state temp c after rest rows)
    (shape : Shape state temp) : Shape after rest := by
  cases moves with
  | ignored => exact shape
  | grown goesOn =>
      cases state <;> simp only [grows, reduceCtorEq] at goesOn
      case word =>
          split at goesOn
          · rename_i wordChar
            cases goesOn
            refine ⟨List.append_ne_nil_of_left_ne_nil shape.1 _, ?_⟩
            intro d member
            rcases List.mem_append.mp member with earlier | last
            · exact shape.2 d earlier
            · exact List.mem_singleton.mp last ▸ wordChar
          · cases goesOn
      case number =>
          split at goesOn
          · rename_i digit
            cases goesOn
            refine ⟨List.append_ne_nil_of_left_ne_nil shape.1 _, ?_⟩
            intro d member
            rcases List.mem_append.mp member with earlier | last
            · exact shape.2 d earlier
            · exact List.mem_singleton.mp last ▸ digit
          · cases goesOn
      case less =>
          split at goesOn
          · rename_i greater
            cases goesOn
            have less : ['<'] = temp := Option.some.inj shape
            rw [← less, greater]
            rfl
          · cases goesOn
  | closed => rfl
  | begun starts =>
      exact shape_of_begins starts
  | blank => rfl
  | dropped => rfl
  | newline => rfl

theorem lexeme_of_flushed {state : LexState} {temp : List Char} (shape : Shape state temp)
    {row : List Char × Nat} (member : row ∈ flushed state temp) : Lexeme row.1 := by
  unfold flushed at member
  split at member
  · cases member
  · rename_i nonempty
    cases state
    case word =>
        rw [List.mem_singleton.mp member]
        exact .word shape.1 shape.2
    case number =>
        rw [List.mem_singleton.mp member]
        exact .number shape.1 shape.2
    all_goals
      cases shape
      first
        | exact absurd rfl nonempty
        | cases member
          done
        | rw [List.mem_singleton.mp member]
          exact .sign (by decide)

theorem Moves.lexeme {state after : LexState} {temp rest : List Char} {c : Char}
    {rows : List (List Char × Nat)} (moves : Moves state temp c after rest rows)
    (shape : Shape state temp) {row : List Char × Nat} (member : row ∈ rows) : Lexeme row.1 := by
  cases moves with
  | ignored => cases member
  | grown => cases member
  | closed completes =>
      rcases completes with ⟨rfl, open_⟩
      simp only [List.mem_cons, List.not_mem_nil, or_false] at open_
      rcases open_ with rfl | rfl | rfl | rfl
      all_goals
        cases shape
        rw [List.mem_singleton.mp member]
        exact .sign (by decide)
  | begun => exact lexeme_of_flushed shape member
  | blank => exact lexeme_of_flushed shape member
  | dropped => exact lexeme_of_flushed shape member
  | newline =>
      rcases List.mem_append.mp member with flush | last
      · exact lexeme_of_flushed shape flush
      · rw [List.mem_singleton.mp last]
        exact .word (by decide) (List.all_eq_true.mp (by decide))

/-- What holds of the lexer after any part of any text. -/
structure Lexer.Sound (lexer : Lexer) : Prop where
  shape : Shape lexer.state lexer.temp
  lexemes : ∀ row ∈ lexer.printed, Lexeme row.1
  target : lexer.target = targetText lexer.printed

theorem Lexer.Sound.printed {before after : Lexer} {rows : List (List Char × Nat)}
    (sound : before.Sound) (prints : Printed before after rows)
    (shape : Shape after.state after.temp) (lexemes : ∀ row ∈ rows, Lexeme row.1) :
    after.Sound where
  shape := shape
  lexemes row member := by
    rw [prints.printed] at member
    rcases List.mem_append.mp member with earlier | last
    · exact sound.lexemes row earlier
    · exact lexemes row last
  target := by
    rw [prints.target, prints.printed, sound.target, targetText_append]

private theorem sound_initLexer : initLexer.Sound where
  shape := rfl
  lexemes _ member := absurd member List.not_mem_nil
  target := rfl

theorem Lexer.Sound.next {lexer : Lexer} (sound : lexer.Sound) (c : Char) :
    (lexer.next c).Sound := by
  rcases next_moves sound.shape c with ⟨rows, moves, prints⟩
  exact sound.printed prints (moves.shape sound.shape) fun row => moves.lexeme sound.shape

theorem Lexer.Sound.foldl {lexer : Lexer} (sound : lexer.Sound) (text : List Char) :
    (text.foldl Lexer.next lexer).Sound := by
  induction text generalizing lexer with
  | nil => exact sound
  | cons c rest ih => exact ih (sound.next c)

/-- The last lines of `lex_main`. -/
theorem printed_last (lexer : Lexer) :
    Printed lexer (lexer.endWord.callPrint ['E', 'O', 'F'] 25)
      (flushed lexer.state lexer.temp ++ [(['E', 'O', 'F'], 25)]) :=
  (printed_endWord lexer).trans (printed_callPrint lexer.endWord ['E', 'O', 'F'] 25)

/-- Every text is lexed to words, numbers and signs, written one to a line. -/
theorem lexMain_lexemes (text : List Char) :
    (∀ row ∈ (lexMain text).printed, Lexeme row.1) ∧
      (lexMain text).target = targetText (lexMain text).printed := by
  have sound := sound_initLexer.foldl text
  have last := printed_last (text.foldl Lexer.next initLexer)
  constructor
  · intro row member
    unfold lexMain at member
    rw [last.printed] at member
    rcases List.mem_append.mp member with earlier | final
    · exact sound.lexemes row earlier
    · rcases List.mem_append.mp final with flush | eof
      · exact lexeme_of_flushed sound.shape flush
      · rw [List.mem_singleton.mp eof]
        exact .word (by decide) (List.all_eq_true.mp (by decide))
  · unfold lexMain
    rw [last.target, last.printed, sound.target, targetText_append (text.foldl Lexer.next initLexer).printed]

end OsCompiler.LabPy
