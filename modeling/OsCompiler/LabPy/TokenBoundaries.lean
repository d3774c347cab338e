/-
Where `lex_main` starts afresh: a blank or a newline cuts a text in two texts whose
tokens are those of the whole.

What a character does depends on the state and the pending lexeme alone, so that the
lexer is a transducer over these two.
-/

import OsCompiler.Lib.Transducer
import OsCompiler.LabPy.Lex

namespace OsCompiler.LabPy

def toks (text : List Char) : List (List Char × Nat) := (lexMain text).printed.dropLast

/-! ### What was printed before does not matter -/

/-- The two lexers have the same ahead of them; the later one has printed some rows more. -/
structure Continues (rows : List (List Char × Nat)) (fresh later : Lexer) : Prop where
  state : later.state = fresh.state
  temp : later.temp = fresh.temp
  printed : later.printed = rows ++ fresh.printed

section Continues

variable {rows : List (List Char × Nat)} {fresh later : Lexer}

theorem Continues.print (continues : Continues rows fresh later) (printWord : List Char)
    (num : Nat) : Continues rows (fresh.callPrint printWord num) (later.callPrint printWord num) where
  state := continues.state
  temp := continues.temp
  printed := by
    show later.printed ++ _ = rows ++ (fresh.printed ++ _)
    rw [continues.printed, List.append_assoc]

theorem Continues.errorWrite (continues : Continues rows fresh later) (error : LexError) :
    Continues rows (fresh.errorWrite error) (later.errorWrite error) :=
  ⟨continues.state, continues.temp, continues.printed⟩

theorem Continues.restart (continues : Continues rows fresh later) (state : LexState) :
    Continues rows { fresh with state := state } { later with state := state } :=
  ⟨rfl, continues.temp, continues.printed⟩

theorem Continues.collect (continues : Continues rows fresh later) (word : Char)
    (state : LexState) : Continues rows (fresh.collect word state) (later.collect word state) where
  state := rfl
  temp := congrArg (· ++ [word]) continues.temp
  printed := continues.printed

theorem Continues.endWord (continues : Continues rows fresh later) :
    Continues rows fresh.endWord later.endWord where
  state := by
    unfold Lexer.endWord
    rw [continues.temp, continues.state]
    split
    · split <;> exact continues.state
    · exact continues.state
  temp := by rw [endWord_temp, endWord_temp]
  printed := by
    rw [(printed_endWord fresh).printed, (printed_endWord later).printed, continues.printed,
      continues.state, continues.temp, List.append_assoc]

theorem Continues.ite {fresh' later' : Lexer} {test : Prop} [Decidable test]
    (yes : Continues rows fresh later) (no : Continues rows fresh' later') :
    Continues rows (if test then fresh else fresh') (if test then later else later') := by
  by_cases holds : test
  · rw [if_pos holds, if_pos holds]
    exact yes
  · rw [if_neg holds, if_neg holds]
    exact no

theorem Continues.next (continues : Continues rows fresh later) (word : Char) :
    Continues rows (fresh.next word) (later.next word) := by
  have begun : ∀ state, Continues rows (fresh.endWord.collect word state)
      (later.endWord.collect word state) := continues.endWord.collect word
  have closed := (continues.collect word fresh.state).endWord.restart .start
  have ended := (continues.endWord.restart .start).print ['E', 'O', 'L', 'N'] 24
  unfold Lexer.next
  rw [continues.state]
  apply Continues.ite (.ite (continues.endWord.restart .start) continues)
  apply Continues.ite (.ite (begun .word) (continues.collect word .word))
  apply Continues.ite (.ite (begun .number) (continues.collect word .number))
  apply Continues.ite (.ite (begun .equal) closed)
  apply Continues.ite (begun .minus)
  apply Continues.ite (begun .times)
  apply Continues.ite (begun .opening)
  apply Continues.ite (begun .closing)
  apply Continues.ite (begun .less)
  apply Continues.ite (.ite (continues.endWord.restart .greater) (continues.collect word .unequal))
  apply Continues.ite (begun .colon)
  apply Continues.ite (begun .semicolon)
  apply Continues.ite
  · exact ⟨ended.state, ended.temp, ended.printed⟩
  · exact continues.errorWrite .illegalCharacter

end Continues

/-! ### The lexer as a transducer -/

def Lexer.pending (lexer : Lexer) : LexState × List Char := (lexer.state, lexer.temp)

def resumed (pending : LexState × List Char) : Lexer :=
  { initLexer with state := pending.1, temp := pending.2 }

def lexMachine : Transducer (LexState × List Char) Char (List Char × Nat) where
  start := (.start, [])
  step pending word :=
    let next := (resumed pending).next word
    (next.pending, next.printed)
  flush pending := flushed pending.1 pending.2

private theorem foldl_next (lexer : Lexer) (text : List Char) :
    (text.foldl Lexer.next lexer).pending = (lexMachine.run lexer.pending text).1 ∧
      (text.foldl Lexer.next lexer).printed =
        lexer.printed ++ (lexMachine.run lexer.pending text).2 := by
  induction text generalizing lexer with
  | nil => exact ⟨rfl, (List.append_nil _).symm⟩
  | cons word rest ih =>
      have resumes : Continues lexer.printed (resumed lexer.pending) lexer :=
        ⟨rfl, rfl, (List.append_nil _).symm⟩
      have moved := resumes.next word
      have pending : (lexer.next word).pending = (lexMachine.step lexer.pending word).1 :=
        Prod.ext moved.state moved.temp
      rcases ih (lexer.next word) with ⟨reached, printed⟩
      rw [pending] at reached printed
      refine ⟨reached, ?_⟩
      rw [List.foldl_cons, printed, moved.printed, List.append_assoc]
      rfl

theorem lexMain_printed (text : List Char) :
    (lexMain text).printed = lexMachine.output text ++ [(['E', 'O', 'F'], 25)] := by
  rcases foldl_next initLexer text with ⟨reached, printed⟩
  have flush : flushed (text.foldl Lexer.next initLexer).state
      (text.foldl Lexer.next initLexer).temp =
        lexMachine.flush (lexMachine.run lexMachine.start text).1 :=
    congrArg lexMachine.flush reached
  rw [lexMain, (printed_last _).printed, printed, flush, ← List.append_assoc]
  rfl

theorem toks_eq (text : List Char) : toks text = lexMachine.output text := by
  rw [toks, lexMain_printed, List.dropLast_concat]

/-! ### Blanks and newlines -/

def Shaped (pending : LexState × List Char) : Prop := Shape pending.1 pending.2

theorem shaped_step (pending : LexState × List Char) (word : Char) (shaped : Shaped pending) :
    Shaped (lexMachine.step pending word).1 := by
  rcases @next_moves (resumed pending) shaped word with ⟨rows, moves, _⟩
  exact moves.shape shaped

/-- A blank prints what is pending, a newline its row besides. -/
theorem Moves.of_break {state after : LexState} {temp rest : List Char} {word : Char}
    {rows : List (List Char × Nat)} (moves : Moves state temp word after rest rows)
    (breaks : word = ' ' ∨ word = '\n') :
    after = .start ∧ rest = [] ∧
      rows = flushed state temp ++ if word = ' ' then [] else [(['E', 'O', 'L', 'N'], 24)] := by
  have alone : begins word = none ∧ grows state word = none ∧ word ≠ '=' ∧ word ≠ '>' := by
    rcases breaks with rfl | rfl <;> cases state <;> decide
  cases moves with
  | ignored _ noBreak =>
      rcases breaks with blank | newline
      · exact absurd blank noBreak.1
      · exact absurd newline noBreak.2.1
  | grown goesOn => cases alone.2.1.symm.trans goesOn
  | closed completes => exact absurd completes.1 alone.2.2.1
  | begun starts => cases alone.1.symm.trans starts
  | blank isBlank => exact ⟨rfl, rfl, by rw [if_pos isBlank, List.append_nil]⟩
  | dropped isGreater => exact absurd isGreater alone.2.2.2
  | newline isNewline => exact ⟨rfl, rfl, by rw [isNewline, if_neg (by decide)]⟩

theorem break_cuts {word : Char} (breaks : word = ' ' ∨ word = '\n') :
    lexMachine.CutsAt Shaped word
      (if word = ' ' then [] else [(['E', 'O', 'L', 'N'], 24)]) := by
  intro pending shaped
  rcases @next_moves (resumed pending) shaped word with ⟨rows, moves, printed⟩
  rcases moves.of_break breaks with ⟨state, temp, same⟩
  refine Prod.ext (Prod.ext state temp) ?_
  show ((resumed pending).next word).printed = _
  rw [printed.printed, same]
  rfl

/-- A blank between two texts separates their tokens, a newline puts its own row between them. -/
theorem lexMain_boundaries (first second : List Char) :
    toks (first ++ [' '] ++ second) = toks first ++ toks second ∧
      toks (first ++ ['\n'] ++ second) =
        toks first ++ [(['E', 'O', 'L', 'N'], 24)] ++ toks second := by
  have cut : ∀ word, word = ' ' ∨ word = '\n' → toks (first ++ [word] ++ second) =
      toks first ++ (if word = ' ' then [] else [(['E', 'O', 'L', 'N'], 24)]) ++ toks second := by
    intro word breaks
    rw [toks_eq, toks_eq, toks_eq]
    exact Transducer.output_cut (break_cuts breaks) rfl shaped_step first second
  constructor
  · rw [cut ' ' (.inl rfl), if_pos rfl, List.append_nil]
  · exact cut '\n' (.inr rfl)

end OsCompiler.LabPy
