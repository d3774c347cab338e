/-
How many lines `lex_main` prints: never fewer than there are tokens, where it drops no `>`,
and more as soon as a digit comes directly behind a letter.
-/

import OsCompiler.LabPy.LongestMatch
import OsCompiler.LabPy.TokenBoundaries

namespace OsCompiler.LabPy

def GreaterAfter (prev : Char) : List Char → Prop
  | [] => True
  | c :: rest => (c = '>' → prev = '<') ∧ GreaterAfter c rest

/-! ### The codes of the lines -/

theorem code_of_flushed {state : LexState} {temp : List Char} {row : List Char × Nat}
    (member : row ∈ flushed state temp) :
    itemDict row.1 = some row.2 ∨ row.2 = token ∨ row.2 = constants := by
  unfold flushed at member
  split at member
  · cases member
  split at member
  · rw [List.mem_singleton.mp member]
    cases found : itemDict temp with
    | none => exact Or.inr (Or.inl rfl)
    | some code => exact Or.inl rfl
  · rw [List.mem_singleton.mp member]
    exact Or.inr (Or.inr rfl)
  · rename_i found
    rw [List.mem_singleton.mp member]
    exact Or.inl found
  · cases member

theorem Moves.code {state after : LexState} {temp rest : List Char} {c : Char}
    {rows : List (List Char × Nat)} (moves : Moves state temp c after rest rows)
    {row : List Char × Nat} (member : row ∈ rows) :
    itemDict row.1 = some row.2 ∨ row.2 ∈ [token, constants, 24] := by
  have ofFlushed {found : LexState} {word : List Char} (printed : row ∈ flushed found word) :
      itemDict row.1 = some row.2 ∨ row.2 ∈ [token, constants, 24] := by
    rcases code_of_flushed printed with listed | name | number
    · exact Or.inl listed
    · exact Or.inr (by rw [name]; decide)
    · exact Or.inr (by rw [number]; decide)
  cases moves with
  | ignored => cases member
  | grown => cases member
  | closed => exact ofFlushed member
  | begun => exact ofFlushed member
  | blank => exact ofFlushed member
  | dropped => exact ofFlushed member
  | newline =>
      rcases List.mem_append.mp member with flush | last
      · exact ofFlushed flush
      · rw [List.mem_singleton.mp last]
        exact Or.inr (by decide)

/-- A line carries the code of its word in `ItemDict`, or one of the codes that are not there. -/
theorem code_of_printed {text : List Char} {row : List Char × Nat}
    (member : row ∈ (lexMain text).printed) :
    itemDict row.1 = some row.2 ∨ row.2 ∈ [token, constants, 24, 25] := by
  rw [lexMain_printed] at member
  rcases List.mem_append.mp member with earlier | last
  · have every : ∀ other ∈ lexMachine.output text,
        itemDict other.1 = some other.2 ∨ other.2 ∈ [token, constants, 24] := by
      refine Transducer.output_forall shaped_step ?_ ?_ rfl text
      · intro pending word shaped other written
        rcases @next_moves (resumed pending) shaped word with ⟨rows, moves, printed⟩
        have here : other ∈ ((resumed pending).next word).printed := written
        rw [printed.printed] at here
        exact moves.code here
      · intro pending _ other written
        rcases code_of_flushed written with listed | name | number
        · exact Or.inl listed
        · exact Or.inr (by rw [name]; decide)
        · exact Or.inr (by rw [number]; decide)
    rcases every row earlier with listed | other
    · exact Or.inl listed
    · exact Or.inr (List.mem_append_left [25] other)
  · rw [List.mem_singleton.mp last]
    exact Or.inr (by decide)

/-- The codes of `>=` and of `>` are never printed. -/
theorem printed_ne_greater {text : List Char} {row : List Char × Nat}
    (member : row ∈ (lexMain text).printed) : row.2 ≠ 16 ∧ row.2 ≠ 17 := by
  have plain := ((lexMain_lexemes text).1 row member).plain
  have listed : ∀ entry ∈ itemList, entry.2 = 16 ∨ entry.2 = 17 → entry.1.head? = some '>' := by
    decide
  have neither (isGreater : row.2 = 16 ∨ row.2 = 17) : False := by
    rcases code_of_printed member with found | other
    · rcases List.lookup_eq_some_iff.mp found with ⟨front, back, split, _⟩
      have first : row.1.head? = some '>' := by
        apply listed (row.1, row.2) _ isGreater
        rw [split]
        exact List.mem_append_right front List.mem_cons_self
      rcases List.head?_eq_some_iff.mp first with ⟨rest, word⟩
      rw [word] at plain
      exact absurd (plain.2.1 rfl) (by decide)
    · have none : ∀ code ∈ [token, constants, 24, 25], ¬ (code = 16 ∨ code = 17) := by decide
      exact none _ other isGreater
  exact ⟨fun same => neither (Or.inl same), fun same => neither (Or.inr same)⟩

/-! ### One character -/

/-- The automaton is inside a word behind a letter. -/
theorem Moves.word_of_letter {state after : LexState} {temp pending : List Char} {c : Char}
    {rows : List (List Char × Nat)} (moves : Moves state temp c after pending rows)
    (letter : isLetter c = true) : after = .word := by
  have wordChar : isWordChar c = true := isWordChar_of_isLetter letter
  have word : begins c = some .word := by rw [begins, if_pos wordChar]
  have noSign {sign : Char} (other : isLetter sign = false) : c ≠ sign := by
    rintro rfl
    rw [letter] at other
    cases other
  cases moves with
  | ignored illegal =>
      rw [word] at illegal
      cases illegal
  | grown goesOn =>
      unfold grows at goesOn
      split at goesOn
      · rw [if_pos wordChar] at goesOn
        exact (Option.some.inj goesOn).symm
      · split at goesOn
        · rename_i digit
          have noLetter : isLetter c = false := isLetter_eq_false (by simpa [isDigit] using digit)
          rw [letter] at noLetter
          cases noLetter
        · cases goesOn
      · rw [if_neg (noSign rfl)] at goesOn
        cases goesOn
      · cases goesOn
  | closed completes => exact absurd completes.1 (noSign rfl)
  | begun starts =>
      rw [word] at starts
      exact (Option.some.inj starts).symm
  | blank isBlank => exact absurd isBlank (noSign rfl)
  | dropped isGreater => exact absurd isGreater (noSign rfl)
  | newline isNewline => exact absurd isNewline (noSign rfl)

/-- A digit ends a word and begins a number. -/
theorem Moves.digit_in_word {after : LexState} {temp pending : List Char} {c : Char}
    {rows : List (List Char × Nat)} (moves : Moves .word temp c after pending rows)
    (digit : isDigit c = true) :
    begins c = some after ∧ pending = [c] ∧ rows = flushed .word temp := by
  have bounds : '0' ≤ c ∧ c ≤ '9' := by simpa [isDigit] using digit
  have noWord : isWordChar c = false := by
    apply Bool.eq_false_iff.mpr
    intro wordChar
    simp only [isWordChar, Bool.and_eq_true, decide_eq_true_eq] at wordChar
    exact absurd (Char.le_trans wordChar.1 bounds.2) (by decide)
  have noSign {sign : Char} (other : isDigit sign = false) : c ≠ sign := by
    rintro rfl
    rw [digit] at other
    cases other
  cases moves with
  | ignored illegal =>
      rw [begins, noWord, if_neg (by decide), if_pos bounds] at illegal
      cases illegal
  | grown goesOn =>
      rw [grows, noWord, if_neg (by decide)] at goesOn
      cases goesOn
  | closed completes => exact absurd completes.1 (noSign rfl)
  | begun starts => exact ⟨starts, rfl, rfl⟩
  | blank isBlank => exact absurd isBlank (noSign rfl)
  | dropped isGreater => exact absurd isGreater (noSign rfl)
  | newline isNewline => exact absurd isNewline (noSign rfl)

private theorem dropWhile_dropWhile {test other : Char → Bool}
    (weaker : ∀ c, test c = true → other c = true) (text : List Char) :
    (text.dropWhile test).dropWhile other = text.dropWhile other := by
  induction text with
  | nil => rfl
  | cons c rest ih =>
      by_cases passes : test c = true
      · rw [List.dropWhile_cons_of_pos passes, List.dropWhile_cons_of_pos (weaker c passes), ih]
      · rw [List.dropWhile_cons_of_neg passes]

theorem isLetterOrDigit_of_isDigit (c : Char) (digit : isDigit c = true) :
    isLetterOrDigit c = true := by
  rw [isLetterOrDigit, digit, Bool.or_true]

/-- A text has no fewer tokens than are left of it behind its letters and digits. -/
theorem reference_dropWhile_le (text : List Char) :
    (reference (text.dropWhile isLetterOrDigit)).length ≤ (reference text).length := by
  induction length : text.length using Nat.strong_induction_on generalizing text with
  | h size ih =>
      cases text with
      | nil => exact Nat.le_refl _
      | cons c rest =>
          by_cases either : isLetterOrDigit c = true
          · rw [List.dropWhile_cons_of_pos either, reference_cons, List.length_append]
            by_cases letter : isLetter c = true
            · rw [firstToken, if_pos letter]
              exact Nat.le_add_left _ _
            · have digit : isDigit c = true := by
                rcases Bool.or_eq_true _ _ ▸ either with here | here
                · exact absurd here letter
                · exact here
              rw [firstToken, if_neg letter, if_pos digit]
              have shorter : (rest.dropWhile isDigit).length < size := by
                have bound := (List.dropWhile_sublist isDigit (l := rest)).length_le
                rw [← length, List.length_cons]
                omega
              have later := ih _ shorter _ rfl
              rw [dropWhile_dropWhile isLetterOrDigit_of_isDigit] at later
              exact Nat.le_trans later (Nat.le_add_left _ _)
          · rw [List.dropWhile_cons_of_neg either]

/-- The word that a digit goes on with is one token less. -/
theorem reference_word_digit {temp rest : List Char} {c : Char} (nonempty : temp ≠ [])
    (letters : ∀ d ∈ temp, isLetter d = true) (digit : isDigit c = true) :
    (reference (temp ++ c :: rest)).length ≤ (reference (c :: rest)).length := by
  rcases List.exists_cons_of_ne_nil nonempty with ⟨first, word, rfl⟩
  have noLetter : ¬ isLetter c = true := by rw [isLetter_eq_false digit]; decide
  have inside : ∀ d ∈ word, isLetterOrDigit d = true := by
    intro d member
    rw [isLetterOrDigit, letters d (List.mem_cons_of_mem first member), Bool.true_or]
  rw [List.cons_append, reference_cons, firstToken, if_pos (letters first List.mem_cons_self),
    reference_cons, firstToken, if_neg noLetter, if_pos digit, List.length_append,
    List.length_append]
  dsimp only
  rw [List.dropWhile_append_of_pos inside,
    List.dropWhile_cons_of_pos (isLetterOrDigit_of_isDigit c digit),
    ← dropWhile_dropWhile isLetterOrDigit_of_isDigit]
  exact Nat.add_le_add_left (reference_dropWhile_le _) 1

/-- Each move prints no fewer tokens than the reference puts in front of the new pending lexeme,
and one more at a digit directly behind a letter. -/
theorem Moves.counts {prev c : Char} {state after : LexState} {temp pending rest : List Char}
    {rows : List (List Char × Nat)} (moves : Moves state temp c after pending rows)
    (shape : Shape state temp) (linked : Linked prev state (c :: rest))
    (inWord : isLetter prev = true → state = .word)
    (legalTemp : ∀ d ∈ temp, inAlphabet d = true) (legal : inAlphabet c = true)
    (colons : ColonsPaired (c :: rest)) (greater : c = '>' → prev = '<') :
    Linked c after rest ∧ (∀ d ∈ pending, inAlphabet d = true) ∧
      (LabPy.reference (temp ++ c :: rest)).length +
          (if isLetter prev = true ∧ isDigit c = true then 1 else 0) ≤
        rows.length + (LabPy.reference (pending ++ rest)).length := by
  by_cases behind : isLetter prev = true ∧ isDigit c = true
  · have word := inWord behind.1
    subst word
    rcases moves.digit_in_word behind.2 with ⟨starts, rfl, rfl⟩
    refine ⟨linked_begins starts legal colons, ?_, ?_⟩
    · intro d member
      exact List.mem_singleton.mp member ▸ legal
    · have letters : ∀ d ∈ temp, isLetter d = true :=
        fun d member => isLetter_of_isWordChar (shape.2 d member) (legalTemp d member)
      have fewer := @reference_word_digit temp rest c shape.1 letters behind.2
      rw [if_pos behind, flushed_word shape.1, List.length_singleton, List.singleton_append]
      omega
  · rcases moves.reference shape linked legalTemp legal colons ⟨behind, greater⟩ with
      ⟨linkedAfter, legalAfter, tokens⟩
    refine ⟨linkedAfter, legalAfter, ?_⟩
    rw [if_neg behind, tokens, List.length_append]
    exact Nat.le_refl _

/-! ### The whole text -/

/-- From the middle of a text on, what is printed is as long as the reference of the pending
lexeme and the rest only where no digit comes directly behind a letter. -/
theorem printed_counts {lexer : Lexer} {prev : Char} {rest : List Char}
    (shape : Shape lexer.state lexer.temp) (linked : Linked prev lexer.state rest)
    (inWord : isLetter prev = true → lexer.state = .word)
    (legal : ∀ c ∈ lexer.temp ++ rest, inAlphabet c = true) (colons : ColonsPaired rest)
    (greater : GreaterAfter prev rest) :
    let printed := ((rest.foldl Lexer.next lexer).endWord.callPrint ['E', 'O', 'F'] 25).printed.length
    lexer.printed.length + (reference (lexer.temp ++ rest)).length ≤ printed ∧
      (lexer.printed.length + (reference (lexer.temp ++ rest)).length = printed →
        PlainAfter prev rest) := by
  intro printed
  induction rest generalizing lexer prev with
  | nil =>
      have same : printed = (lexer.printed ++ reference (lexer.temp ++ [])).length :=
        congrArg List.length (printed_reference shape linked legal colons trivial)
      rw [List.length_append] at same
      exact ⟨Nat.le_of_eq same.symm, fun _ => trivial⟩
  | cons c rest ih =>
      rcases next_moves shape c with ⟨rows, moves, prints⟩
      have legalTemp : ∀ d ∈ lexer.temp, inAlphabet d = true :=
        fun d member => legal d (List.mem_append_left _ member)
      have legalHere : inAlphabet c = true :=
        legal c (List.mem_append_right _ List.mem_cons_self)
      rcases moves.counts shape linked inWord legalTemp legalHere colons greater.1 with
        ⟨linkedAfter, legalAfter, counted⟩
      have legalBoth : ∀ d ∈ (lexer.next c).temp ++ rest, inAlphabet d = true := by
        intro d member
        rcases List.mem_append.mp member with pending | later
        · exact legalAfter d pending
        · exact legal d (List.mem_append_right _ (List.mem_cons_of_mem c later))
      have later := ih (moves.shape shape) linkedAfter moves.word_of_letter legalBoth colons.2
        greater.2
      dsimp only at later
      rw [prints.printed, List.length_append] at later
      change _ ≤ printed ∧ (_ = printed → _) at later
      rcases later with ⟨bound, plain⟩
      refine ⟨by omega, ?_⟩
      intro same
      by_cases behind : isLetter prev = true ∧ isDigit c = true
      · rw [if_pos behind] at counted
        omega
      · rw [if_neg behind] at counted
        exact ⟨behind, greater.1, plain (by omega)⟩

/-- Where no `>` is dropped, at least the tokens of the text are printed, and no more only if
no digit comes directly behind a letter. -/
theorem lexMain_counts {text : List Char} (legal : ∀ c ∈ text, inAlphabet c = true)
    (colons : ColonsPaired text) (greater : GreaterAfter ' ' text) :
    (reference text).length ≤ (lexMain text).printed.length ∧
      ((reference text).length = (lexMain text).printed.length → PlainAfter ' ' text) := by
  have linked : Linked ' ' initLexer.state text := ⟨nofun, nofun, nofun⟩
  have counts := @printed_counts initLexer _ _ rfl linked nofun legal colons greater
  dsimp only at counts
  rw [show initLexer.printed.length = 0 from rfl, Nat.zero_add] at counts
  exact counts

end OsCompiler.LabPy
