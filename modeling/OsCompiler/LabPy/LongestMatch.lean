/-
The reference tokenisation of the language by longest match, and when `lex_main`
agrees with it.

The automaton ends a word at a digit and drops a `>` that does not follow a `<`. On
texts where neither occurs it prints the reference tokens; on all others it cannot,
since it never prints a lexeme of the form it would need.
-/

import OsCompiler.LabPy.Lex

namespace OsCompiler.LabPy

def isLetter (c : Char) : Bool := ('a' ≤ c && c ≤ 'z') || ('A' ≤ c && c ≤ 'Z')
def isDigit (c : Char) : Bool := '0' ≤ c && c ≤ '9'
def isLetterOrDigit (c : Char) : Bool := isLetter c || isDigit c

/-- The first token of a text that begins with `c`, if it has one there, and what follows. -/
def firstToken (c : Char) (rest : List Char) : Option (List Char × Nat) × List Char :=
  if isLetter c then
    let name := c :: rest.takeWhile isLetterOrDigit
    (some (name, (itemDict name).getD token), rest.dropWhile isLetterOrDigit)
  else if isDigit c then
    (some (c :: rest.takeWhile isDigit, constants), rest.dropWhile isDigit)
  else if c = '\n' then (some (['E', 'O', 'L', 'N'], 24), rest)
  else
    let single := ((itemDict [c]).map fun code => ([c], code), rest)
    match rest with
    | [] => single
    | d :: others =>
        match itemDict [c, d] with
        | some code => (some ([c, d], code), others)
        | none => single

theorem firstToken_length (c : Char) (rest : List Char) :
    (firstToken c rest).2.length ≤ rest.length := by
  unfold firstToken
  split
  · exact (List.dropWhile_sublist isLetterOrDigit).length_le
  split
  · exact (List.dropWhile_sublist isDigit).length_le
  split
  · exact Nat.le_refl _
  · dsimp only
    split
    · exact Nat.le_refl _
    · split
      · exact Nat.le_succ _
      · exact Nat.le_refl _

/-- The tokens of a text; blanks vanish and one EOF ends the list. -/
def reference : List Char → List (List Char × Nat)
  | [] => [(['E', 'O', 'F'], 25)]
  | c :: rest => (firstToken c rest).1.toList ++ reference (firstToken c rest).2
termination_by text => text.length
decreasing_by exact Nat.lt_succ_of_le (firstToken_length c rest)

def inAlphabet (c : Char) : Bool :=
  isLetter c || isDigit c || ['=', '<', '>', '-', '*', ':', '(', ')', ';', ' ', '\n'].contains c

def ColonsPaired : List Char → Prop
  | [] => True
  | c :: rest => (c = ':' → rest.head? = some '=') ∧ ColonsPaired rest

/-- After the character `prev`, no digit comes directly behind a letter and every `>` comes
directly behind a `<`. -/
def PlainAfter (prev : Char) : List Char → Prop
  | [] => True
  | c :: rest =>
      ¬ (isLetter prev = true ∧ isDigit c = true) ∧ (c = '>' → prev = '<') ∧ PlainAfter c rest

theorem reference_cons (c : Char) (rest : List Char) :
    reference (c :: rest) = (firstToken c rest).1.toList ++ reference (firstToken c rest).2 := by
  rw [reference]

/-! ### Tokens of the reference -/

theorem isLetter_eq_false {c : Char} (digit : isDigit c = true) : isLetter c = false := by
  simp only [isDigit, Bool.and_eq_true, decide_eq_true_eq] at digit
  have small : ∀ low : Char, '9' < low → ¬ low ≤ c := by
    intro low above lower
    exact absurd (Char.le_trans lower digit.2) (Char.not_le.mpr above)
  simp only [isLetter, Bool.or_eq_false_iff, Bool.and_eq_false_iff, decide_eq_false_iff_not]
  exact ⟨Or.inl (small 'a' (by decide)), Or.inl (small 'A' (by decide))⟩

theorem isWordChar_of_isLetter {c : Char} (letter : isLetter c = true) : isWordChar c = true := by
  simp only [isLetter, Bool.or_eq_true, Bool.and_eq_true, decide_eq_true_eq] at letter
  simp only [isWordChar, Bool.and_eq_true, decide_eq_true_eq]
  rcases letter with small | capital
  · exact ⟨Char.le_trans (by decide) small.1, small.2⟩
  · exact ⟨capital.1, Char.le_trans capital.2 (by decide)⟩

theorem isLetter_of_isWordChar {c : Char} (wordChar : isWordChar c = true)
    (legal : inAlphabet c = true) : isLetter c = true := by
  rcases Bool.or_eq_true _ _ ▸ legal with letterOrDigit | listed
  · rcases Bool.or_eq_true _ _ ▸ letterOrDigit with letter | digit
    · exact letter
    · simp only [isDigit, Bool.and_eq_true, decide_eq_true_eq] at digit
      simp only [isWordChar, Bool.and_eq_true, decide_eq_true_eq] at wordChar
      exact absurd (Char.le_trans wordChar.1 digit.2) (by decide)
  · have noWord : ['=', '<', '>', '-', '*', ':', '(', ')', ';', ' ', '\n'].any isWordChar = false := by
      decide
    exact absurd wordChar (List.any_eq_false.mp noWord c (List.contains_iff_mem.mp listed))

private theorem takeWhile_boundary {test : Char → Bool} {body rest : List Char}
    (inside : ∀ c ∈ body, test c = true) (ends : ∀ c, rest.head? = some c → test c = false) :
    (body ++ rest).takeWhile test = body ∧ (body ++ rest).dropWhile test = rest := by
  rw [List.takeWhile_append_of_pos inside, List.dropWhile_append_of_pos inside]
  cases rest with
  | nil => exact ⟨List.append_nil body, rfl⟩
  | cons c rest =>
      have fails : ¬ test c = true := by rw [ends c rfl]; decide
      rw [List.takeWhile_cons_of_neg fails, List.dropWhile_cons_of_neg fails]
      exact ⟨List.append_nil body, rfl⟩

private theorem reference_word {c : Char} {word rest : List Char} (first : isLetter c = true)
    (all : ∀ d ∈ word, isLetterOrDigit d = true)
    (ends : ∀ d, rest.head? = some d → isLetterOrDigit d = false) :
    reference (c :: word ++ rest) =
      (c :: word, (itemDict (c :: word)).getD token) :: reference rest := by
  rcases takeWhile_boundary all ends with ⟨taken, dropped⟩
  rw [List.cons_append, reference_cons, firstToken, if_pos first]
  simp only [taken, dropped]
  rfl

private theorem reference_number {c : Char} {digits rest : List Char} (first : isDigit c = true)
    (all : ∀ d ∈ digits, isDigit d = true)
    (ends : ∀ d, rest.head? = some d → isDigit d = false) :
    reference (c :: digits ++ rest) = (c :: digits, constants) :: reference rest := by
  rcases takeWhile_boundary all ends with ⟨taken, dropped⟩
  have noLetter : ¬ isLetter c = true := by rw [isLetter_eq_false first]; decide
  rw [List.cons_append, reference_cons, firstToken, if_neg noLetter, if_pos first]
  simp only [taken, dropped]
  rfl

/-- Where the two first characters are no sign, the first one is a token by itself. -/
theorem firstToken_single {c : Char} {rest : List Char}
    (noLetter : isLetter c = false) (noDigit : isDigit c = false) (noNewline : c ≠ '\n')
    (alone : ∀ d, rest.head? = some d → itemDict [c, d] = none) :
    firstToken c rest = ((itemDict [c]).map fun code => ([c], code), rest) := by
  unfold firstToken
  rw [noLetter, noDigit, if_neg Bool.false_ne_true, if_neg Bool.false_ne_true, if_neg noNewline]
  cases rest with
  | nil => rfl
  | cons d others =>
      dsimp only
      rw [alone d rfl]

theorem reference_single {c : Char} {code : Nat} {rest : List Char}
    (listed : itemDict [c] = some code) (noLetter : isLetter c = false)
    (noDigit : isDigit c = false) (noNewline : c ≠ '\n')
    (alone : ∀ d, rest.head? = some d → itemDict [c, d] = none) :
    reference (c :: rest) = ([c], code) :: reference rest := by
  rw [reference_cons, firstToken_single noLetter noDigit noNewline alone, listed]
  rfl

private theorem itemDict_less {d : Char} (noGreater : d ≠ '>') (noEqual : d ≠ '=') :
    itemDict ['<', d] = none := by
  simp [itemDict, itemList, List.lookup_cons, List.lookup_nil, beq_false_of_ne noGreater, beq_false_of_ne noEqual]

/-! ### What the automaton prints of a pending lexeme -/

def Ends (state : LexState) (c : Char) : Prop :=
  (state = .word → isLetterOrDigit c = false) ∧ (state = .number → isDigit c = false) ∧
    (state = .less → c ≠ '>' ∧ c ≠ '=')

theorem flushed_word {temp : List Char} (nonempty : temp ≠ []) :
    flushed .word temp = [(temp, (itemDict temp).getD token)] := by
  rw [flushed, if_neg nonempty]

private theorem flushed_number {temp : List Char} (nonempty : temp ≠ []) :
    flushed .number temp = [(temp, constants)] := by
  rw [flushed, if_neg nonempty]

/-- In front of a character that does not go on with it, the pending lexeme is the next token
of the reference. -/
theorem reference_flushed {state : LexState} {temp rest : List Char} (shape : Shape state temp)
    (legal : ∀ c ∈ temp, inAlphabet c = true) (noColon : state ≠ .colon)
    (ends : ∀ c, rest.head? = some c → Ends state c) :
    reference (temp ++ rest) = flushed state temp ++ reference rest := by
  cases state
  case word =>
      rw [flushed_word shape.1]
      rcases List.exists_cons_of_ne_nil shape.1 with ⟨c, word, rfl⟩
      have letters : ∀ d ∈ c :: word, isLetter d = true :=
        fun d member => isLetter_of_isWordChar (shape.2 d member) (legal d member)
      apply reference_word (letters c List.mem_cons_self)
      · intro d member
        rw [isLetterOrDigit, letters d (List.mem_cons_of_mem c member), Bool.true_or]
      · exact fun d head => (ends d head).1 rfl
  case number =>
      rw [flushed_number shape.1]
      rcases List.exists_cons_of_ne_nil shape.1 with ⟨c, digits, rfl⟩
      have all : ∀ d ∈ c :: digits, isDigit d = true := by
        intro d member
        simpa [isDigit] using shape.2 d member
      apply reference_number (all c List.mem_cons_self)
      · exact fun d member => all d (List.mem_cons_of_mem c member)
      · exact fun d head => (ends d head).2.1 rfl
  case less =>
      cases shape
      apply reference_single rfl rfl rfl (by decide)
      intro d head
      exact itemDict_less ((ends d head).2.2 rfl).1 ((ends d head).2.2 rfl).2
  case unequal =>
      cases shape
      rw [List.cons_append, reference_cons]
      rfl
  case colon => exact absurd rfl noColon
  case start => cases shape; rfl
  case greater => cases shape; rfl
  all_goals
    cases shape
    apply reference_single rfl rfl rfl (by decide)
    intro d _
    simp [itemDict, itemList, List.lookup_cons]

private theorem reference_closed {state : LexState} {temp : List Char} (shape : Shape state temp)
    (open_ : state ∈ [LexState.start, .less, .greater, .colon]) (rest : List Char) :
    reference (temp ++ '=' :: rest) = flushed state (temp ++ ['=']) ++ reference rest := by
  have equal : reference ('=' :: rest) = (['='], 12) :: reference rest := by
    apply reference_single rfl rfl rfl (by decide)
    intro d _
    simp [itemDict, itemList, List.lookup_cons]
  simp only [List.mem_cons, List.not_mem_nil, or_false] at open_
  rcases open_ with rfl | rfl | rfl | rfl
  · cases shape
    exact equal
  · cases shape
    rw [List.cons_append, reference_cons]
    rfl
  · cases shape
    exact equal
  · cases shape
    rw [List.cons_append, reference_cons]
    rfl

/-! ### Plain texts are tokenised by longest match -/

/-- What the state tells about the character in front. -/
structure Linked (prev : Char) (state : LexState) (rest : List Char) : Prop where
  word : state = .word → isLetter prev = true
  less : prev = '<' → state = .less
  colon : state = .colon → rest.head? = some '='

/-- A sign or letter that begins a lexeme links to its state. -/
theorem linked_begins {c : Char} {after : LexState} {rest : List Char}
    (starts : begins c = some after) (legal : inAlphabet c = true)
    (colons : ColonsPaired (c :: rest)) : Linked c after rest where
  word := by
    intro word
    subst word
    have shape := shape_of_begins starts
    exact isLetter_of_isWordChar (shape.2 c (List.mem_singleton.mpr rfl)) legal
  less := by
    intro less
    subst less
    cases starts
    rfl
  colon := by
    intro colon
    subst colon
    have shape := shape_of_begins starts
    cases shape
    exact colons.1 rfl

/-- The character that a move does not take as a continuation ends the pending lexeme. -/
theorem ends_of_breaks {prev c : Char} {state : LexState} {rest : List Char}
    (linked : Linked prev state (c :: rest)) (breaks : grows state c = none)
    (open_ : ¬ closes state c)
    (plain : ¬ (isLetter prev = true ∧ isDigit c = true)) : Ends state c := by
  refine ⟨?_, ?_, ?_⟩
  · intro word
    subst word
    have noDigit : isDigit c = false :=
      Bool.eq_false_iff.mpr fun digit => plain ⟨linked.word rfl, digit⟩
    have noLetter : isLetter c = false := by
      apply Bool.eq_false_iff.mpr
      intro letter
      rw [grows, if_pos (isWordChar_of_isLetter letter)] at breaks
      cases breaks
    rw [isLetterOrDigit, noLetter, noDigit]
    rfl
  · intro number
    subst number
    apply Bool.eq_false_iff.mpr
    intro digit
    simp only [isDigit, Bool.and_eq_true, decide_eq_true_eq] at digit
    rw [grows, if_pos digit] at breaks
    cases breaks
  · intro less
    subst less
    constructor
    · intro greater
      rw [grows, if_pos greater] at breaks
      cases breaks
    · intro equal
      exact open_ ⟨equal, by decide⟩

/-- The character in front of a colon's `=` is never anything else. -/
theorem Linked.noColon {prev c : Char} {state : LexState} {rest : List Char}
    (linked : Linked prev state (c :: rest)) (open_ : ¬ closes state c) : state ≠ .colon := by
  intro colon
  have equal := linked.colon colon
  rw [List.head?_cons, Option.some.injEq] at equal
  exact open_ ⟨equal, by rw [colon]; decide⟩

private theorem begins_of_inAlphabet {c : Char} (legal : inAlphabet c = true) :
    (∃ target, begins c = some target) ∨ c = ' ' ∨ c = '\n' ∨ c = '>' := by
  simp only [inAlphabet, Bool.or_eq_true] at legal
  rcases legal with (letter | digit) | listed
  · have wordChar : isWordChar c = true := isWordChar_of_isLetter letter
    exact Or.inl ⟨.word, by rw [begins, if_pos wordChar]⟩
  · simp only [isDigit, Bool.and_eq_true, decide_eq_true_eq] at digit
    left
    by_cases wordChar : isWordChar c = true
    · exact ⟨.word, by rw [begins, if_pos wordChar]⟩
    · exact ⟨.number, by rw [begins, if_neg wordChar, if_pos digit]⟩
  · have every : ['=', '<', '>', '-', '*', ':', '(', ')', ';', ' ', '\n'].all (fun d =>
        (begins d).isSome = true ∨ d = ' ' ∨ d = '\n' ∨ d = '>') = true := by
      decide
    have here := List.all_eq_true.mp every c (List.contains_iff_mem.mp listed)
    rcases of_decide_eq_true here with starts | separator
    · exact Or.inl (Option.isSome_iff_exists.mp starts)
    · exact Or.inr separator

private theorem linked_grown {c : Char} {state after : LexState} {rest : List Char}
    (goesOn : grows state c = some after) (legal : inAlphabet c = true) :
    Linked c after rest := by
  unfold grows at goesOn
  split at goesOn
  · split at goesOn
    · rename_i wordChar
      cases goesOn
      refine ⟨fun _ => isLetter_of_isWordChar wordChar legal, ?_, nofun⟩
      intro less
      subst less
      cases wordChar
    · cases goesOn
  · split at goesOn
    · rename_i digit
      cases goesOn
      refine ⟨nofun, ?_, nofun⟩
      intro less
      subst less
      exact absurd digit.2 (by decide)
    · cases goesOn
  · split at goesOn
    · rename_i greater
      cases goesOn
      subst greater
      exact ⟨nofun, fun less => absurd less (by decide), nofun⟩
    · cases goesOn
  · cases goesOn

private theorem reference_blank (rest : List Char) : reference (' ' :: rest) = reference rest := by
  have alone : ∀ d, rest.head? = some d → itemDict [' ', d] = none := by
    intro d _
    simp [itemDict, itemList, List.lookup_cons]
  rw [reference_cons, firstToken_single rfl rfl (by decide) alone]
  rfl

theorem Moves.reference {prev c : Char} {state after : LexState} {temp pending rest : List Char}
    {rows : List (List Char × Nat)} (moves : Moves state temp c after pending rows)
    (shape : Shape state temp) (linked : Linked prev state (c :: rest))
    (legalTemp : ∀ d ∈ temp, inAlphabet d = true) (legal : inAlphabet c = true)
    (colons : ColonsPaired (c :: rest))
    (plain : ¬ (isLetter prev = true ∧ isDigit c = true) ∧ (c = '>' → prev = '<')) :
    Linked c after rest ∧ (∀ d ∈ pending, inAlphabet d = true) ∧
      LabPy.reference (temp ++ c :: rest) = rows ++ LabPy.reference (pending ++ rest) := by
  have noPending : ∀ d ∈ ([] : List Char), inAlphabet d = true :=
    fun d member => absurd member List.not_mem_nil
  have reset {target : LexState} (fresh : target = .start ∨ target = .greater) (noLess : c ≠ '<') :
      Linked c target rest := by
    rcases fresh with rfl | rfl
    · exact ⟨nofun, fun less => absurd less noLess, nofun⟩
    · exact ⟨nofun, fun less => absurd less noLess, nofun⟩
  have separated (breaks : grows state c = none) (open_ : ¬ closes state c) :
      LabPy.reference (temp ++ c :: rest) = flushed state temp ++ LabPy.reference (c :: rest) := by
    apply reference_flushed shape legalTemp (linked.noColon open_)
    intro d head
    rw [List.head?_cons, Option.some.injEq] at head
    subst head
    exact ends_of_breaks linked breaks open_ plain.1
  cases moves with
  | ignored illegal noBreak =>
      rcases begins_of_inAlphabet legal with ⟨target, starts⟩ | blank | newline | greater
      · rw [illegal] at starts
        cases starts
      · exact absurd blank noBreak.1
      · exact absurd newline noBreak.2.1
      · exact absurd greater noBreak.2.2
  | grown goesOn =>
      refine ⟨linked_grown goesOn legal, ?_, ?_⟩
      · intro d member
        rcases List.mem_append.mp member with earlier | last
        · exact legalTemp d earlier
        · exact List.mem_singleton.mp last ▸ legal
      · rw [List.append_assoc, List.singleton_append, List.nil_append]
  | closed completes =>
      rcases completes with ⟨rfl, open_⟩
      exact ⟨reset (Or.inl rfl) (by decide), noPending, reference_closed shape open_ rest⟩
  | begun starts breaks open_ =>
      refine ⟨linked_begins starts legal colons, ?_, separated breaks open_⟩
      intro d member
      exact List.mem_singleton.mp member ▸ legal
  | blank isBlank =>
      subst isBlank
      refine ⟨reset (Or.inl rfl) (by decide), noPending, ?_⟩
      rw [separated (grows_eq_none (fun _ => rfl) (fun _ => by decide) (fun _ => by decide))
        (fun completes => absurd completes.1 (by decide)), reference_blank, List.nil_append]
  | dropped isGreater notLess => exact absurd (linked.less (plain.2 isGreater)) notLess
  | newline isNewline =>
      subst isNewline
      refine ⟨reset (Or.inl rfl) (by decide), noPending, ?_⟩
      rw [separated (grows_eq_none (fun _ => rfl) (fun _ => by decide) (fun _ => by decide))
        (fun completes => absurd completes.1 (by decide)), reference_cons, List.append_assoc]
      rfl

/-- The automaton in the middle of a plain text: what is printed and what the reference makes
of the pending lexeme and the rest are together the same at every character. -/
theorem printed_reference {lexer : Lexer} {prev : Char} {rest : List Char}
    (shape : Shape lexer.state lexer.temp) (linked : Linked prev lexer.state rest)
    (legal : ∀ c ∈ lexer.temp ++ rest, inAlphabet c = true) (colons : ColonsPaired rest)
    (plain : PlainAfter prev rest) :
    ((rest.foldl Lexer.next lexer).endWord.callPrint ['E', 'O', 'F'] 25).printed =
      lexer.printed ++ reference (lexer.temp ++ rest) := by
  induction rest generalizing lexer prev with
  | nil =>
      have noColon : lexer.state ≠ .colon := by
        intro colon
        cases linked.colon colon
      have legalTemp : ∀ c ∈ lexer.temp, inAlphabet c = true :=
        fun c member => legal c (List.mem_append_left _ member)
      rw [reference_flushed shape legalTemp noColon (fun c head => by cases head),
        List.foldl_nil, (printed_last lexer).printed, reference]
  | cons c rest ih =>
      rcases plain with ⟨noDigit, greaterAfterLess, plainRest⟩
      rcases next_moves shape c with ⟨rows, moves, prints⟩
      have legalTemp : ∀ d ∈ lexer.temp, inAlphabet d = true :=
        fun d member => legal d (List.mem_append_left _ member)
      have legalHere : inAlphabet c = true :=
        legal c (List.mem_append_right _ List.mem_cons_self)
      have legalRest : ∀ d ∈ rest, inAlphabet d = true :=
        fun d member => legal d (List.mem_append_right _ (List.mem_cons_of_mem c member))
      -- Each move prints the tokens that the reference puts in front of the new pending lexeme.
      have step : Linked c (lexer.next c).state rest ∧
          (∀ d ∈ (lexer.next c).temp, inAlphabet d = true) ∧
          reference (lexer.temp ++ c :: rest) =
            rows ++ reference ((lexer.next c).temp ++ rest) :=
        moves.reference shape linked legalTemp legalHere colons ⟨noDigit, greaterAfterLess⟩
      rcases step with ⟨linkedAfter, legalAfter, tokens⟩
      have legalBoth : ∀ d ∈ (lexer.next c).temp ++ rest, inAlphabet d = true := by
        intro d member
        rcases List.mem_append.mp member with pending | later
        · exact legalAfter d pending
        · exact legalRest d later
      rw [List.foldl_cons, ih (moves.shape shape) linkedAfter legalBoth colons.2 plainRest,
        prints.printed, tokens, List.append_assoc]

/-! ### Other texts are not -/

theorem plainAfter_append {prev : Char} {first second : List Char} :
    PlainAfter prev (first ++ second) ↔
      PlainAfter prev first ∧ PlainAfter (first.getLastD prev) second := by
  induction first generalizing prev with
  | nil => exact (and_iff_right trivial).symm
  | cons c first ih =>
      have last : (c :: first).getLastD prev = first.getLastD c := by
        cases first <;> rfl
      rw [List.cons_append, PlainAfter, PlainAfter, ih, last]
      exact ⟨fun all => ⟨⟨all.1, all.2.1, all.2.2.1⟩, all.2.2.2⟩,
        fun all => ⟨all.1.1, all.1.2.1, all.1.2.2, all.2⟩⟩

/-- Behind a character that is no letter, and behind a letter where no digit follows, a text
that is plain behind a blank is plain. -/
theorem PlainAfter.of_blank {prev : Char} {text : List Char} (plain : PlainAfter ' ' text)
    (boundary : ∀ c, text.head? = some c → ¬ (isLetter prev = true ∧ isDigit c = true)) :
    PlainAfter prev text := by
  cases text with
  | nil => trivial
  | cons c rest =>
      refine ⟨boundary c rfl, ?_, plain.2.2⟩
      intro greater
      exact absurd (plain.2.1 greater) (by decide)

private theorem plainAfter_of_noDigit {prev : Char} {word : List Char}
    (all : ∀ c ∈ word, isDigit c = false ∧ c ≠ '>') : PlainAfter prev word := by
  induction word generalizing prev with
  | nil => trivial
  | cons c rest ih =>
      rcases all c List.mem_cons_self with ⟨noDigit, noGreater⟩
      refine ⟨?_, fun greater => absurd greater noGreater,
        ih fun d member => all d (List.mem_cons_of_mem c member)⟩
      rw [noDigit]
      exact fun both => absurd both.2 (by decide)

private theorem plainAfter_of_digits {prev : Char} {word : List Char}
    (noLetter : isLetter prev = false)
    (all : ∀ c ∈ word, isDigit c = true) : PlainAfter prev word := by
  induction word generalizing prev with
  | nil => trivial
  | cons c rest ih =>
      have digit := all c List.mem_cons_self
      refine ⟨?_, ?_, ih (isLetter_eq_false digit)
        fun d member => all d (List.mem_cons_of_mem c member)⟩
      · rw [noLetter]
        exact fun both => absurd both.1 (by decide)
      · intro greater
        rw [greater] at digit
        cases digit

/-- The automaton prints no lexeme in which a digit follows a letter, and none that begins
with `>`. -/
theorem Lexeme.plain {word : List Char} (lexeme : Lexeme word) : PlainAfter ' ' word := by
  cases lexeme with
  | word nonempty all =>
      apply plainAfter_of_noDigit
      intro c member
      have wordChar := all c member
      constructor
      · apply Bool.eq_false_iff.mpr
        intro digit
        simp only [isDigit, Bool.and_eq_true, decide_eq_true_eq] at digit
        simp only [isWordChar, Bool.and_eq_true, decide_eq_true_eq] at wordChar
        exact absurd (Char.le_trans wordChar.1 digit.2) (by decide)
      · intro greater
        rw [greater] at wordChar
        cases wordChar
  | number nonempty all =>
      apply plainAfter_of_digits rfl
      intro c member
      simpa [isDigit] using all c member
  | sign listed =>
      have every : ∀ sign ∈ signs, PlainAfter ' ' sign := by
        simp [signs, PlainAfter, isLetter, isDigit]
      exact every word listed

/-- No keyword begins with another character than a letter, and no sign ends with one. -/
theorem itemDict_last {c : Char} {word : List Char} {code : Nat} (noLetter : isLetter c = false)
    (listed : itemDict (c :: word) = some code) : isLetter (word.getLastD c) = false := by
  have every : ∀ row ∈ itemList, isLetter (row.1.headD ' ') = false →
      isLetter (row.1.getLastD ' ') = false := by decide
  rcases List.lookup_eq_some_iff.mp listed with ⟨front, back, split, _⟩
  have member : (c :: word, code) ∈ itemList := by
    rw [split]
    exact List.mem_append_right _ List.mem_cons_self
  have last := every _ member noLetter
  cases word <;> exact last

/-- The token of the reference in front of a text: the text it covers is its lexeme, or it is
one blank or newline; and where it ends with a letter no digit follows. -/
structure Covers (c : Char) (rest covered : List Char)
    (found : Option (List Char × Nat) × List Char) : Prop where
  split : c :: rest = covered ++ found.2
  token : c ≠ '>' ∧ covered = [c] ∨ ∃ code, found.1 = some (covered, code)
  boundary : ∀ d, found.2.head? = some d →
    ¬ (isLetter (covered.getLastD ' ') = true ∧ isDigit d = true)

private theorem covers_single {c : Char} (rest : List Char) (noLetter : isLetter c = false) :
    Covers c rest [c] ((itemDict [c]).map fun code => ([c], code), rest) where
  split := rfl
  token := by
    cases listed : itemDict [c] with
    | none =>
        left
        refine ⟨?_, rfl⟩
        intro greater
        rw [greater] at listed
        cases listed
    | some code => exact Or.inr ⟨code, rfl⟩
  boundary := by
    intro d _ both
    rw [List.getLastD_cons, List.getLastD_nil, noLetter] at both
    exact absurd both.1 (by decide)

private theorem dropWhile_head {test : Char → Bool} {text : List Char} {c : Char}
    (head : (text.dropWhile test).head? = some c) : test c = false := by
  have stops := List.head?_dropWhile_not test text
  rw [head] at stops
  exact stops

private theorem firstToken_covers (c : Char) (rest : List Char) :
    ∃ covered, Covers c rest covered (firstToken c rest) := by
  unfold firstToken
  split
  · refine ⟨c :: rest.takeWhile isLetterOrDigit, ?_, Or.inr ⟨_, rfl⟩, ?_⟩
    · rw [List.cons_append, List.takeWhile_append_dropWhile]
    · intro d head both
      have stops : isLetterOrDigit d = false := dropWhile_head head
      rw [isLetterOrDigit, both.2, Bool.or_true] at stops
      cases stops
  rename_i noLetter
  have noLetter : isLetter c = false := Bool.eq_false_iff.mpr noLetter
  split
  · rename_i digit
    refine ⟨c :: rest.takeWhile isDigit, ?_, Or.inr ⟨_, rfl⟩, ?_⟩
    · rw [List.cons_append, List.takeWhile_append_dropWhile]
    · intro d head both
      have stops : isDigit d = false := dropWhile_head head
      rw [both.2] at stops
      cases stops
  split
  · rename_i newline
    refine ⟨[c], rfl, Or.inl ⟨?_, rfl⟩, ?_⟩
    · rw [newline]
      decide
    · intro d _ both
      rw [List.getLastD_cons, List.getLastD_nil, noLetter] at both
      exact absurd both.1 (by decide)
  · dsimp only
    split
    · exact ⟨[c], covers_single [] noLetter⟩
    · rename_i d others
      split
      · rename_i code listed
        refine ⟨[c, d], rfl, Or.inr ⟨code, rfl⟩, ?_⟩
        intro e _ both
        have last : isLetter d = false := itemDict_last noLetter listed
        rw [List.getLastD_cons, List.getLastD_cons, List.getLastD_nil, last] at both
        exact absurd both.1 (by decide)
      · exact ⟨[c], covers_single (d :: others) noLetter⟩

/-- Where every token of the reference is plain, so is the text. -/
theorem plainAfter_of_reference {text : List Char}
    (plain : ∀ row ∈ reference text, PlainAfter ' ' row.1) : PlainAfter ' ' text := by
  induction length : text.length using Nat.strong_induction_on generalizing text with
  | h size ih =>
      cases text with
      | nil => trivial
      | cons c rest =>
          rcases firstToken_covers c rest with ⟨covered, split, token, boundary⟩
          rw [reference_cons] at plain
          have shorter : (firstToken c rest).2.length < size := by
            have bound := firstToken_length c rest
            rw [← length, List.length_cons]
            omega
          have later : PlainAfter ' ' (firstToken c rest).2 :=
            ih _ shorter (fun row member => plain row (List.mem_append_right _ member)) rfl
          have here : PlainAfter ' ' covered := by
            rcases token with single | ⟨code, found⟩
            · rw [single.2]
              exact ⟨fun both => absurd both.1 (by decide),
                fun greater => absurd greater single.1, trivial⟩
            · apply plain (covered, code) (List.mem_append_left _ _)
              rw [found]
              exact List.mem_singleton.mpr rfl
          rw [split, plainAfter_append]
          exact ⟨here, later.of_blank boundary⟩

/-- On texts of the language whose colons are paired, the automaton prints the tokens of the
longest-match reference if and only if no digit comes directly behind a letter and every `>`
comes directly behind a `<`. -/
theorem lexMain_reference_iff (text : List Char) (legal : ∀ c ∈ text, inAlphabet c = true)
    (colons : ColonsPaired text) :
    (lexMain text).printed = reference text ↔ PlainAfter ' ' text := by
  constructor
  · intro same
    apply plainAfter_of_reference
    intro row member
    rw [← same] at member
    exact ((lexMain_lexemes text).1 row member).plain
  · intro plain
    have linked : Linked ' ' initLexer.state text := ⟨nofun, nofun, nofun⟩
    exact printed_reference rfl linked legal colons plain

/-- The text `a<=1;` and a newline. -/
theorem comparison_reference :
    (lexMain ['a', '<', '=', '1', ';', '\n']).printed =
      reference ['a', '<', '=', '1', ';', '\n'] :=
  (lexMain_reference_iff _ (List.all_eq_true.mp (by decide)) (by simp [ColonsPaired])).mpr
    (by simp [PlainAfter, isLetter, isDigit])

/-- The identifier `a1` is printed as two tokens, and of the comparison `1>2` the sign is lost. -/
theorem identifier_and_greater_mistaken :
    ((∀ c ∈ ['a', '1'], inAlphabet c = true) ∧ ColonsPaired ['a', '1'] ∧
      (lexMain ['a', '1']).printed ≠ reference ['a', '1']) ∧
    ((∀ c ∈ ['1', '>', '2'], inAlphabet c = true) ∧ ColonsPaired ['1', '>', '2'] ∧
      (lexMain ['1', '>', '2']).printed ≠ reference ['1', '>', '2']) := by
  have identifier : reference ['a', '1'] = [(['a', '1'], 10), (['E', 'O', 'F'], 25)] := by
    simp [reference, firstToken, isLetter, isLetterOrDigit, isDigit, itemDict, itemList,
      List.lookup_cons, List.lookup_nil, token]
  have greater : reference ['1', '>', '2'] =
      [(['1'], 11), (['>'], 17), (['2'], 11), (['E', 'O', 'F'], 25)] := by
    simp [reference, firstToken, isLetter, isDigit, itemDict, itemList, List.lookup_cons, List.lookup_nil, constants]
  refine ⟨⟨List.all_eq_true.mp (by decide), by simp [ColonsPaired], ?_⟩,
    List.all_eq_true.mp (by decide), by simp [ColonsPaired], ?_⟩
  · rw [identifier]
    decide
  · rw [greater]
    decide

end OsCompiler.LabPy
