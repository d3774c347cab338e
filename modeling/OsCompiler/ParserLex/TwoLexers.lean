/-
The scanner `lab_lex.c` and the scanner `lex.py`, which are written for one language:
on which texts both print the same codes.

Each cuts a text otherwise than by longest match in places of its own. No such place makes
up for another one, so that the two agree on the texts that both tokenise by longest match
and on no others.
-/

import OsCompiler.LabPy.TokenCount
import OsCompiler.ParserLex.Tokenisation

namespace OsCompiler.ParserLex

open LabPy (inAlphabet isLetter isDigit itemDict itemList ColonsPaired PlainAfter GreaterAfter)

def codesOf (rows : List (List Char × Nat)) : List Item := rows.map fun row => .code row.2

private theorem codesOf_append (first second : List (List Char × Nat)) :
    codesOf (first ++ second) = codesOf first ++ codesOf second :=
  List.map_append

/-! ### One reference for both -/

theorem itemList_split : itemList = keywords ++ operators.dropLast := by decide

private theorem operators_split : operators = operators.dropLast ++ [(['\n'], 24)] := by decide

/-- `ItemDict` holds the keywords and the operators but for the newline. -/
theorem itemDict_eq {word : List Char} (noNewline : word ≠ ['\n']) :
    itemDict word = (keywords.lookup word).or (operators.lookup word) := by
  have last : List.lookup word [(['\n'], 24)] = none := by
    rw [List.lookup_cons, beq_false_of_ne noNewline]
    rfl
  rw [itemDict, itemList_split, List.lookup_append, operators_split, List.lookup_append, last,
    Option.or_none]
  rfl

private theorem lookup_none_of_first {table : List (List Char × Nat)} (test : Char → Bool)
    {c : Char}
    (firsts : ∀ entry ∈ table, test (entry.1.headD nul) = true) (fails : test c = false)
    (word : List Char) : table.lookup (c :: word) = none := by
  cases found : table.lookup (c :: word) with
  | none => rfl
  | some num =>
      have holds := firsts _ (mem_of_lookup found)
      rw [List.headD_cons, fails] at holds
      cases holds

private theorem itemDict_word {c : Char} (isLetter : letter c = true) (word : List Char) :
    (itemDict (c :: word)).getD LabPy.token = wordCode (c :: word) := by
  have noOperator : operators.lookup (c :: word) = none :=
    lookup_none_of_first (fun d => !letter d) (by decide) (by rw [isLetter]; rfl) word
  have noNewline : c :: word ≠ ['\n'] := by
    intro same
    rw [(List.cons.inj same).1] at isLetter
    cases isLetter
  rw [itemDict_eq noNewline, noOperator, Option.or_none]
  rfl

theorem itemDict_operator {c : Char} {word : List Char} (noLetter : letter c = false)
    (noNewline : c :: word ≠ ['\n']) : itemDict (c :: word) = operators.lookup (c :: word) := by
  have noKeyword : keywords.lookup (c :: word) = none :=
    lookup_none_of_first letter (by decide) noLetter word
  rw [itemDict_eq noNewline, noKeyword, Option.none_or]

/-- A sign of the language that is no token by itself is a `:`. -/
theorem lookup_sign {c : Char} (legal : inAlphabet c = true) (noLetter : letter c = false)
    (noDigit : digit c = false) (noBlank : c ≠ ' ') (noColon : c ≠ ':') :
    ∃ num, operators.lookup [c] = some num := by
  have listed : c ∈ ['=', '<', '>', '-', '*', ':', '(', ')', ';', ' ', '\n'] := by
    rw [inAlphabet, show isLetter c = false from noLetter, show isDigit c = false from noDigit]
      at legal
    exact List.contains_iff_mem.mp legal
  have every : ['=', '<', '>', '-', '*', ':', '(', ')', ';', ' ', '\n'].all
      (fun d => d = ' ' ∨ d = ':' ∨ (operators.lookup [d]).isSome = true) = true := by
    decide
  have here := of_decide_eq_true (List.all_eq_true.mp every c listed)
  exact Option.isSome_iff_exists.mp ((here.resolve_left noBlank).resolve_left noColon)

/-- The first tokens of both references are one token. -/
theorem firstToken_agrees {c : Char} {rest : List Char} (legal : inAlphabet c = true)
    (colon : c = ':' → rest.head? = some '=') :
    codesOf (LabPy.firstToken c rest).1.toList = (firstToken c rest).1 ∧
      (LabPy.firstToken c rest).2 = (firstToken c rest).2 := by
  by_cases isWord : letter c = true
  · rw [LabPy.firstToken, firstToken, if_pos isWord, if_pos (show isLetter c = true from isWord)]
    refine ⟨?_, rfl⟩
    have code := itemDict_word isWord (rest.takeWhile wordChar)
    rw [← code]
    rfl
  have noLetter : letter c = false := Bool.eq_false_iff.mpr isWord
  by_cases isNumber : digit c = true
  · rw [LabPy.firstToken, firstToken, if_neg isWord, if_pos isNumber,
      if_neg (show ¬ isLetter c = true from isWord), if_pos (show isDigit c = true from isNumber)]
    exact ⟨rfl, rfl⟩
  have noDigit : digit c = false := Bool.eq_false_iff.mpr isNumber
  by_cases blank : c = ' '
  · subst blank
    have alone : ∀ d, rest.head? = some d → itemDict [' ', d] = none := by
      intro d _
      rw [itemDict_operator noLetter (by simp)]
      exact lookup_pair_none d (by decide)
    rw [LabPy.firstToken_single rfl rfl (by decide) alone, firstToken]
    exact ⟨rfl, rfl⟩
  by_cases newline : c = '\n'
  · subst newline
    rw [firstToken_sign rfl rfl (by decide), firstOperator_single fun d _ =>
      lookup_pair_none d (by decide)]
    exact ⟨rfl, rfl⟩
  have noNewline (word : List Char) : c :: word ≠ ['\n'] :=
    fun same => newline (List.cons.inj same).1
  have single (noColon : c ≠ ':') : ∃ num, operators.lookup [c] = some num :=
    lookup_sign legal noLetter noDigit blank noColon
  rw [firstToken_sign noLetter noDigit blank, LabPy.firstToken,
    if_neg (show ¬ isLetter c = true from isWord),
    if_neg (show ¬ isDigit c = true from isNumber), if_neg newline,
    itemDict_operator noLetter (noNewline [])]
  unfold firstOperator
  dsimp only
  cases rest with
  | nil =>
      rcases single (fun isColon => absurd (colon isColon) (by simp)) with ⟨num, found⟩
      rw [found]
      exact ⟨rfl, rfl⟩
  | cons d others =>
      dsimp only
      rw [itemDict_operator noLetter (noNewline [d])]
      cases pair : operators.lookup [c, d] with
      | some num => exact ⟨rfl, rfl⟩
      | none =>
          have noColon : c ≠ ':' := by
            intro isColon
            have equal := colon isColon
            rw [List.head?_cons, Option.some.injEq] at equal
            rw [isColon, equal] at pair
            cases pair
          rcases single noColon with ⟨num, found⟩
          rw [found]
          exact ⟨rfl, rfl⟩

theorem ColonsPaired.right {front text : List Char} (paired : ColonsPaired (front ++ text)) :
    ColonsPaired text := by
  induction front with
  | nil => exact paired
  | cons c front ih => exact ih paired.2

/-- What is left behind a cut is a text of the language again. -/
theorem behind_firstToken {c : Char} {rest : List Char}
    (legal : ∀ d ∈ c :: rest, inAlphabet d = true) (colons : ColonsPaired (c :: rest)) :
    (∀ d ∈ (firstToken c rest).2, inAlphabet d = true) ∧ ColonsPaired (firstToken c rest).2 := by
  rcases firstToken_consumes c rest with ⟨body, split, _⟩
  constructor
  · intro d member
    apply legal d
    rw [split]
    exact List.mem_cons_of_mem c (List.mem_append_right body member)
  · have later := colons.2
    rw [split] at later
    exact ColonsPaired.right later

/-- Both references make the same of a text of the language; that of `lex.py` ends in the code
of the end of the file. -/
theorem reference_agrees {text : List Char} (legal : ∀ c ∈ text, inAlphabet c = true)
    (colons : ColonsPaired text) :
    codesOf (LabPy.reference text) = reference text ++ [.code 25] := by
  induction text using referenceCut.induction with
  | empty =>
      rw [LabPy.reference, reference, referenceCut.run_nil]
      rfl
  | step c rest ih =>
      rcases firstToken_agrees (legal c List.mem_cons_self) colons.1 with ⟨shown, left⟩
      rcases behind_firstToken legal colons with ⟨legalLeft, colonsLeft⟩
      rw [LabPy.reference_cons, codesOf_append, shown, left, reference_cons, List.append_assoc]
      exact congrArg _ (ih legalLeft colonsLeft)

/-! ### How many lines each prints -/

/-- `LexAnalyze` shows no more than there are tokens and illegal characters. -/
theorem printedItems_length_le (text : List Char) :
    (printedItems text).length ≤ (reference text).length := by
  have fewer : (printedItems text).countP (fun _ => true) ≤
      (reference text).countP (fun _ => true) := by
    apply Tokeniser.countP_run_le
    intro c rest
    show ∃ shown, reference (c :: rest) = shown ++ reference (firstPrinted c rest).2 ∧
      (firstPrinted c rest).1.countP _ ≤ shown.countP _
    rcases cut_cases c rest with
      rfl | ⟨rfl, others, rfl⟩ | ⟨rfl, alone⟩ | ⟨noEof, noStar, noColon⟩
    · refine ⟨reference (eof :: rest), ?_, ?_⟩
      · show _ = _ ++ reference []
        rw [reference, reference, referenceCut.run_nil, List.append_nil]
      · rw [reference_eof, List.countP_cons]
        exact Nat.le_add_left 1 _
    · exact ⟨[.code 19, .code 12], reference_star others, Nat.le_refl _⟩
    · rw [firstPrinted_colon alone]
      exact ⟨[.illegal], reference_colon alone, Nat.zero_le _⟩
    · rw [firstPrinted_else noEof noStar noColon]
      exact ⟨(firstToken c rest).1, reference_cons c rest, Nat.le_refl _⟩
  simpa using fewer

/-! ### The texts in which `LexAnalyze` shows no `>` and no `>=` -/

theorem greaterAfter_of_noGreater {text : List Char} (none : '>' ∉ text) (prev : Char) :
    GreaterAfter prev text := by
  induction text generalizing prev with
  | nil => trivial
  | cons c rest ih =>
      rw [List.mem_cons, not_or] at none
      exact ⟨fun greater => absurd greater.symm none.1, ih none.2 c⟩

private theorem greaterAfter_append {prev : Char} {first second : List Char}
    (before : GreaterAfter prev first) (behind : ∀ last, GreaterAfter last second) :
    GreaterAfter prev (first ++ second) := by
  induction first generalizing prev with
  | nil => exact behind prev
  | cons c first ih => exact ⟨before.1, ih before.2⟩

private theorem lookup_greater {c : Char} {num : Nat}
    (found : operators.lookup [c, '>'] = some num) :
    c = '<' := by
  have every : ∀ entry ∈ operators, entry.1.getD 1 nul = '>' → entry.1.headD nul = '<' := by
    decide
  exact every _ (mem_of_lookup found) rfl

/-- Inside a token, a `>` comes directly behind a `<`. -/
theorem firstToken_body (c : Char) (rest : List Char) :
    ∃ body, rest = body ++ (firstToken c rest).2 ∧ GreaterAfter c body := by
  have noWord {test : Char → Bool} (fails : test '>' = false) :
      GreaterAfter c (rest.takeWhile test) := by
    apply greaterAfter_of_noGreater
    intro member
    rw [List.mem_takeWhile_imp member] at fails
    cases fails
  unfold firstToken
  split
  · exact ⟨rest.takeWhile wordChar, List.takeWhile_append_dropWhile.symm, noWord rfl⟩
  split
  · exact ⟨rest.takeWhile digit, List.takeWhile_append_dropWhile.symm, noWord rfl⟩
  split
  · exact ⟨[], rfl, trivial⟩
  unfold firstOperator
  dsimp only
  cases rest with
  | nil => exact ⟨[], rfl, trivial⟩
  | cons d others =>
      dsimp only
      cases pair : operators.lookup [c, d] with
      | none => exact ⟨[], rfl, trivial⟩
      | some num =>
          refine ⟨[d], rfl, ?_, trivial⟩
          intro greater
          rw [greater] at pair
          exact lookup_greater pair

private theorem firstToken_greater (rest : List Char) :
    (firstToken '>' rest).1 = [.code 16] ∨ (firstToken '>' rest).1 = [.code 17] := by
  rw [firstToken_sign rfl rfl (by decide)]
  unfold firstOperator
  dsimp only
  cases rest with
  | nil => exact Or.inr rfl
  | cons d others =>
      dsimp only
      cases pair : operators.lookup ['>', d] with
      | none => exact Or.inr rfl
      | some num =>
          have every : ∀ entry ∈ operators, entry.1.head? = some '>' → entry.1.length = 2 →
              entry.2 = 16 := by
            decide
          rw [show num = 16 from every _ (mem_of_lookup pair) rfl rfl]
          exact Or.inl rfl

/-- Where the calls of `LexAnalyze` show neither `>` nor `>=`, every `>` belongs to a `<>`. -/
theorem greaterAfter_of_printed {text : List Char} (noEof : eof ∉ text)
    (never : ∀ num, .code num ∈ printedItems text → num ≠ 16 ∧ num ≠ 17) (prev : Char) :
    GreaterAfter prev text := by
  induction text using printedCut.induction generalizing prev with
  | empty => trivial
  | step c rest ih =>
      rw [printedItems_cons] at never
      have here : ∀ num, .code num ∈ (firstPrinted c rest).1 → num ≠ 16 ∧ num ≠ 17 :=
        fun num member => never num (List.mem_append_left _ member)
      change eof ∉ (firstPrinted c rest).2 → (∀ num,
        .code num ∈ printedItems (firstPrinted c rest).2 → _) → ∀ last, _ at ih
      have later (inside : eof ∉ (firstPrinted c rest).2) (last : Char) :
          GreaterAfter last (firstPrinted c rest).2 :=
        ih inside (fun num member => never num (List.mem_append_right _ member)) last
      rw [List.mem_cons, not_or] at noEof
      rcases cut_cases c rest with
        rfl | ⟨rfl, others, rfl⟩ | ⟨rfl, alone⟩ | ⟨notEof, noStar, noColon⟩
      · exact absurd rfl noEof.1
      · have left : (firstPrinted '*' ('=' :: others)).2 = others := by
          rw [firstPrinted, if_neg (by decide), if_pos ⟨rfl, rfl⟩]
          rfl
        rw [left] at later
        have behind := later (fun member => noEof.2 (List.mem_cons_of_mem _ member)) '='
        exact ⟨fun same => absurd same (by decide), fun same => absurd same (by decide), behind⟩
      · rw [firstPrinted_colon alone] at later
        exact ⟨fun same => absurd same (by decide), later noEof.2 ':'⟩
      · rw [firstPrinted_else notEof noStar noColon] at here later
        rcases firstToken_body c rest with ⟨body, split, inside⟩
        refine ⟨?_, ?_⟩
        · rintro rfl
          rcases firstToken_greater rest with shown | shown
          · exact absurd rfl (here 16 (by rw [shown]; exact List.mem_singleton_self _)).1
          · exact absurd rfl (here 17 (by rw [shown]; exact List.mem_singleton_self _)).2
        · rw [split]
          apply greaterAfter_append inside
          apply later
          intro member
          rw [split] at noEof
          exact noEof.2 (List.mem_append_right body member)

/-! ### When the two scanners agree -/

theorem eof_not_legal : inAlphabet eof = false := by decide

/-- The codes that `lab_lex.c` prints and one for the end of the file are those of `lex.py`
exactly where both tokenise by longest match. -/
theorem lexers_agree_iff {source : SourceText} {final : Lexer} (done : lexMain source = some final)
    (legal : ∀ c ∈ source.chars, inAlphabet c = true) (colons : ColonsPaired source.chars) :
    codesOf (LabPy.lexMain source.chars).printed = final.items ++ [.code 25] ↔
      PlainAfter ' ' source.chars ∧ WellSeparated source.chars := by
  have tokens := reference_agrees legal colons
  have byLongestMatch (plain : PlainAfter ' ' source.chars) :
      codesOf (LabPy.lexMain source.chars).printed = reference source.chars ++ [.code 25] := by
    have linked : LabPy.Linked ' ' LabPy.initLexer.state source.chars := ⟨nofun, nofun, nofun⟩
    have printed := @LabPy.printed_reference LabPy.initLexer _ _ rfl linked legal colons plain
    rw [← tokens]
    exact congrArg codesOf printed
  rw [lexMain_items done]
  constructor
  · intro same
    have never : ∀ num, .code num ∈ printedItems source.chars → num ≠ 16 ∧ num ≠ 17 := by
      intro num member
      have shown : Item.code num ∈ codesOf (LabPy.lexMain source.chars).printed := by
        rw [same]
        exact List.mem_append_left _ member
      rcases List.mem_map.mp shown with ⟨row, written, code⟩
      cases code
      exact LabPy.printed_ne_greater written
    have noEof : eof ∉ source.chars := by
      intro member
      have isLegal := legal eof member
      rw [eof_not_legal] at isLegal
      cases isLegal
    rcases LabPy.lexMain_counts legal colons (greaterAfter_of_printed noEof never ' ') with
      ⟨atLeast, plain⟩
    have size := congrArg List.length same
    have expected := congrArg List.length tokens
    have fewer := printedItems_length_le source.chars
    rw [codesOf, List.length_map, List.length_append, List.length_singleton] at size expected
    have isPlain := plain (by omega)
    refine ⟨isPlain, ?_⟩
    rw [byLongestMatch isPlain] at same
    exact (printedItems_eq_reference_iff _).mp (List.append_cancel_right same).symm
  · rintro ⟨plain, separated⟩
    rw [byLongestMatch plain, (printedItems_eq_reference_iff _).mpr separated]

def difference : SourceText := ⟨['a', '<', '>', 'b', '-', '1', ';', '\n'], by decide, by decide⟩

theorem lexers_agree_difference :
    ∃ final, lexMain difference = some final ∧
      (codesOf (LabPy.lexMain difference.chars).printed = final.items ++ [.code 25] ↔
        PlainAfter ' ' difference.chars ∧ WellSeparated difference.chars) := by
  have fits : (lexMain difference).isSome = true := by decide +kernel
  rcases Option.isSome_iff_exists.mp fits with ⟨final, done⟩
  exact ⟨final, done, lexers_agree_iff done (List.all_eq_true.mp (by decide))
    (by simp [difference, ColonsPaired])⟩

end OsCompiler.ParserLex
