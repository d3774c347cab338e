/-
The tokens of the language by longest match, and the tokens that `LexAnalyze` cuts off
the same text.

The scanner cuts otherwise in three places only: the case of `'*'` runs into the case
of `':'`, a `:` without its `=` is passed over in silence, and a character of code 255
is taken for the end of the file. The texts without these are the ones that it
tokenises.
-/

import OsCompiler.Lib.Tokeniser
import OsCompiler.ParserLex.LabLex

namespace OsCompiler.ParserLex

/-- A piece of a text: a token, by its code, or a character that belongs to no token. -/
inductive Item
  | code (num : Nat)
  | illegal
  deriving DecidableEq

def wordChar (c : Char) : Bool := letter c || digit c

def keywords : List (List Char × Nat) :=
  [("begin".toList, 1), ("end".toList, 2), ("integer".toList, 3), ("if".toList, 4),
    ("then".toList, 5), ("else".toList, 6), ("function".toList, 7), ("read".toList, 8),
    ("write".toList, 9)]

def wordCode (name : List Char) : Nat := (keywords.lookup name).getD 10

def operators : List (List Char × Nat) :=
  [(['='], 12), (['<', '>'], 13), (['<', '='], 14), (['<'], 15), (['>', '='], 16), (['>'], 17),
    (['-'], 18), (['*'], 19), ([':', '='], 20), (['('], 21), ([')'], 22), ([';'], 23),
    (['\n'], 24)]

def firstOperator (c : Char) (rest : List Char) : List Item × List Char :=
  let single := ([((operators.lookup [c]).map Item.code).getD .illegal], rest)
  match rest with
  | [] => single
  | d :: others =>
      match operators.lookup [c, d] with
      | some num => ([.code num], others)
      | none => single

def firstToken (c : Char) (rest : List Char) : List Item × List Char :=
  if letter c then
    ([.code (wordCode (c :: rest.takeWhile wordChar))], rest.dropWhile wordChar)
  else if digit c then ([.code 11], rest.dropWhile digit)
  else if c = ' ' then ([], rest)
  else firstOperator c rest

/-- What a call of `LexAnalyze` makes of an unread text that begins with `c`. -/
def firstPrinted (c : Char) (rest : List Char) : List Item × List Char :=
  if c = eof then ([.code 25], [])
  else if c = '*' ∧ rest.head? = some '=' then ([.code 19, .code 20], rest.tail)
  else if c = ':' ∧ rest.head? ≠ some '=' then ([], rest)
  else firstToken c rest

/-- No character of code 255, no `*` directly in front of a `=`, and every `:` directly in
front of one. -/
def WellSeparated : List Char → Prop
  | [] => True
  | c :: rest =>
      c ≠ eof ∧ (c = '*' → rest.head? ≠ some '=') ∧ (c = ':' → rest.head? = some '=') ∧
        WellSeparated rest

/-! ### What one cut takes -/

/-- No character of a token but the first one matters to `WellSeparated`. -/
def inside (c : Char) : Bool := wordChar c || c == '>' || c == '='

theorem mem_of_lookup {table : List (List Char × Nat)} {text : List Char} {num : Nat}
    (found : table.lookup text = some num) : (text, num) ∈ table := by
  rcases List.lookup_eq_some_iff.mp found with ⟨before, after, split, _⟩
  rw [split]
  exact List.mem_append_right before List.mem_cons_self

private theorem firstOperator_consumes (c : Char) (rest : List Char) :
    ∃ body, rest = body ++ (firstOperator c rest).2 ∧ ∀ d ∈ body, inside d = true := by
  unfold firstOperator
  dsimp only
  cases rest with
  | nil => exact ⟨[], rfl, fun d member => nomatch member⟩
  | cons d others =>
      dsimp only
      cases pair : operators.lookup [c, d] with
      | none => exact ⟨[], rfl, fun d member => nomatch member⟩
      | some num =>
          refine ⟨[d], rfl, ?_⟩
          intro d' member
          cases List.mem_singleton.mp member
          have seconds : operators.all (fun entry =>
              entry.1.length != 2 || inside (entry.1.getD 1 nul)) = true := by
            decide
          exact List.all_eq_true.mp seconds _ (mem_of_lookup pair)

theorem firstToken_consumes (c : Char) (rest : List Char) :
    ∃ body, rest = body ++ (firstToken c rest).2 ∧ ∀ d ∈ body, inside d = true := by
  unfold firstToken
  split
  · refine ⟨rest.takeWhile wordChar, List.takeWhile_append_dropWhile.symm, ?_⟩
    intro d member
    rw [inside, List.mem_takeWhile_imp member]
    rfl
  split
  · refine ⟨rest.takeWhile digit, List.takeWhile_append_dropWhile.symm, ?_⟩
    intro d member
    rw [inside, wordChar, List.mem_takeWhile_imp member, Bool.or_true]
    rfl
  split
  · exact ⟨[], rfl, fun d member => nomatch member⟩
  · exact firstOperator_consumes c rest

theorem firstToken_shrinks (c : Char) (rest : List Char) :
    (firstToken c rest).2.length ≤ rest.length := by
  rcases firstToken_consumes c rest with ⟨body, split, _⟩
  have size := congrArg List.length split
  rw [List.length_append] at size
  omega

theorem firstPrinted_shrinks (c : Char) (rest : List Char) :
    (firstPrinted c rest).2.length ≤ rest.length := by
  unfold firstPrinted
  split
  · exact Nat.zero_le _
  split
  · rw [List.length_tail]
    exact Nat.sub_le _ _
  split
  · exact Nat.le_refl _
  · exact firstToken_shrinks c rest

def referenceCut : Tokeniser Char Item := ⟨firstToken, firstToken_shrinks⟩
def printedCut : Tokeniser Char Item := ⟨firstPrinted, firstPrinted_shrinks⟩

def reference (text : List Char) : List Item := referenceCut.run text

def printedItems (text : List Char) : List Item := printedCut.run text

theorem reference_cons (c : Char) (rest : List Char) :
    reference (c :: rest) = (firstToken c rest).1 ++ reference (firstToken c rest).2 :=
  referenceCut.run_cons c rest

theorem printedItems_cons (c : Char) (rest : List Char) :
    printedItems (c :: rest) = (firstPrinted c rest).1 ++ printedItems (firstPrinted c rest).2 :=
  printedCut.run_cons c rest

/-! ### The three other cuts -/

theorem firstPrinted_colon {rest : List Char} (alone : rest.head? ≠ some '=') :
    firstPrinted ':' rest = ([], rest) := by
  rw [firstPrinted, if_neg (by decide), if_neg (fun both => absurd both.1 (by decide)),
    if_pos ⟨rfl, alone⟩]

theorem firstPrinted_else {c : Char} {rest : List Char} (noEof : c ≠ eof)
    (noStar : c = '*' → rest.head? ≠ some '=') (noColon : c = ':' → rest.head? = some '=') :
    firstPrinted c rest = firstToken c rest := by
  rw [firstPrinted, if_neg noEof, if_neg (fun both => noStar both.1 both.2),
    if_neg (fun both => both.2 (noColon both.1))]

theorem printedItems_eof (rest : List Char) : printedItems (eof :: rest) = [.code 25] := by
  rw [printedItems_cons, firstPrinted, if_pos rfl, printedItems, printedCut.run_nil]
  rfl

private theorem printedItems_star (others : List Char) :
    printedItems ('*' :: '=' :: others) = .code 19 :: .code 20 :: printedItems others := by
  rw [printedItems_cons, firstPrinted, if_neg (by decide), if_pos ⟨rfl, rfl⟩]
  rfl

private theorem printedItems_colon {rest : List Char} (alone : rest.head? ≠ some '=') :
    printedItems (':' :: rest) = printedItems rest := by
  rw [printedItems_cons, firstPrinted_colon alone]
  rfl

/-- Where the scanner cuts otherwise. -/
theorem cut_cases (c : Char) (rest : List Char) :
    c = eof ∨ (c = '*' ∧ ∃ others, rest = '=' :: others) ∨
      (c = ':' ∧ rest.head? ≠ some '=') ∨
      (c ≠ eof ∧ (c = '*' → rest.head? ≠ some '=') ∧ (c = ':' → rest.head? = some '=')) := by
  by_cases atEof : c = eof
  · exact Or.inl atEof
  by_cases star : c = '*' ∧ rest.head? = some '='
  · rcases List.head?_eq_some_iff.mp star.2 with ⟨others, split⟩
    exact Or.inr (Or.inl ⟨star.1, others, split⟩)
  by_cases colon : c = ':' ∧ rest.head? ≠ some '='
  · exact Or.inr (Or.inr (Or.inl colon))
  · right; right; right
    exact ⟨atEof, fun here equal => star ⟨here, equal⟩,
      fun here => by_contra fun alone => colon ⟨here, alone⟩⟩

theorem firstOperator_single {c : Char} {rest : List Char}
    (alone : ∀ d, rest.head? = some d → operators.lookup [c, d] = none) :
    firstOperator c rest = ([((operators.lookup [c]).map Item.code).getD .illegal], rest) := by
  unfold firstOperator
  cases rest with
  | nil => rfl
  | cons d others =>
      dsimp only
      rw [alone d rfl]

theorem firstToken_sign {c : Char} {rest : List Char} (noLetter : letter c = false)
    (noDigit : digit c = false) (noBlank : c ≠ ' ') :
    firstToken c rest = firstOperator c rest := by
  rw [firstToken, noLetter, noDigit, if_neg Bool.false_ne_true, if_neg Bool.false_ne_true,
    if_neg noBlank]

/-- A sign that is not one of the three other cuts is shown as the reference has it. -/
theorem firstPrinted_sign {c : Char} {rest : List Char} (noEof : c ≠ eof)
    (noStar : c = '*' → rest.head? ≠ some '=') (noColon : c ≠ ':') (noLetter : letter c = false)
    (noDigit : digit c = false) (noBlank : c ≠ ' ')
    (alone : ∀ d, rest.head? = some d → operators.lookup [c, d] = none) :
    firstPrinted c rest = ([((operators.lookup [c]).map Item.code).getD .illegal], rest) := by
  rw [firstPrinted_else noEof noStar (fun colon => absurd colon noColon),
    firstToken_sign noLetter noDigit noBlank, firstOperator_single alone]

private theorem firstPrinted_wordChar {c : Char} (rest : List Char)
    (isWordChar : wordChar c = true) :
    firstPrinted c rest = firstToken c rest := by
  apply firstPrinted_else
  · exact fun same => absurd (same ▸ isWordChar) (by decide)
  · exact fun same => absurd (same ▸ isWordChar) (by decide)
  · exact fun same => absurd (same ▸ isWordChar) (by decide)

theorem firstPrinted_word {c : Char} (rest : List Char) (isLetter : letter c = true) :
    firstPrinted c rest =
      ([.code (wordCode (c :: rest.takeWhile wordChar))], rest.dropWhile wordChar) := by
  rw [firstPrinted_wordChar rest (by rw [wordChar, isLetter, Bool.true_or]), firstToken,
    if_pos isLetter]

theorem firstPrinted_number {c : Char} (rest : List Char) (noLetter : letter c = false)
    (isDigit : digit c = true) :
    firstPrinted c rest = ([.code 11], rest.dropWhile digit) := by
  rw [firstPrinted_wordChar rest (by rw [wordChar, isDigit, Bool.or_true]), firstToken, noLetter,
    if_neg Bool.false_ne_true, if_pos isDigit]

theorem firstPrinted_blank (rest : List Char) : firstPrinted ' ' rest = ([], rest) := by
  rw [firstPrinted_else (by decide) (fun same => absurd same (by decide))
    (fun same => absurd same (by decide))]
  rfl

/-- The characters that operators of two begin with. -/
theorem lookup_pair_none {c : Char} (d : Char) (single : c ∉ ['<', '>', ':']) :
    operators.lookup [c, d] = none := by
  simp only [List.mem_cons, List.not_mem_nil, or_false, not_or] at single
  simp [operators, List.lookup_cons, beq_false_of_ne single.1, beq_false_of_ne single.2.1,
    beq_false_of_ne single.2.2]

theorem firstPrinted_single {c : Char} (rest : List Char) (noLetter : letter c = false)
    (noDigit : digit c = false) (plain : c ∉ [eof, ' ', '*', ':', '<', '>']) :
    firstPrinted c rest = ([((operators.lookup [c]).map Item.code).getD .illegal], rest) := by
  simp only [List.mem_cons, List.not_mem_nil, or_false, not_or] at plain
  rcases plain with ⟨noEof, noBlank, noStar, noColon, noLess, noGreater⟩
  apply firstPrinted_sign noEof (fun star => absurd star noStar) noColon noLetter noDigit noBlank
  intro d _
  apply lookup_pair_none d
  simp only [List.mem_cons, List.not_mem_nil, or_false, not_or]
  exact ⟨noLess, noGreater, noColon⟩

private theorem lookup_colon_none {d : Char} (noEqual : d ≠ '=') :
    operators.lookup [':', d] = none := by
  simp [operators, List.lookup_cons, beq_false_of_ne noEqual]

theorem reference_single {c : Char} {rest : List Char} (noLetter : letter c = false)
    (noDigit : digit c = false) (noBlank : c ≠ ' ')
    (alone : ∀ d, rest.head? = some d → operators.lookup [c, d] = none) :
    reference (c :: rest) =
      ((operators.lookup [c]).map Item.code).getD .illegal :: reference rest := by
  rw [reference_cons, firstToken_sign noLetter noDigit noBlank, firstOperator_single alone]
  rfl

theorem reference_eof (rest : List Char) :
    reference (eof :: rest) = .illegal :: reference rest :=
  reference_single rfl rfl (by decide) fun d _ => lookup_pair_none d (by decide)

theorem reference_colon {rest : List Char} (alone : rest.head? ≠ some '=') :
    reference (':' :: rest) = .illegal :: reference rest := by
  apply reference_single rfl rfl (by decide)
  intro d head
  exact lookup_colon_none fun equal => alone (by rw [head, equal])

theorem reference_star (others : List Char) :
    reference ('*' :: '=' :: others) = .code 19 :: .code 12 :: reference others := by
  rw [reference_single rfl rfl (by decide) fun d _ => lookup_pair_none d (by decide),
    reference_single rfl rfl (by decide) fun d _ => lookup_pair_none d (by decide)]
  rfl

/-! ### When the two agree -/

theorem wellSeparated_append {body : List Char} (plain : ∀ d ∈ body, inside d = true)
    (rest : List Char) : WellSeparated (body ++ rest) ↔ WellSeparated rest := by
  induction body with
  | nil => rfl
  | cons d body ih =>
      have here : inside d = true := plain d List.mem_cons_self
      have noEof : d ≠ eof := fun same => absurd (same ▸ here) (by decide)
      have noStar : d ≠ '*' := fun same => absurd (same ▸ here) (by decide)
      have noColon : d ≠ ':' := fun same => absurd (same ▸ here) (by decide)
      rw [List.cons_append, WellSeparated, ih fun d member =>
        plain d (List.mem_cons_of_mem _ member)]
      constructor
      · exact fun all => all.2.2.2
      · exact fun rest =>
          ⟨noEof, fun star => absurd star noStar, fun colon => absurd colon noColon, rest⟩

/-- The scanner never reports more characters than there are to report. -/
theorem illegal_printed_le (text : List Char) :
    (printedItems text).count .illegal ≤ (reference text).count .illegal := by
  apply Tokeniser.countP_run_le
  intro c rest
  show ∃ shown, reference (c :: rest) = shown ++ reference (firstPrinted c rest).2 ∧
    (firstPrinted c rest).1.countP _ ≤ shown.countP _
  rcases cut_cases c rest with rfl | ⟨rfl, others, rfl⟩ | ⟨rfl, alone⟩ | ⟨noEof, noStar, noColon⟩
  · refine ⟨reference (eof :: rest), ?_, Nat.zero_le _⟩
    show _ = _ ++ reference []
    rw [reference, reference, referenceCut.run_nil, List.append_nil]
  · exact ⟨[.code 19, .code 12], reference_star others, Nat.le_refl _⟩
  · rw [firstPrinted_colon alone]
    exact ⟨[.illegal], reference_colon alone, Nat.zero_le _⟩
  · rw [firstPrinted_else noEof noStar noColon]
    exact ⟨(firstToken c rest).1, reference_cons c rest, Nat.le_refl _⟩

/-- A `:` that is passed over in silence is missing from the reports. -/
theorem printedItems_colon_ne {rest : List Char} (alone : rest.head? ≠ some '=') :
    printedItems (':' :: rest) ≠ reference (':' :: rest) := by
  rw [printedItems_colon alone, reference_colon alone]
  intro same
  have fewer := illegal_printed_le rest
  rw [same, List.count_cons_self] at fewer
  exact absurd fewer (Nat.not_succ_le_self _)

theorem printedItems_eq_reference_iff (text : List Char) :
    printedItems text = reference text ↔ WellSeparated text := by
  apply Tokeniser.run_eq_iff WellSeparated trivial
  intro c rest
  show (firstPrinted c rest = firstToken c rest ∧
      (WellSeparated (c :: rest) ↔ WellSeparated (firstToken c rest).2)) ∨
    (printedItems (c :: rest) ≠ reference (c :: rest) ∧ ¬ WellSeparated (c :: rest))
  rcases cut_cases c rest with rfl | ⟨rfl, others, rfl⟩ | ⟨rfl, alone⟩ | ⟨noEof, noStar, noColon⟩
  · right
    rw [printedItems_eof, reference_eof]
    exact ⟨fun same => (nomatch (List.cons.inj same).1), fun separated => separated.1 rfl⟩
  · right
    rw [printedItems_star, reference_star]
    exact ⟨fun same => (nomatch (List.cons.inj (List.cons.inj same).2).1),
      fun separated => separated.2.1 rfl rfl⟩
  · right
    exact ⟨printedItems_colon_ne alone, fun separated => alone (separated.2.2.1 rfl)⟩
  · left
    refine ⟨firstPrinted_else noEof noStar noColon, ?_⟩
    rcases firstToken_consumes c rest with ⟨body, split, plain⟩
    have passes := wellSeparated_append plain (firstToken c rest).2
    rw [← split] at passes
    rw [← passes]
    exact ⟨fun all => all.2.2.2, fun separated => ⟨noEof, noStar, noColon, separated⟩⟩

end OsCompiler.ParserLex
