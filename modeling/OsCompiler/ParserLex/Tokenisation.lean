/-
The loop of `main` tokenises a source text, and on which texts it does so by longest
match.

A call that the buffers do not stop is a call with large buffers, whose cut of the unread
text is known.
-/

import OsCompiler.ParserLex.Buffers

namespace OsCompiler.ParserLex

def Lexer.items (s : Lexer) : List Item := s.outputs.map Output.item

/-! ### The cut of one call -/

/-- The scanner has shown the items of a cut and points behind it. -/
structure Cuts (s : Lexer) (shown : List Item × List Char) (next : Lexer) : Prop where
  code : next.code = s.code
  items : next.items = s.items ++ shown.1
  rest : next.rest = shown.2

/-- What a call has done at a text that begins with no blank: it goes on behind a cut, or it has
shown the last items. -/
def Advances (s : Lexer) (text : List Char) (more : Bool) (next : Lexer) : Prop :=
  (more = true ∧ ∃ c rest, text = c :: rest ∧ Cuts s (firstPrinted c rest) next) ∨
    (more = false ∧ next.items = s.items ++ printedItems text)

section OneCall

variable {s next : Lexer} {position : Nat} {c : Char} {rest : List Char} {more : Bool}

private theorem items_of_writes {shown : List Output} (writes : Unbounded.Writes s shown next) :
    next.items = s.items ++ shown.map Output.item := by
  rw [Lexer.items, writes.outputs, List.map_append]
  rfl

private theorem advances_of_scans (scans : Unbounded.Scans s position c rest more next) :
    Advances s (c :: rest) more next := by
  rcases scans.written with ⟨shown, writes, items, _⟩
  have shows := items_of_writes writes
  rw [items] at shows
  by_cases atEof : c = eof
  · right
    refine ⟨Bool.eq_false_iff.mpr fun goesOn => scans.goesOn.mp goesOn atEof, ?_⟩
    rw [shows, atEof, printedItems_eof, firstPrinted, if_pos rfl]
  · left
    have goesOn := scans.goesOn.mpr atEof
    exact ⟨goesOn, c, rest, rfl, scans.code, shows, scans.unread goesOn⟩

private theorem switchWord_nul (ended : s.word = nul) : switchWord s = some (false, s) := by
  rw [switchWord, ended, if_neg (by decide), if_neg (by decide), if_pos rfl]
  rfl

/-- Behind the end of the text nothing but null characters is read. -/
theorem lexAnalyze_beyond (beyond : s.code.chars.length < s.project)
    (call : lexAnalyze s = some (more, next)) : more = false ∧ next.items = s.items := by
  have word : ({ s with token := [] } : Lexer).advance.word = nul :=
    List.getD_eq_default _ _ (Nat.le_of_lt beyond)
  have read : getchar1 { s with token := [] } = some ({ s with token := [] } : Lexer).advance := rfl
  have stays : getnbc ({ s with token := [] } : Lexer).advance =
      some ({ s with token := [] } : Lexer).advance := by
    rw [getnbc, if_neg]
    rw [word]
    decide
  rw [lexAnalyze, read, Option.bind_eq_bind, Option.bind_some, stays, Option.bind_some, word,
    if_neg (by decide), if_neg (by decide), switchWord_nul word] at call
  cases call
  exact ⟨rfl, rfl⟩

theorem lexAnalyze_advances (call : lexAnalyze s = some (more, next)) :
    Advances s (s.rest.dropWhile isBlank) more next := by
  by_cases inside : s.project ≤ s.code.chars.length
  · have roomy := lexAnalyze_unbounded inside call
    cases unread : s.rest.dropWhile isBlank with
    | nil =>
        rcases Unbounded.lexAnalyze_ends inside unread with ⟨last, ended, _, quiet⟩
        cases roomy.symm.trans ended
        right
        rw [Lexer.items, quiet.outputs, printedItems, printedCut.run_nil, List.append_nil]
        exact ⟨rfl, rfl⟩
    | cons c rest =>
        rcases Unbounded.lexAnalyze_scans inside unread with ⟨position, _, _, _, done, scans⟩
        cases roomy.symm.trans done
        exact advances_of_scans scans
  · have beyond := Nat.lt_of_not_le inside
    rcases lexAnalyze_beyond beyond call with ⟨ended, items⟩
    have empty : s.rest = [] := List.drop_eq_nil_of_le (Nat.le_of_lt beyond)
    right
    rw [items, empty, List.dropWhile_nil, printedItems, printedCut.run_nil, List.append_nil]
    exact ⟨ended, rfl⟩

theorem lexAnalyze_shrinks (call : lexAnalyze s = some (true, next)) :
    next.rest.length < s.rest.length := by
  rcases lexAnalyze_advances call with ⟨_, c, rest, unread, cuts⟩ | ⟨ended, _⟩
  · have skipped := (List.dropWhile_sublist (l := s.rest) isBlank).length_le
    rw [unread, List.length_cons] at skipped
    have shrinks := firstPrinted_shrinks c rest
    rw [← cuts.rest] at shrinks
    omega
  · cases ended

end OneCall

/-! ### The whole loop -/

def lexLoop (s : Lexer) : Option Lexer :=
  match _ : lexAnalyze s with
  | none => none
  | some (true, next) => lexLoop next
  | some (false, next) => some next
termination_by s.rest.length
decreasing_by exact lexAnalyze_shrinks (by assumption)

def start (source : SourceText) : Lexer where
  code := source
  project := 0
  word := nul
  token := []
  dydFile := []
  errFile := []
  line := 1
  outputs := []

def lexMain (source : SourceText) : Option Lexer := lexLoop (start source)

/-- No buffer overflows while the text is scanned. -/
def FitsBuffers (source : SourceText) : Prop := (lexMain source).isSome = true

private theorem printedItems_dropWhile (text : List Char) :
    printedItems (text.dropWhile isBlank) = printedItems text := by
  apply Tokeniser.run_dropWhile
  intro c rest blank
  rw [beq_iff_eq.mp blank]
  exact firstPrinted_blank rest

private theorem lexLoop_items {s final : Lexer} (done : lexLoop s = some final) :
    final.items = s.items ++ printedItems s.rest := by
  induction s using lexLoop.induct with
  | case1 s overflow =>
      rw [lexLoop, overflow] at done
      cases done
  | case2 s next call ih =>
      have later : lexLoop next = some final := by
        rw [lexLoop, call] at done
        exact done
      rcases lexAnalyze_advances call with ⟨_, c, rest, unread, cuts⟩ | ⟨ended, _⟩
      · rw [ih later, cuts.items, cuts.rest, List.append_assoc, ← printedItems_cons, ← unread,
          printedItems_dropWhile]
      · cases ended
  | case3 s next call =>
      rw [lexLoop, call] at done
      cases done
      rcases lexAnalyze_advances call with ⟨goesOn, _⟩ | ⟨_, items⟩
      · cases goesOn
      · rw [items, printedItems_dropWhile]

theorem lexMain_items {source : SourceText} {final : Lexer}
    (done : lexMain source = some final) : final.items = printedItems source.chars := by
  rw [lexLoop_items done]
  rfl

/-- The loop prints the tokens of a text by longest match, and one message for each character
that belongs to none, exactly when the text is well separated. -/
theorem tokenises_iff_wellSeparated (source : SourceText) (fits : FitsBuffers source) :
    (∃ final, lexMain source = some final ∧ final.items = reference source.chars) ↔
      WellSeparated source.chars := by
  rcases Option.isSome_iff_exists.mp fits with ⟨final, done⟩
  rw [← printedItems_eq_reference_iff]
  constructor
  · rintro ⟨other, same, items⟩
    rw [← lexMain_items same]
    exact items
  · intro same
    exact ⟨final, done, (lexMain_items done).trans same⟩

def assignment : SourceText := ⟨"a := b * 12\n".toList, by decide, by decide⟩

theorem tokenises_assignment :
    FitsBuffers assignment ∧
      ((∃ final, lexMain assignment = some final ∧
        final.items = reference assignment.chars) ↔ WellSeparated assignment.chars) := by
  have fits : FitsBuffers assignment := by
    unfold FitsBuffers
    decide +kernel
  exact ⟨fits, tokenises_iff_wellSeparated assignment fits⟩

def starEqual : SourceText := ⟨"a *= b".toList, by decide, by decide⟩

theorem starEqual_not_tokenised :
    FitsBuffers starEqual ∧
      ¬ ∃ final, lexMain starEqual = some final ∧ final.items = reference starEqual.chars := by
  have printed : (lexMain starEqual).map Lexer.items =
      some [.code 10, .code 19, .code 20, .code 10] := by
    decide +kernel
  have expected : reference starEqual.chars = [.code 10, .code 19, .code 12, .code 10] := by
    decide +kernel
  rcases Option.map_eq_some_iff.mp printed with ⟨final, done, items⟩
  refine ⟨by rw [FitsBuffers, done]; rfl, ?_⟩
  rintro ⟨other, same, agrees⟩
  rw [done] at same
  cases same
  rw [items, expected] at agrees
  exact absurd agrees (by decide)

end OsCompiler.ParserLex
