/-
The loop of `main` comes to an end: each call but the last one moves the pointer on, and
none reads behind the end of the text.
-/

import OsCompiler.ParserLex.Tokenisation

namespace OsCompiler.ParserLex

namespace Unbounded

/-- So many turns of `while (LexAnalyze());`, or those up to the call that returns 0; the flag
tells whether the loop goes on. -/
def loopCalls : Nat → Lexer → Option (Bool × Lexer)
  | 0, s => some (true, s)
  | calls + 1, s => do
      let (more, next) ← lexAnalyze s
      if more then loopCalls calls next else return (false, next)

theorem lexAnalyze_moves {s : Lexer} (inside : s.project ≤ s.code.chars.length) :
    ∃ more next, lexAnalyze s = some (more, next) ∧ next.code = s.code ∧
      (more = true → s.project < next.project ∧ next.project ≤ s.code.chars.length) := by
  cases unread : s.rest.dropWhile isBlank with
  | nil =>
      rcases lexAnalyze_ends inside unread with ⟨next, call, code, _⟩
      exact ⟨false, next, call, code, nofun⟩
  | cons c rest =>
      rcases lexAnalyze_scans inside unread with ⟨position, more, next, behind, call, scans⟩
      exact ⟨more, next, call, scans.code,
        fun _ => ⟨Nat.lt_of_le_of_lt behind scans.lower, scans.upper⟩⟩

/-- The calls left are not more than the characters left, and one. -/
theorem loopCalls_ends {s : Lexer} {left : Nat} (inside : s.project ≤ s.code.chars.length)
    (unread : s.code.chars.length - s.project ≤ left) :
    ∃ final, loopCalls (left + 1) s = some (false, final) := by
  induction left generalizing s with
  | zero =>
      rcases lexAnalyze_moves inside with ⟨more, next, call, _, moves⟩
      have ended : more = false := by
        rw [Bool.eq_false_iff]
        intro goesOn
        have moved := moves goesOn
        omega
      rw [ended] at call
      exact ⟨next, by rw [loopCalls, call]; rfl⟩
  | succ left ih =>
      rcases lexAnalyze_moves inside with ⟨more, next, call, code, moves⟩
      cases more with
      | false => exact ⟨next, by rw [loopCalls, call]; rfl⟩
      | true =>
          have moved := moves rfl
          rcases ih (s := next) (by rw [code]; exact moved.2) (by rw [code]; omega) with
            ⟨final, ended⟩
          refine ⟨final, ?_⟩
          rw [loopCalls, call]
          exact ended

end Unbounded

/-- With buffers that are large enough every call from a pointer in the text reads no further
than the null character, and moves the pointer on in the text if it returns 1; the loop makes one
call more than the text has characters at most. -/
theorem lexAnalyze_progress :
    (∀ s : Lexer, s.project ≤ s.code.chars.length →
      ∃ more next, Unbounded.lexAnalyze s = some (more, next) ∧
        (more = true → s.project < next.project ∧ next.project ≤ s.code.chars.length)) ∧
      ∀ source : SourceText, ∃ calls ≤ source.chars.length + 1, ∃ final,
        Unbounded.loopCalls calls (start source) = some (false, final) := by
  constructor
  · intro s inside
    rcases Unbounded.lexAnalyze_moves inside with ⟨more, next, call, _, moves⟩
    exact ⟨more, next, call, moves⟩
  · intro source
    exact ⟨source.chars.length + 1, Nat.le_refl _,
      Unbounded.loopCalls_ends (Nat.zero_le _) (Nat.le_refl _)⟩

end OsCompiler.ParserLex
