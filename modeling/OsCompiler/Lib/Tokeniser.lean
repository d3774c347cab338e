/-
Cutting a text into tokens from its front.

A tokeniser says what stands at the front of a text and what is left behind it; its
run repeats this to the end of the text. The rules compare the runs of two tokenisers
that mostly cut alike.
-/

import Mathlib.Data.List.Basic

namespace OsCompiler

/-- What a text that begins with `c` shows at its front, and what is left of it. -/
structure Tokeniser (α τ : Type) where
  first : α → List α → List τ × List α
  shrinks : ∀ c rest, (first c rest).2.length ≤ rest.length

namespace Tokeniser

variable {α τ : Type}

def run (cut : Tokeniser α τ) : List α → List τ
  | [] => []
  | c :: rest => (cut.first c rest).1 ++ cut.run (cut.first c rest).2
termination_by text => text.length
decreasing_by exact Nat.lt_succ_of_le (cut.shrinks c rest)

theorem run_nil (cut : Tokeniser α τ) : cut.run [] = [] := by rw [run]

theorem run_cons (cut : Tokeniser α τ) (c : α) (rest : List α) :
    cut.run (c :: rest) = (cut.first c rest).1 ++ cut.run (cut.first c rest).2 := by
  rw [run]

/-- Induction along the cuts of a tokeniser. -/
theorem induction (cut : Tokeniser α τ) {motive : List α → Prop} (empty : motive [])
    (step : ∀ c rest, motive (cut.first c rest).2 → motive (c :: rest)) (text : List α) :
    motive text := by
  induction size : text.length using Nat.strongRecOn generalizing text with
  | ind size ih =>
      cases text with
      | nil => exact empty
      | cons c rest =>
          apply step c rest
          apply ih (cut.first c rest).2.length _ _ rfl
          rw [← size]
          exact Nat.lt_succ_of_le (cut.shrinks c rest)

/-- What is cut off without a token can be dropped beforehand. -/
theorem run_dropWhile (cut : Tokeniser α τ) {test : α → Bool}
    (silent : ∀ c rest, test c = true → cut.first c rest = ([], rest)) (text : List α) :
    cut.run (text.dropWhile test) = cut.run text := by
  induction text with
  | nil => rfl
  | cons c rest ih =>
      by_cases skipped : test c = true
      · rw [List.dropWhile_cons_of_pos skipped, ih, run_cons, silent c rest skipped]
        rfl
      · rw [List.dropWhile_cons_of_neg skipped]

section Comparison

variable {cut other : Tokeniser α τ}

/-- A tokeniser that shows fewer tokens of a kind at every cut than the other one shows of
the same piece of text, shows fewer of them in its run. -/
theorem countP_run_le (kind : τ → Bool)
    (fewer : ∀ c rest, ∃ shown,
      other.run (c :: rest) = shown ++ other.run (cut.first c rest).2 ∧
        (cut.first c rest).1.countP kind ≤ shown.countP kind)
    (text : List α) : (cut.run text).countP kind ≤ (other.run text).countP kind := by
  induction text using cut.induction with
  | empty =>
      rw [run_nil]
      exact Nat.zero_le _
  | step c rest ih =>
      rcases fewer c rest with ⟨shown, split, here⟩
      rw [run_cons, split, List.countP_append, List.countP_append]
      exact Nat.add_le_add here ih

/-- Two runs are the same on the texts that meet a condition, when at every cut either both
show the same and the condition passes on to the text left, or the runs differ and the
condition fails. -/
theorem run_eq_iff (Holds : List α → Prop) (empty : Holds [])
    (decides : ∀ c rest,
      (cut.first c rest = other.first c rest ∧
        (Holds (c :: rest) ↔ Holds (other.first c rest).2)) ∨
      (cut.run (c :: rest) ≠ other.run (c :: rest) ∧ ¬ Holds (c :: rest)))
    (text : List α) : cut.run text = other.run text ↔ Holds text := by
  induction text using other.induction with
  | empty =>
      rw [run_nil, run_nil]
      exact iff_of_true rfl empty
  | step c rest ih =>
      rcases decides c rest with ⟨same, passes⟩ | ⟨differ, fails⟩
      · rw [run_cons, run_cons, same, List.append_cancel_left_eq, ih, passes]
      · exact iff_of_false differ fails

end Comparison

end Tokeniser

end OsCompiler
