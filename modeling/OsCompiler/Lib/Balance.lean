/-
Words whose letters open and close.

Each letter has a weight. A word is balanced if its weights add up to nothing and no
beginning of it has closed more than it has opened. A balanced word between an opening
and a closing letter ends where its first letter is closed, so no such word is the
beginning of another one.
-/

import Mathlib.Algebra.BigOperators.Group.List.Basic
import Mathlib.Algebra.Ring.Int.Defs
import Mathlib.Data.List.Infix

namespace OsCompiler.Balance

variable {Letter : Type} (weight : Letter → Int)

def balance (word : List Letter) : Int := (word.map weight).sum

structure Balanced (word : List Letter) : Prop where
  closed : balance weight word = 0
  opened : ∀ front, front <+: word → 0 ≤ balance weight front

variable {weight}

theorem balance_append (left right : List Letter) :
    balance weight (left ++ right) = balance weight left + balance weight right := by
  simp [balance]

theorem balance_cons (letter : Letter) (word : List Letter) :
    balance weight (letter :: word) = weight letter + balance weight word := by
  simp [balance]

@[simp] theorem balance_nil : balance weight ([] : List Letter) = 0 := rfl

theorem balanced_nil : Balanced weight ([] : List Letter) where
  closed := balance_nil
  opened front inside := by
    rw [List.prefix_nil.mp inside]
    exact Int.le_refl 0

theorem Balanced.append {left right : List Letter} (first : Balanced weight left)
    (second : Balanced weight right) : Balanced weight (left ++ right) where
  closed := by rw [balance_append, first.closed, second.closed, add_zero]
  opened front inside := by
    rcases List.prefix_or_prefix_of_prefix inside (List.prefix_append left right) with
      inLeft | ⟨middle, rfl⟩
    · exact first.opened front inLeft
    · rw [balance_append, first.closed, zero_add]
      exact second.opened middle ((List.prefix_append_right_inj left).mp inside)

theorem Balanced.cons {letter : Letter} {word : List Letter} (neutral : weight letter = 0)
    (balanced : Balanced weight word) : Balanced weight (letter :: word) where
  closed := by rw [balance_cons, neutral, balanced.closed, add_zero]
  opened front inside := by
    rcases List.prefix_cons_iff.mp inside with rfl | ⟨middle, rfl, inWord⟩
    · exact Int.le_refl 0
    · rw [balance_cons, neutral, zero_add]
      exact balanced.opened middle inWord

section Enclosed

variable {opening closing : Letter} (opens : weight opening = 1) (closes : weight closing = -1)

include opens

/-- Behind an opening letter every beginning of a balanced word is open. -/
theorem Balanced.enclosed_open {word front : List Letter} (balanced : Balanced weight word)
    (inside : front <+: opening :: word) (nonempty : front ≠ []) : 0 < balance weight front := by
  rcases List.prefix_cons_iff.mp inside with rfl | ⟨middle, rfl, inWord⟩
  · exact absurd rfl nonempty
  · have inner := balanced.opened middle inWord
    rw [balance_cons, opens]
    omega

include closes

theorem Balanced.enclose {word : List Letter} (balanced : Balanced weight word) :
    Balanced weight (opening :: word ++ [closing]) where
  closed := by
    rw [balance_append, balance_cons, balance_cons, opens, closes, balanced.closed, balance_nil]
    rfl
  opened front inside := by
    rcases List.prefix_concat_iff.mp inside with rfl | before
    · rw [balance_append, balance_cons, balance_cons, opens, closes, balanced.closed, balance_nil]
      decide
    · rcases front.eq_nil_or_concat with rfl | ⟨front, last, rfl⟩
      · exact Int.le_refl 0
      · exact Int.le_of_lt (balanced.enclosed_open opens before (by simp))

/-- An enclosed word has no enclosed beginning but itself. -/
theorem enclosed_prefix_free {word word' rest : List Letter}
    (balanced : Balanced weight word) (balanced' : Balanced weight word')
    (same : opening :: word ++ [closing] ++ rest = opening :: word' ++ [closing]) : rest = [] := by
  have inside : opening :: word ++ [closing] <+: opening :: word' ++ [closing] := ⟨rest, same⟩
  rcases List.prefix_concat_iff.mp inside with whole | before
  · rw [← whole] at same
    exact List.append_right_eq_self.mp same
  · have still := balanced'.enclosed_open opens before (by simp)
    rw [(balanced.enclose opens closes).closed] at still
    exact absurd still (Int.lt_irrefl 0)

end Enclosed

end OsCompiler.Balance
