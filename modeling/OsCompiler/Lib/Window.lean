/-
Arrays of which only the cells of a window may be touched.

A window is a range of indices with both ends; a read or a write outside it, or outside
the array, fails. A program that succeeds in the window of a range touches no other cell.
-/

import Mathlib.Data.List.Basic
import Mathlib.Order.Lattice

namespace OsCompiler

structure Window where
  first : Int
  last : Int

namespace Window

variable {α : Type} {window : Window} {front back : List α} {k : Int}

def Contains (window : Window) (k : Int) : Prop := window.first ≤ k ∧ k ≤ window.last

instance (window : Window) (k : Int) : Decidable (window.Contains k) :=
  inferInstanceAs (Decidable (_ ∧ _))

def load (window : Window) (cells : List α) (k : Int) : Option α :=
  if window.Contains k ∧ 0 ≤ k then cells[k.toNat]? else none

def store (window : Window) (cells : List α) (k : Int) (value : α) : Option (List α) :=
  if window.Contains k ∧ 0 ≤ k ∧ k.toNat < cells.length then some (cells.set k.toNat value)
  else none

theorem load_mid (inside : window.Contains k) (front back : List α) (here : k = front.length)
    (value : α) : window.load (front ++ value :: back) k = some value := by
  subst here
  rw [load, if_pos ⟨inside, Int.natCast_nonneg _⟩]
  simp

theorem store_mid (inside : window.Contains k) (front back : List α) (here : k = front.length)
    (old value : α) :
    window.store (front ++ old :: back) k value = some (front ++ value :: back) := by
  subst here
  rw [store, if_pos ⟨inside, Int.natCast_nonneg _, by simp⟩]
  simp

section Pairs

variable {high : Int} {middle : List α}

theorem load_high (inside : window.Contains high)
    (highHere : high = front.length + middle.length + 1) (a b : α) :
    window.load (front ++ a :: (middle ++ b :: back)) high = some b := by
  have here : high = (front ++ a :: middle).length := by simp [highHere, Int.add_assoc]
  have found := load_mid inside (front ++ a :: middle) back here b
  rwa [List.append_assoc] at found

theorem store_high (inside : window.Contains high)
    (highHere : high = front.length + middle.length + 1) (a b value : α) :
    window.store (front ++ a :: (middle ++ b :: back)) high value =
      some (front ++ a :: (middle ++ value :: back)) := by
  have here : high = (front ++ a :: middle).length := by simp [highHere, Int.add_assoc]
  have stored := store_mid inside (front ++ a :: middle) back here b value
  simpa only [List.append_assoc, List.cons_append] using stored

end Pairs

/-! ### The contents of a window -/

def contents (window : Window) (cells : List α) : List α :=
  (cells.drop window.first.toNat).take (window.last + 1 - window.first).toNat

theorem contents_mid {middle : List α} (start : window.first = front.length)
    (stop : window.last + 1 = front.length + middle.length) :
    window.contents (front ++ (middle ++ back)) = middle := by
  have size : (window.last + 1 - window.first).toNat = middle.length := by omega
  rw [contents, size, start, Int.toNat_natCast, List.drop_left, List.take_left]

theorem contents_empty (empty : window.last < window.first) (cells : List α) :
    window.contents cells = [] := by
  have size : (window.last + 1 - window.first).toNat = 0 := by omega
  rw [contents, size, List.take_zero]

/-- An array falls into what is before, in and behind a window that lies in it. -/
theorem exists_split (window : Window) (ordered : window.first ≤ window.last + 1)
    (lower : 0 ≤ window.first) {cells : List α} (upper : window.last < cells.length) :
    ∃ front middle back, cells = front ++ (middle ++ back) ∧
      window.first = front.length ∧ window.last + 1 = front.length + middle.length := by
  refine ⟨cells.take window.first.toNat, window.contents cells,
    (cells.drop window.first.toNat).drop (window.last + 1 - window.first).toNat, ?_, ?_, ?_⟩
  · rw [contents, List.take_append_drop, List.take_append_drop]
  · rw [List.length_take]
    omega
  · rw [contents, List.length_take, List.length_take, List.length_drop]
    omega

/-- The window is sorted, and nothing else has changed. -/
structure Sorts [LinearOrder α] (window : Window) (before after : List α) : Prop where
  length : after.length = before.length
  sorted : (window.contents after).Pairwise (· ≤ ·)
  permuted : (window.contents after).Perm (window.contents before)
  frame : ∀ k : Nat, ¬ window.Contains k → after[k]? = before[k]?

theorem sorts_mid [LinearOrder α] (front back : List α) {before after : List α}
    (start : window.first = front.length)
    (stop : window.last + 1 = front.length + before.length) (permuted : after.Perm before)
    (sorted : after.Pairwise (· ≤ ·)) :
    window.Sorts (front ++ (before ++ back)) (front ++ (after ++ back)) := by
  have size := permuted.length_eq
  have stopAfter : window.last + 1 = front.length + after.length := by rw [size, stop]
  refine ⟨by simp [size], ?_, ?_, ?_⟩
  · rwa [contents_mid start stopAfter]
  · rwa [contents_mid start stopAfter, contents_mid start stop]
  · intro k outside
    by_cases early : k < front.length
    · rw [List.getElem?_append_left early, List.getElem?_append_left early]
    · have late : front.length + before.length ≤ k := by
        by_contra inside
        exact outside ⟨by omega, by omega⟩
      rw [List.getElem?_append_right (by omega), List.getElem?_append_right (by omega),
        List.getElem?_append_right (by omega), List.getElem?_append_right (by omega), size]

theorem sorts_empty [LinearOrder α] (empty : window.last < window.first) (cells : List α) :
    window.Sorts cells cells := by
  refine ⟨rfl, ?_, List.Perm.refl _, fun _ _ => rfl⟩
  rw [contents_empty empty]
  exact List.Pairwise.nil

end Window

end OsCompiler
