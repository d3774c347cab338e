/-
Keeping the `k` greatest entries of a sequence that is read once.

Of the entries seen so far `k` are kept, and none left out is greater than one of them.
The next entry either takes the place of a least kept one or is left out itself.
-/

import Mathlib.Data.List.Nodup
import Mathlib.Logic.Function.Basic
import Mathlib.Order.Lattice

namespace OsCompiler.TopK

variable {α : Type} [LinearOrder α]

/-- Slot `slot` of `k` slots names the entry `addr slot`. -/
structure Keeps (f : Nat → α) (k seen : Nat) (addr : Nat → Nat) : Prop where
  inside : ∀ slot < k, addr slot < seen
  distinct : ∀ slot < k, ∀ other < k, addr slot = addr other → slot = other
  above : ∀ slot < k, ∀ left < seen, (∀ other < k, addr other ≠ left) → f left ≤ f (addr slot)

def Weakest (f : Nat → α) (k : Nat) (addr : Nat → Nat) (slot : Nat) : Prop :=
  slot < k ∧ ∀ other < k, f (addr slot) ≤ f (addr other)

variable {f : Nat → α} {k seen slot : Nat} {addr : Nat → Nat}

/-- The first `k` entries are kept to begin with. -/
theorem Keeps.initial (f : Nat → α) (k : Nat) : Keeps f k k id where
  inside := fun _ below => below
  distinct := fun _ _ _ _ same => same
  above := fun _ _ left below missing => absurd rfl (missing left below)

theorem Keeps.skip (keeps : Keeps f k seen addr) (weakest : Weakest f k addr slot)
    (small : f seen ≤ f (addr slot)) : Keeps f k (seen + 1) addr where
  inside := fun other below => Nat.lt_succ_of_lt (keeps.inside other below)
  distinct := keeps.distinct
  above := by
    intro other below left bound missing
    rcases Nat.lt_succ_iff_lt_or_eq.mp bound with earlier | rfl
    · exact keeps.above other below left earlier missing
    · exact small.trans (weakest.2 other below)

/-- The entry that gives way is below all that stay. -/
theorem Keeps.replace (keeps : Keeps f k seen addr) (weakest : Weakest f k addr slot)
    (great : f (addr slot) < f seen) :
    Keeps f k (seen + 1) (Function.update addr slot seen) where
  inside := by
    intro other below
    by_cases here : other = slot
    · rw [here, Function.update_self]
      exact Nat.lt_succ_self seen
    · rw [Function.update_of_ne here]
      exact Nat.lt_succ_of_lt (keeps.inside other below)
  distinct := by
    intro first firstBelow second secondBelow same
    by_cases here : first = slot <;> by_cases there : second = slot
    · rw [here, there]
    · rw [here, Function.update_self, Function.update_of_ne there] at same
      exact absurd same.symm (Nat.ne_of_lt (keeps.inside second secondBelow))
    · rw [there, Function.update_self, Function.update_of_ne here] at same
      exact absurd same (Nat.ne_of_lt (keeps.inside first firstBelow))
    · rw [Function.update_of_ne here, Function.update_of_ne there] at same
      exact keeps.distinct first firstBelow second secondBelow same
  above := by
    intro other below left bound missing
    have fresh : left ≠ seen := by
      rintro rfl
      exact missing slot weakest.1 (Function.update_self _ _ _)
    have earlier : left < seen := Nat.lt_of_le_of_ne (Nat.le_of_lt_succ bound) fresh
    have untouched : ∀ kept < k, kept ≠ slot → addr kept ≠ left := by
      intro kept keptBelow apart
      have still := missing kept keptBelow
      rwa [Function.update_of_ne apart] at still
    -- the entry left out is the one that gave way, or was left out before
    have low : f left ≤ f (addr slot) := by
      by_cases gaveWay : addr slot = left
      · rw [gaveWay]
      · refine keeps.above slot weakest.1 left earlier fun kept keptBelow => ?_
        by_cases here : kept = slot
        · rwa [here]
        · exact untouched kept keptBelow here
    by_cases here : other = slot
    · rw [here, Function.update_self]
      exact low.trans great.le
    · rw [Function.update_of_ne here]
      exact low.trans (weakest.2 other below)

/-! ### The kept entries as a list -/

def selected (k : Nat) (addr : Nat → Nat) : List Nat := (List.range k).map addr

theorem mem_selected {entry : Nat} : entry ∈ selected k addr ↔ ∃ slot < k, addr slot = entry := by
  simp [selected]

theorem Keeps.nodup (keeps : Keeps f k seen addr) : (selected k addr).Nodup := by
  refine List.Nodup.map_on ?_ List.nodup_range
  intro slot member other otherMember
  exact keeps.distinct slot (List.mem_range.mp member) other (List.mem_range.mp otherMember)

theorem Keeps.selected_above (keeps : Keeps f k seen addr) {entry left : Nat}
    (kept : entry ∈ selected k addr) (bound : left < seen) (out : left ∉ selected k addr) :
    f left ≤ f entry := by
  rcases mem_selected.mp kept with ⟨slot, below, rfl⟩
  exact keeps.above slot below left bound fun other otherBelow same =>
    out (mem_selected.mpr ⟨other, otherBelow, same⟩)

end OsCompiler.TopK
