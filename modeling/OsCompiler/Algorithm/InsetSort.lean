/-
Insertion sort, `inset_sort` of `sort.c`.

The array may only be touched inside a window. While the inner loop shifts, the cell that
is free holds a stale value and the key stands beside the array.
-/

import Mathlib.Data.Int.Order.Basic
import Mathlib.Data.List.Induction
import OsCompiler.Lib.Loop
import OsCompiler.Lib.Window

namespace OsCompiler.Algorithm

variable {window : Window}

/-- `while (j >= 0 && arr[j] > key) { arr[j + 1] = arr[j]; j--; }`, with the array and the
`j` behind it. -/
def shift (window : Window) (key : Int) (arr : List Int) (j : Int) :
    Option (List Int × Int) := do
  if 0 ≤ j then
    if (← window.load arr j) > key then
      let arr ← window.store arr (j + 1) (← window.load arr j)
      shift window key arr (j - 1)
    else return (arr, j)
  else return (arr, j)
termination_by (j + 1).toNat

def insert (window : Window) (i : Nat) (arr : List Int) : Option (List Int) := do
  let key ← window.load arr i
  let (arr, j) ← shift window key arr (i - 1)
  window.store arr (j + 1) key

def insetSort (window : Window) (arr : List Int) (len : Nat) : Option (List Int) :=
  forRange 1 len (insert window) arr

private theorem shift_neg {key j : Int} {arr : List Int} (negative : j < 0) :
    shift window key arr j = some (arr, j) := by
  rw [shift, if_neg (by omega)]
  rfl

private theorem shift_stop {key j value : Int} {arr : List Int} (positive : 0 ≤ j)
    (loaded : window.load arr j = some value) (small : value ≤ key) :
    shift window key arr j = some (arr, j) := by
  rw [shift, if_pos positive, loaded]
  simp [Int.not_lt.mpr small]

private theorem shift_step {key j value : Int} {arr next : List Int} (positive : 0 ≤ j)
    (loaded : window.load arr j = some value) (large : key < value)
    (stored : window.store arr (j + 1) value = some next) :
    shift window key arr j = shift window key next (j - 1) := by
  rw [shift, if_pos positive, loaded]
  simp [large, stored]

/-- The loop moves the values above the key one cell up, into the free cell. -/
theorem shift_spec {left : List Int} (behind : List Int) (key free : Int) {j : Int}
    (sorted : left.Pairwise (· ≤ ·)) (here : j = left.length - 1)
    (inside : ∀ k : Nat, k ≤ left.length → window.Contains k) :
    ∃ small large free', left = small ++ large ∧ (∀ value ∈ small, value ≤ key) ∧
      (∀ value ∈ large, key < value) ∧
      shift window key (left ++ free :: behind) j =
        some (small ++ free' :: (large ++ behind), (small.length : Int) - 1) := by
  induction left using List.reverseRecOn generalizing free behind j with
  | nil =>
      refine ⟨[], [], free, rfl, nofun, nofun, ?_⟩
      rw [here]
      exact shift_neg (by simp)
  | append_singleton left value ih =>
      have upTo := List.pairwise_append.mp sorted
      rw [List.length_append, List.length_singleton, Int.natCast_add] at here
      have place : j = left.length := by omega
      have valueInside : window.Contains j := place ▸ inside left.length (by simp)
      have freeInside : window.Contains (j + 1) := by
        have last := inside (left.length + 1) (by simp)
        rwa [Int.natCast_add, ← place] at last
      have loaded : window.load ((left ++ [value]) ++ free :: behind) j = some value := by
        rw [List.append_assoc]
        exact Window.load_mid valueInside left (free :: behind) place value
      by_cases large : key < value
      · have stored : window.store ((left ++ [value]) ++ free :: behind) (j + 1) value =
            some (left ++ value :: (value :: behind)) := by
          have put := Window.store_mid freeInside (left ++ [value]) behind (by simp [place])
            free value
          rw [put, List.append_assoc]
          rfl
        have down : j - 1 = left.length - 1 := congrArg (· - 1) place
        rcases ih (value :: behind) value upTo.1 down
          (fun k bound => inside k (List.length_append ▸ Nat.le_succ_of_le bound)) with
          ⟨small, large', free', split, smalls, larges, shifted⟩
        refine ⟨small, large' ++ [value], free', ?_, smalls, ?_, ?_⟩
        · rw [split, List.append_assoc]
        · intro other member
          rcases List.mem_append.mp member with member | member
          · exact larges other member
          · rwa [List.mem_singleton.mp member]
        · rw [shift_step (by omega) loaded large stored, shifted, List.append_assoc]
          rfl
      · refine ⟨left ++ [value], [], free, (List.append_nil _).symm, ?_, nofun, ?_⟩
        · intro other member
          rcases List.mem_append.mp member with member | member
          · exact Int.le_trans (upTo.2.2 other member value (List.mem_singleton_self value))
              (Int.not_lt.mp large)
          · rw [List.mem_singleton.mp member]
            exact Int.not_lt.mp large
        · rw [shift_stop (by omega) loaded (Int.not_lt.mp large)]
          simp [place]

/-- The key goes between the values that are not above it and those that are. -/
theorem pairwise_insert {small large : List Int} {key : Int}
    (sorted : (small ++ large).Pairwise (· ≤ ·)) (smalls : ∀ value ∈ small, value ≤ key)
    (larges : ∀ value ∈ large, key < value) : (small ++ key :: large).Pairwise (· ≤ ·) := by
  rcases List.pairwise_append.mp sorted with ⟨left, right, across⟩
  refine List.pairwise_append.mpr ⟨left, List.pairwise_cons.mpr ⟨?_, right⟩, ?_⟩
  · intro value member
    exact Int.le_of_lt (larges value member)
  · intro value member other otherMember
    rcases List.mem_cons.mp otherMember with rfl | otherMember
    · exact smalls value member
    · exact across value member other otherMember

/-- A turn takes the first value behind the sorted ones in among them. -/
theorem insert_spec {left : List Int} (behind : List Int) (key : Int) (sorted : left.Pairwise (· ≤ ·))
    (inside : ∀ k : Nat, k ≤ left.length → window.Contains k) :
    ∃ longer, insert window left.length (left ++ key :: behind) = some (longer ++ behind) ∧
      longer.Perm (left ++ [key]) ∧ longer.Pairwise (· ≤ ·) := by
  rcases shift_spec behind key key sorted rfl inside with
    ⟨small, large, free, split, smalls, larges, shifted⟩
  refine ⟨small ++ key :: large, ?_, ?_, ?_⟩
  · have loaded := Window.load_mid (inside left.length (Nat.le_refl _)) left behind rfl key
    have freeInside : window.Contains ((small.length : Int) - 1 + 1) := by
      rw [Int.sub_add_cancel]
      exact inside small.length (by rw [split, List.length_append]; omega)
    have stored := Window.store_mid freeInside small (large ++ behind)
      (Int.sub_add_cancel _ 1) free key
    rw [insert, loaded, Option.bind_eq_bind, Option.bind_some, shifted]
    simpa using stored
  · rw [split, List.append_assoc]
    exact (List.perm_middle.trans (List.perm_append_singleton key (small ++ large)).symm).trans
      (by rw [List.append_assoc])
  · exact pairwise_insert (split ▸ sorted) smalls larges

/-- What stands before the counter is sorted, the rest as in the beginning. -/
def SortedUpTo (arr : List Int) (i : Nat) (now : List Int) : Prop :=
  ∃ first sorted behind, arr = first ++ behind ∧ now = sorted ++ behind ∧
    sorted.length = i ∧ sorted.Perm first ∧ sorted.Pairwise (· ≤ ·)

private theorem sortedUpTo_one {value : Int} {rest : List Int} :
    SortedUpTo (value :: rest) 1 (value :: rest) :=
  ⟨[value], [value], rest, rfl, rfl, rfl, List.Perm.refl _, List.pairwise_singleton _ _⟩

private theorem insert_keeps {arr now : List Int} {i len : Nat} (upTo : SortedUpTo arr i now)
    (before : i < len) (bound : len ≤ arr.length) :
    ∃ next, insert ⟨0, len - 1⟩ i now = some next ∧ SortedUpTo arr (i + 1) next := by
  rcases upTo with ⟨first, sorted, behind, whole, rfl, rfl, permuted, pairwise⟩
  have size := permuted.length_eq
  cases behind with
  | nil =>
      rw [whole, List.append_nil] at bound
      omega
  | cons key behind =>
      have inside : ∀ k : Nat, k ≤ sorted.length → Window.Contains ⟨0, len - 1⟩ k := by
        intro k small
        exact ⟨Int.natCast_nonneg k, by dsimp only; omega⟩
      rcases insert_spec behind key pairwise inside with
        ⟨longer, moved, longerPerm, longerPairwise⟩
      refine ⟨longer ++ behind, moved, first ++ [key], longer, behind, ?_, rfl, ?_, ?_, ?_⟩
      · rw [whole, List.append_assoc]
        rfl
      · rw [longerPerm.length_eq, List.length_append]
        rfl
      · exact longerPerm.trans (permuted.append_right [key])
      · exact longerPairwise

/-- `inset_sort` ends, touches the first `len` cells only and sorts them. -/
theorem insetSort_sorts {arr : List Int} {len : Nat} (bound : len ≤ arr.length) :
    ∃ sorted, insetSort ⟨0, len - 1⟩ arr len = some sorted ∧
      Window.Sorts ⟨0, len - 1⟩ arr sorted := by
  cases len with
  | zero => exact ⟨arr, forRange_empty (by decide), Window.sorts_empty (by decide) arr⟩
  | succ len =>
      cases arr with
      | nil => exact absurd bound (by simp)
      | cons value rest =>
          rcases forRange_progress (SortedUpTo (value :: rest)) (Nat.succ_pos len)
            sortedUpTo_one (fun i now _ before upTo => insert_keeps upTo before bound) with
            ⟨final, run, first, sorted, behind, whole, rfl, size, permuted, pairwise⟩
          refine ⟨sorted ++ behind, run, ?_⟩
          rw [whole]
          refine Window.sorts_mid [] behind rfl ?_ permuted pairwise
          rw [← permuted.length_eq, size]
          simp

theorem insetSort_sorts_three :
    ∃ sorted, insetSort ⟨0, 2⟩ [3, 1, 2, 0] 3 = some sorted ∧
      Window.Sorts ⟨0, 2⟩ [3, 1, 2, 0] sorted :=
  insetSort_sorts (by decide)

end OsCompiler.Algorithm
