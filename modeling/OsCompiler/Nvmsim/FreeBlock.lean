/-
The search for a free physical block: `query_bitmap` over any bitmap and any length.

Physical block numbers start at 1 and 0 stands for "not found". The first loop runs
from the wanted position to the end; the second starts over at position 0, which is
no block number, where the cyclic order of the block numbers goes on with 1.
-/

import OsCompiler.Nvmsim.WearLevel

namespace OsCompiler.Nvmsim

variable {words : Nat}

def cyclicOrder (pos len : Nat) : List Nat :=
  List.range' pos (len - pos) ++ List.range' 1 (pos - 1)

/-- The query returns the first free block in the cyclic order, and 0 where none is. -/
def FindsFreeBlock (bitMap : Region Word words) (pos len : Nat) : Prop :=
  queryBitmap bitMap pos len =
    some (((cyclicOrder pos len).find? (fun i => bool i bitMap = some false)).getD 0)

private theorem mem_cyclicOrder {pos len i : Nat} (positive : 1 ≤ pos) (inside : pos ≤ len) :
    i ∈ cyclicOrder pos len ↔ 1 ≤ i ∧ i < len := by
  rw [cyclicOrder, List.mem_append, List.mem_range'_1, List.mem_range'_1]
  omega

/-- What the two loops compute, at every length the bitmap covers. -/
theorem queryBitmap_eq_find (bitMap : Region Word words) {pos len : Nat} (inside : pos ≤ len)
    (covered : len ≤ 32 * words) :
    queryBitmap bitMap pos len =
      some (((List.range' pos (len - pos) ++ List.range' 0 pos).find?
        (fun i => bool i bitMap = some false)).getD 0) := by
  have answers : ∀ i < len, ∃ passes, unused bitMap i = some passes := by
    intro i below
    apply exists_unused bitMap
    unfold intOffset bitWidthInBits
    omega
  have clear : ∀ i, unused bitMap i = some true ↔ bool i bitMap = some false :=
    fun i => unused_eq bitMap i true
  have ahead := @searchRange_eq_find pos len (unused bitMap) (fun i _ upper => answers i upper)
  have behind := @searchRange_eq_find 0 pos (unused bitMap)
    (fun i _ upper => answers i (Nat.lt_of_lt_of_le upper inside))
  simp only [clear, Nat.sub_zero] at ahead behind
  rw [queryBitmap, if_neg (Nat.not_lt.mpr inside), ahead, behind, List.find?_append]
  cases (List.range' pos (len - pos)).find? (fun i => bool i bitMap = some false) with
  | some i => rfl
  | none =>
      cases (List.range' 0 pos).find? (fun i => bool i bitMap = some false) <;> rfl

/-- The second loop starts one position too early. -/
theorem range_zero_eq_cons {pos : Nat} (positive : 1 ≤ pos) :
    List.range' 0 pos = 0 :: List.range' 1 (pos - 1) := by
  rcases Nat.exists_eq_add_of_le positive with ⟨rest, rfl⟩
  rw [Nat.add_comm, List.range'_succ, Nat.add_sub_cancel]

theorem find_clear_eq_none (bitMap : Region Word words) {blocks : List Nat} :
    blocks.find? (fun i => bool i bitMap = some false) = none ↔
      ∀ i ∈ blocks, bool i bitMap ≠ some false := by
  rw [List.find?_eq_none]
  simp only [decide_eq_true_eq, ne_eq]

/-- The query meets its contract unless nothing is free ahead, a block is free behind
and bit 0, which belongs to no block, is clear. -/
theorem findsFreeBlock_iff (bitMap : Region Word words) {pos len : Nat} (positive : 1 ≤ pos)
    (inside : pos ≤ len) (covered : len ≤ 32 * words) :
    FindsFreeBlock bitMap pos len ↔
      (∃ i, pos ≤ i ∧ i < len ∧ bool i bitMap = some false) ∨ bool 0 bitMap ≠ some false ∨
        ∀ i, 1 ≤ i → i < pos → bool i bitMap ≠ some false := by
  rw [FindsFreeBlock, queryBitmap_eq_find bitMap inside covered, range_zero_eq_cons positive,
    cyclicOrder, List.find?_append, List.find?_append]
  cases ahead : (List.range' pos (len - pos)).find? (fun i => bool i bitMap = some false) with
  | some i =>
      have member := List.mem_range'_1.mp (List.mem_of_find?_eq_some ahead)
      have free : bool i bitMap = some false := by simpa using List.find?_some ahead
      exact iff_of_true rfl (Or.inl ⟨i, member.1, by omega, free⟩)
  | none =>
      have occupied : ¬ ∃ i, pos ≤ i ∧ i < len ∧ bool i bitMap = some false := by
        rintro ⟨i, lower, upper, free⟩
        exact (find_clear_eq_none bitMap).mp ahead i (List.mem_range'_1.mpr (by omega)) free
      rw [or_iff_right occupied, Option.none_or, Option.none_or]
      by_cases zero : bool 0 bitMap = some false
      · rw [or_iff_right (not_not.mpr zero), List.find?_cons_of_pos (by simp [zero])]
        cases behind : (List.range' 1 (pos - 1)).find? (fun i => bool i bitMap = some false) with
        | some i =>
            -- the block is there, but position 0 was looked at first
            have member := List.mem_range'_1.mp (List.mem_of_find?_eq_some behind)
            have free : bool i bitMap = some false := by simpa using List.find?_some behind
            refine iff_of_false ?_ (fun none => none i member.1 (by omega) free)
            intro same
            simp only [Option.getD_some, Option.some.injEq] at same
            omega
        | none =>
            refine iff_of_true rfl ?_
            intro i lower upper
            exact (find_clear_eq_none bitMap).mp behind i (List.mem_range'_1.mpr (by omega))
      · rw [List.find?_cons_of_neg (by simp [zero])]
        exact iff_of_true rfl (Or.inl zero)

/-- A query that meets its contract returns a free block number when there is one. -/
theorem FindsFreeBlock.returns_free {bitMap : Region Word words} {pos len : Nat}
    (finds : FindsFreeBlock bitMap pos len) (positive : 1 ≤ pos) (inside : pos ≤ len)
    (free : ∃ i, 1 ≤ i ∧ i < len ∧ bool i bitMap = some false) :
    ∃ next, queryBitmap bitMap pos len = some next ∧ 1 ≤ next ∧ next < len ∧
      bool next bitMap = some false := by
  rw [FindsFreeBlock] at finds
  cases found : (cyclicOrder pos len).find? (fun i => bool i bitMap = some false) with
  | none =>
      rcases free with ⟨i, lower, upper, clear⟩
      have member := (mem_cyclicOrder positive inside).mpr ⟨lower, upper⟩
      exact absurd clear ((find_clear_eq_none bitMap).mp found i member)
  | some next =>
      have bounds := (mem_cyclicOrder positive inside).mp (List.mem_of_find?_eq_some found)
      have clear : bool next bitMap = some false := by simpa using List.find?_some found
      exact ⟨next, by rw [finds, found]; rfl, bounds.1, bounds.2, clear⟩

/-- Blocks 2 and 3 are taken and block 1 is free, yet the query from 2 on says "none". -/
theorem queryBitmap_misses_block :
    ¬ FindsFreeBlock (⟨fun _ => 12#32⟩ : Region Word 1) 2 4 := by
  unfold FindsFreeBlock
  decide

theorem findsFreeBlock_iff_ahead :
    FindsFreeBlock (⟨fun _ => 4#32⟩ : Region Word 1) 2 4 :=
  (findsFreeBlock_iff _ (by decide) (by decide) (by decide)).mpr
    (Or.inl ⟨3, by decide, by decide, by decide⟩)

end OsCompiler.Nvmsim
