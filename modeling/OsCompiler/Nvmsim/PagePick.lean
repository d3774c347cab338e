/-
What the extraction functions guarantee, and where: the pages they pick, the average they
return and how they treat a page count that is out of date.

Two things go beyond a 32-bit word without a check, the size of the work arrays and the
sum of the access counts. The page count is compared with the pages found only after
the pages have been written to arrays of that many words.
-/

import OsCompiler.Nvmsim.Extraction

namespace OsCompiler.Nvmsim

/-! ### The pages picked -/

section Picked

variable {bits entries : Nat}

def BigSmallPicks (bitmap : Region Word bits) (infotable : Region Nat entries)
    (pageCount n k : Word) : Prop :=
  ∀ bigArr smallArr, ∃ avg bigOut smallOut,
    extractBigSmall ExtractGrants.all (some bitmap) (some infotable) pageCount n k bigArr smallArr =
      some (avg, bigOut, smallOut) ∧
    PointsToExtreme (· < ·) bitmap infotable n.toNat k.toNat bigOut ∧
    PointsToExtreme (· > ·) bitmap infotable n.toNat k.toNat smallOut

def SmallPicks (bitmap : Region Word bits) (infotable : Region Nat entries)
    (pageCount n k : Word) : Prop :=
  ∀ arr, ∃ avg out,
    extractSmall ExtractGrants.all (some bitmap) (some infotable) pageCount n k arr =
      some (avg, out) ∧
    PointsToExtreme (· > ·) bitmap infotable n.toNat k.toNat out

def BigPicks (bitmap : Region Word bits) (infotable : Region Nat entries) (n k : Word) : Prop :=
  ∀ arr, ∃ avg out,
    extractBig ExtractGrants.all (some bitmap) (some infotable) n k arr = some (avg, out) ∧
    PointsToExtreme (· < ·) bitmap infotable n.toNat k.toNat out

/-- A page count of 2^30 asks for arrays of no words at all. -/
theorem bigSmallPicks_fails {n pages : Word} (bitmap : Region Word n.toNat)
    (infotable : Region Nat entries) (overflow : compactPages ExtractGrants.all bitmap infotable
      pages n = none) (k : Word) : ¬ BigSmallPicks bitmap infotable pages n k := by
  intro picks
  rcases picks none none with ⟨avg, bigOut, smallOut, run, _⟩
  rw [extractBigSmall_eq_none overflow] at run
  cases run

/-- With all arrays granted the extraction picks the right pages exactly when the size of
the work arrays fits a 32-bit word. -/
theorem extraction_picks_iff {n k pages : Word} (bitmap : Region Word n.toNat)
    (infotable : Region Nat entries) (listed : n.toNat ≤ entries)
    (counted : pageCount (some bitmap) n = some pages) (positive : 1 ≤ k.toNat)
    (bound : k.toNat ≤ pages.toNat) :
    (BigSmallPicks bitmap infotable pages n k ↔ pages.toNat < 2 ^ 30) ∧
    (SmallPicks bitmap infotable pages n k ↔ pages.toNat < 2 ^ 30) ∧
    (BigPicks bitmap infotable n k ↔ pages.toNat < 2 ^ 30) := by
  have length := pageCount_eq_usedPages (Nat.le_refl _) counted
  by_cases few : pages.toNat < 2 ^ 30
  · refine ⟨iff_of_true ?_ few, iff_of_true ?_ few, iff_of_true ?_ few⟩
    · intro bigArr smallArr
      exact ⟨_, extractBigSmall_eq_some bigArr smallArr (Nat.le_refl _) listed length few positive
        bound⟩
    · intro arr
      rw [extractSmall_eq]
      exact ⟨_, extractExtreme_eq_some dualOrder arr (Nat.le_refl _) listed length few positive bound⟩
    · intro arr
      rw [extractBig_eq _ counted]
      exact ⟨_, extractExtreme_eq_some natOrder arr (Nat.le_refl _) listed length few positive bound⟩
  · have overflow : compactPages ExtractGrants.all bitmap infotable pages n = none :=
      compactPages_eq_none ExtractGrants.all_work (Nat.le_refl _) listed length
        (Nat.le_of_not_lt few)
    refine ⟨iff_of_false ?_ few, iff_of_false ?_ few, iff_of_false ?_ few⟩
    · exact bigSmallPicks_fails bitmap infotable overflow k
    · intro picks
      rcases picks none with ⟨avg, out, run, _⟩
      rw [extractSmall_eq, extractExtreme_eq_none overflow] at run
      cases run
    · intro picks
      rcases picks none with ⟨avg, out, run, _⟩
      rw [extractBig_eq _ counted, extractExtreme_eq_none overflow] at run
      cases run

private theorem usedPages_full (n : Nat) :
    (usedPages (⟨fun _ => 1#32⟩ : Region Word n) n).length = n := by
  rw [usedPages, List.filter_eq_self.mpr, List.length_range]
  intro page member
  have inside := List.mem_range.mp member
  rw [Region.contents, Region.read_eq_cell _ inside]
  rfl

theorem pageCount_full (n : Word) :
    pageCount (some (⟨fun _ => 1#32⟩ : Region Word n.toNat)) n = some n := by
  rcases pageCount_eq (⟨fun _ => 1#32⟩ : Region Word n.toNat) (Nat.le_refl _) with
    ⟨total, run, counted⟩
  rw [run, Option.some.injEq]
  apply BitVec.eq_of_toNat_eq
  rw [counted, ← usedPages_length, usedPages_full]

/-- With 2^30 used pages the count is right and yet no page is extracted. -/
theorem full_bitmap_not_picked :
    pageCount (some (⟨fun _ => 1#32⟩ : Region Word (1073741824#32).toNat)) 1073741824#32 =
        some 1073741824#32 ∧
      ¬ BigSmallPicks (⟨fun _ => 1#32⟩ : Region Word (1073741824#32).toNat)
        (⟨fun _ => 0⟩ : Region Nat 1073741824) 1073741824#32 1073741824#32 1#32 := by
  refine ⟨pageCount_full _, bigSmallPicks_fails _ _ ?_ _⟩
  exact compactPages_eq_none ExtractGrants.all_work (Nat.le_refl _) (Nat.le_refl _)
    (usedPages_full _).symm (Nat.le_refl _)

/-- Two pages are used; the one with the greater count is the hot one. -/
theorem extraction_picks_iff_two :
    SmallPicks (⟨fun _ => 1#32⟩ : Region Word (2#32).toNat) (⟨fun i => i.val⟩ : Region Nat 2)
      2#32 2#32 1#32 :=
  (extraction_picks_iff ⟨fun _ => 1#32⟩ ⟨fun i => i.val⟩ (by decide) (pageCount_full 2#32)
    (by decide) (by decide)).2.1.mpr (by decide)

end Picked

/-! ### The average -/

section Average

variable {bits entries : Nat}

/-- The average of the counts rounded down, which lies between the counts and is not the
error result where every count is positive. -/
structure MeaningfulAverage (infotable : Region Nat entries) (pages : List Nat) (avg : Nat) :
    Prop where
  floor : avg = totalCount infotable pages / pages.length
  lower : ∀ low, (∀ page ∈ pages, low ≤ infotable.contents page) → low ≤ avg
  upper : ∀ high, (∀ page ∈ pages, infotable.contents page ≤ high) → avg ≤ high
  positive : (∀ page ∈ pages, 0 < infotable.contents page) → avg ≠ 0

private theorem le_totalCount {infotable : Region Nat entries} {pages : List Nat} {low : Nat}
    (above : ∀ page ∈ pages, low ≤ infotable.contents page) :
    low * pages.length ≤ totalCount infotable pages := by
  induction pages using List.reverseRecOn with
  | nil => exact Nat.zero_le _
  | append_singleton pages page ih =>
      have earlier := ih fun other member => above other (List.mem_append_left _ member)
      have last := above page (by simp)
      rw [totalCount_append, List.length_append, List.length_singleton, Nat.mul_add, Nat.mul_one]
      exact Nat.add_le_add earlier last

private theorem totalCount_le {infotable : Region Nat entries} {pages : List Nat} {high : Nat}
    (below : ∀ page ∈ pages, infotable.contents page ≤ high) :
    totalCount infotable pages ≤ high * pages.length := by
  induction pages using List.reverseRecOn with
  | nil => exact Nat.zero_le _
  | append_singleton pages page ih =>
      have earlier := ih fun other member => below other (List.mem_append_left _ member)
      have last := below page (by simp)
      rw [totalCount_append, List.length_append, List.length_singleton, Nat.mul_add, Nat.mul_one]
      exact Nat.add_le_add earlier last

private theorem meaningfulAverage_floor (infotable : Region Nat entries) {pages : List Nat}
    (nonempty : 0 < pages.length) :
    MeaningfulAverage infotable pages (totalCount infotable pages / pages.length) where
  floor := rfl
  lower := fun _ above => (Nat.le_div_iff_mul_le nonempty).mpr (le_totalCount above)
  upper := fun _ below => Nat.div_le_of_le_mul (Nat.mul_comm _ _ ▸ totalCount_le below)
  positive := fun above => Nat.one_le_iff_ne_zero.mp
    ((Nat.le_div_iff_mul_le nonempty).mpr (le_totalCount above))

/-- The sum kept in one word gives the true average exactly where the sum fits it. -/
theorem meaningfulAverage_iff (infotable : Region Nat entries) {pages : List Nat}
    (nonempty : 0 < pages.length) (small : pages.length < 2 ^ 32) :
    MeaningfulAverage infotable pages (totalCount infotable pages % 2 ^ 32 / pages.length) ↔
      totalCount infotable pages < 2 ^ 32 := by
  constructor
  · intro meaningful
    by_contra wraps
    have reduced : totalCount infotable pages % 2 ^ 32 + pages.length ≤
        totalCount infotable pages := by omega
    have quotients := Nat.div_le_div_right (c := pages.length) reduced
    rw [Nat.add_div_right _ nonempty, ← meaningful.floor] at quotients
    exact Nat.lt_irrefl _ quotients
  · intro fits
    rw [Nat.mod_eq_of_lt fits]
    exact meaningfulAverage_floor infotable nonempty

def ReturnsAverage (bitmap : Region Word bits) (infotable : Region Nat entries) (n : Word)
    (returned : Option Nat) : Prop :=
  ∃ avg, returned = some avg ∧ MeaningfulAverage infotable (usedPages bitmap n.toNat) avg

theorem returnsAverage_iff {bitmap : Region Word bits} {infotable : Region Nat entries}
    {n pages : Word} {returned : Option Nat}
    (length : pages.toNat = (usedPages bitmap n.toNat).length) (positive : 0 < pages.toNat)
    (run : pages.toNat < 2 ^ 30 → returned =
      some (totalCount infotable (usedPages bitmap n.toNat) % 2 ^ 32 / pages.toNat))
    (fault : ¬ pages.toNat < 2 ^ 30 → returned = none) :
    ReturnsAverage bitmap infotable n returned ↔
      totalCount infotable (usedPages bitmap n.toNat) < 2 ^ 32 ∧ pages.toNat < 2 ^ 30 := by
  by_cases few : pages.toNat < 2 ^ 30
  · have exact := meaningfulAverage_iff infotable (length ▸ positive) (length ▸ pages.isLt)
    rw [← length] at exact
    rw [ReturnsAverage, run few, and_iff_left few, ← exact]
    constructor
    · rintro ⟨avg, same, meaningful⟩
      exact Option.some.inj same ▸ meaningful
    · intro meaningful
      exact ⟨_, rfl, meaningful⟩
  · rw [ReturnsAverage, fault few]
    exact iff_of_false (by rintro ⟨avg, impossible, _⟩; cases impossible) fun both => few both.2

/-- The returned average is the true one exactly when the counts add up to less than 2^32
and the work arrays have room. -/
theorem extraction_average_iff {n k pages : Word} (bitmap : Region Word n.toNat)
    (infotable : Region Nat entries) (listed : n.toNat ≤ entries)
    (counted : pageCount (some bitmap) n = some pages) (positive : 1 ≤ k.toNat)
    (bound : k.toNat ≤ pages.toNat) (bigArr smallArr arr : Option WordArray) :
    (ReturnsAverage bitmap infotable n ((extractBigSmall ExtractGrants.all (some bitmap)
        (some infotable) pages n k bigArr smallArr).map fun result => result.1) ↔
      totalCount infotable (usedPages bitmap n.toNat) < 2 ^ 32 ∧ pages.toNat < 2 ^ 30) ∧
    (ReturnsAverage bitmap infotable n ((extractSmall ExtractGrants.all (some bitmap)
        (some infotable) pages n k arr).map fun result => result.1) ↔
      totalCount infotable (usedPages bitmap n.toNat) < 2 ^ 32 ∧ pages.toNat < 2 ^ 30) ∧
    (ReturnsAverage bitmap infotable n ((extractBig ExtractGrants.all (some bitmap)
        (some infotable) n k arr).map fun result => result.1) ↔
      totalCount infotable (usedPages bitmap n.toNat) < 2 ^ 32 ∧ pages.toNat < 2 ^ 30) := by
  have length := pageCount_eq_usedPages (Nat.le_refl _) counted
  have some_page : 0 < pages.toNat := by omega
  have overflow : ¬ pages.toNat < 2 ^ 30 →
      compactPages ExtractGrants.all bitmap infotable pages n = none := fun few =>
    compactPages_eq_none ExtractGrants.all_work (Nat.le_refl _) listed length
      (Nat.le_of_not_lt few)
  refine ⟨returnsAverage_iff length some_page ?_ ?_, returnsAverage_iff length some_page ?_ ?_,
    returnsAverage_iff length some_page ?_ ?_⟩
  · intro few
    rcases extractBigSmall_eq_some bigArr smallArr (Nat.le_refl _) listed length few positive bound
      with ⟨bigOut, smallOut, run, _⟩
    rw [run, Option.map_some]
  · intro few
    rw [extractBigSmall_eq_none (overflow few), Option.map_none]
  · intro few
    rcases extractExtreme_eq_some dualOrder arr (Nat.le_refl _) listed length few positive bound
      with ⟨out, run, _⟩
    rw [extractSmall_eq]
    exact congrArg (Option.map fun result => result.1) run
  · intro few
    rw [extractSmall_eq, extractExtreme_eq_none (overflow few), Option.map_none]
  · intro few
    rcases extractExtreme_eq_some natOrder arr (Nat.le_refl _) listed length few positive bound
      with ⟨out, run, _⟩
    rw [extractBig_eq _ counted]
    exact congrArg (Option.map fun result => result.1) run
  · intro few
    rw [extractBig_eq _ counted, extractExtreme_eq_none (overflow few), Option.map_none]

/-- Two pages with 2^31 accesses each: the sum wraps to 0, and so does the average. -/
theorem average_wraps :
    ¬ ReturnsAverage (⟨fun _ => 1#32⟩ : Region Word (2#32).toNat)
      (⟨fun _ => 2147483648⟩ : Region Nat 2) 2#32
      ((extractBigSmall ExtractGrants.all (some (⟨fun _ => 1#32⟩ : Region Word (2#32).toNat))
        (some (⟨fun _ => 2147483648⟩ : Region Nat 2)) 2#32 2#32 1#32 none none).map
          fun result => result.1) := by
  rintro ⟨avg, run, meaningful⟩
  have zero : avg = 0 := by
    rw [← Option.some.injEq, ← run]
    decide +kernel
  have floor := meaningful.floor
  rw [zero] at floor
  revert floor
  decide

theorem extraction_average_iff_two :
    ReturnsAverage (⟨fun _ => 1#32⟩ : Region Word (2#32).toNat) (⟨fun i => i.val + 5⟩ : Region Nat 2)
      2#32 ((extractSmall ExtractGrants.all (some (⟨fun _ => 1#32⟩ : Region Word (2#32).toNat))
        (some (⟨fun i => i.val + 5⟩ : Region Nat 2)) 2#32 2#32 1#32 none).map
          fun result => result.1) :=
  (extraction_average_iff ⟨fun _ => 1#32⟩ ⟨fun i => i.val + 5⟩ (by decide) (pageCount_full 2#32)
    (by decide) (by decide) none none none).2.1.mpr (by decide)

end Average

/-! ### A page count that is out of date -/

section Stale

variable {entries : Nat}

/-- A wrong page count is refused, the outputs untouched, exactly when the pages that are
in use fit the work arrays that were allocated for it, or none were. -/
theorem stale_page_count_iff {n k pageCount : Word} (granted : ExtractGrants)
    (bitmap : Region Word n.toNat) (infotable : Region Nat entries) (listed : n.toNat ≤ entries)
    (stale : pageCount.toNat ≠ (usedPages bitmap n.toNat).length)
    (bigArr smallArr arr : Option WordArray) :
    (extractBigSmall granted (some bitmap) (some infotable) pageCount n k bigArr smallArr =
        some (0, bigArr, smallArr) ↔
      (usedPages bitmap n.toNat).length ≤ pageCount.toNat % 2 ^ 30 ∨
        ¬ (granted.barray = true ∧ granted.marray = true)) ∧
    (extractSmall granted (some bitmap) (some infotable) pageCount n k arr = some (0, arr) ↔
      (usedPages bitmap n.toNat).length ≤ pageCount.toNat % 2 ^ 30 ∨
        ¬ (granted.barray = true ∧ granted.marray = true)) := by
  rw [← workWords_eq_mod]
  by_cases overflow : (granted.barray = true ∧ granted.marray = true) ∧
      workWords pageCount < (usedPages bitmap n.toNat).length
  · have fault : compactPages granted bitmap infotable pageCount n = none :=
      compactPages_overflow overflow.1 (Nat.le_refl _) listed overflow.2
    have outside : ¬ ((usedPages bitmap n.toNat).length ≤ workWords pageCount ∨
        ¬ (granted.barray = true ∧ granted.marray = true)) :=
      not_or.mpr ⟨Nat.not_le_of_lt overflow.2, not_not.mpr overflow.1⟩
    rw [extractBigSmall_eq_none fault, extractSmall_eq, extractExtreme_eq_none fault]
    exact ⟨iff_of_false (by simp) outside, iff_of_false (by simp) outside⟩
  · have inside : (usedPages bitmap n.toNat).length ≤ workWords pageCount ∨
        ¬ (granted.barray = true ∧ granted.marray = true) := by
      rcases not_and_or.mp overflow with unavailable | room
      · exact Or.inr unavailable
      · exact Or.inl (Nat.le_of_not_lt room)
    have refused : compactPages granted bitmap infotable pageCount n = some none :=
      compactPages_stale (Nat.le_refl _) listed stale inside
    rw [extractBigSmall, extractSmall_eq, extractExtreme, refused]
    exact ⟨iff_of_true rfl inside, iff_of_true rfl inside⟩

/-- One page is in use and the count says none: the page is written behind the array. -/
theorem stale_count_overflows :
    pageCount (some (⟨fun _ => 1#32⟩ : Region Word (1#32).toNat)) 1#32 = some 1#32 ∧
    ¬ ∀ bigArr smallArr, extractBigSmall ExtractGrants.all
      (some (⟨fun _ => 1#32⟩ : Region Word (1#32).toNat)) (some (⟨fun _ => 7⟩ : Region Nat 1))
      0#32 1#32 1#32 bigArr smallArr = some (0, bigArr, smallArr) := by
  refine ⟨pageCount_full 1#32, fun rejects => ?_⟩
  have fault : compactPages ExtractGrants.all (⟨fun _ => 1#32⟩ : Region Word (1#32).toNat)
      (⟨fun _ => 7⟩ : Region Nat 1) 0#32 1#32 = none :=
    compactPages_overflow ExtractGrants.all_work (by decide) (by decide) (by decide)
  have run := rejects none none
  rw [extractBigSmall_eq_none fault] at run
  cases run

/-- Two pages counted where one is in use. -/
theorem stale_page_count_iff_two :
    extractSmall ExtractGrants.all (some (⟨fun i => BitVec.ofNat 32 i.val⟩ : Region Word (2#32).toNat))
      (some (⟨fun _ => 7⟩ : Region Nat 2)) 2#32 2#32 1#32 none = some (0, none) :=
  (stale_page_count_iff ExtractGrants.all ⟨fun i => BitVec.ofNat 32 i.val⟩ ⟨fun _ => 7⟩ (by decide)
    (by decide) none none none).2.mpr (Or.inl (by decide))

end Stale

end OsCompiler.Nvmsim
